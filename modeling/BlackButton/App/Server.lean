import BlackButton.Database.Manager
import BlackButton.Lib.Machine

/-!
# Choosing a server (`ui/MainActivity.kt`, `Core.currentProfile`)

A server is written to the row that `DataStore.profileId` refers to, or to a new row;
then `profileId` becomes 1, whichever row was written. `updateServer` leaves a new row
blank.

* `initConnectionServer_iff`, `updateServer_iff`: the chosen server is the one that will be
  used if and only if the row that was written is row 1, or row 1 had that server before.
* `reach_chosen`: **after a fresh install it always is**, if the activity starts with
  `initConnectionServer` and every server has an address.
-/

namespace BlackButton

/-- `ProfileBean.SafeLocation`: what `setServerData` reads. -/
structure SafeLocation where
  bbPwd : Option Str
  bbMethod : Option Str
  bbPort : Option ℤ
  bbCountry : Option Str := none
  bbCity : Option Str := none
  bbIp : Option Str
  deriving DecidableEq

namespace SafeLocation

/-- The fields that are read with `!!` are there. -/
structure Complete (loc : SafeLocation) : Prop where
  port : loc.bbPort.isSome
  pwd : loc.bbPwd.isSome
  method : loc.bbMethod.isSome

/-- `p` has the address, port, password and method of `loc`. -/
structure Serves (loc : SafeLocation) (p : Profile) : Prop where
  ip : loc.bbIp = some p.host
  port : loc.bbPort = some p.remotePort
  pwd : loc.bbPwd = some p.password
  method : loc.bbMethod = some p.method

end SafeLocation

/-- What ends the activity: a `!!` of null, or an exception of `ProfileManager`. -/
inductive Crash
  | nullPointer
  | fault (f : Fault)
  deriving DecidableEq

/-- `DataStore.profileId`, and the server that the activity shows. -/
structure Choice where
  profileId : ℤ
  bestServiceData : SafeLocation

namespace MainActivity

open SafeLocation

/-- `toString` of a nullable string. -/
def nullableText (s : Option Str) : Str := s.getD "null".toList

/-- `setServerData`. -/
def setServerData (profile : Profile) (bestData : SafeLocation) : Except Crash Profile :=
  match bestData.bbPort, bestData.bbPwd, bestData.bbMethod with
  | some port, some pwd, some method =>
    .ok { profile with
      name := some (nullableText bestData.bbCountry ++ "-".toList ++ nullableText bestData.bbCity)
      host := nullableText bestData.bbIp
      remotePort := port
      password := pwd
      method := method }
  | _, _, _ => .error .nullPointer

/-- `ProfileManager.updateProfile`. -/
def updateProfile (w : World Choice) (profile : Profile) : Except Crash (World Choice) :=
  match w.updateProfile profile with
  | (_, some f) => .error (.fault f)
  | (w, none) => .ok w

/-- `DataStore.profileId = id`. -/
def setProfileId (id : ℤ) (w : World Choice) : World Choice := { w with extra := { w.extra with profileId := id } }

/-- `Core.currentProfile`. -/
def currentProfile (w : World Choice) : Option Profile := w.table.get w.extra.profileId

/-- `initConnectionServer`. -/
def initConnectionServer (w : World Choice) : Except Crash (World Choice) :=
  (match w.table.get w.extra.profileId with
    | some it => (setServerData it w.extra.bestServiceData).bind (updateProfile w)
    | none => (setServerData {} w.extra.bestServiceData).map fun profile => (w.createProfile profile).1).map
  (setProfileId 1)

/-- `updateServer`. -/
def updateServer (w : World Choice) (safeLocation : SafeLocation) : Except Crash (World Choice) :=
  let w := { w with extra := { w.extra with bestServiceData := safeLocation } }
  (match w.table.get w.extra.profileId with
    | some it => (setServerData it safeLocation).bind (updateProfile w)
    | none => .ok (w.createProfile {}).1).map
  (setProfileId 1)

/-- **The chosen server is the one that will be used.** -/
def Chosen (w : World Choice) (loc : SafeLocation) : Prop := ∃ p, currentProfile w = some p ∧ loc.Serves p

/-! ## What is written -/

theorem setServerData_spec {loc : SafeLocation} (h : loc.Complete) (p : Profile) :
    ∃ q, setServerData p loc = .ok q ∧ q.id = p.id ∧ (loc.Serves q ↔ loc.bbIp.isSome) := by
  obtain ⟨port, hport⟩ := Option.isSome_iff_exists.1 h.port
  obtain ⟨pwd, hpwd⟩ := Option.isSome_iff_exists.1 h.pwd
  obtain ⟨method, hmethod⟩ := Option.isSome_iff_exists.1 h.method
  unfold setServerData
  rw [hport, hpwd, hmethod]
  refine ⟨_, rfl, rfl, ?_⟩
  constructor
  · intro hs
    rw [hs.ip]
    rfl
  · intro hip
    obtain ⟨ip, hip⟩ := Option.isSome_iff_exists.1 hip
    refine ⟨?_, hport, hpwd, hmethod⟩
    rw [hip]
    rfl

section

variable {w : World Choice} {loc : SafeLocation}

/-- The row of `profileId` is there: it is written. -/
theorem updateProfile_spec {it q : Profile} (hit : w.table.get w.extra.profileId = some it) (hid : q.id = it.id) :
    updateProfile w q = .ok { w with table := w.table.update q } ∧
      (w.table.update q).get 1 = if w.extra.profileId = 1 then some q else w.table.get 1 := by
  obtain ⟨hmem, hitid⟩ := Table.get_eq_some_iff.1 hit
  have hqid : q.id = w.extra.profileId := hid.trans hitid
  constructor
  · have hin : q.id ∈ w.table.ids := by
      rw [hid]
      exact Table.mem_ids.2 ⟨it, hmem, rfl⟩
    unfold updateProfile World.updateProfile
    rw [if_pos hin]
  · split
    · rename_i hone
      rw [← hqid] at hit
      rw [← hone, ← hqid]
      exact Table.get_update hit
    · rename_i hone
      rw [← hqid] at hone
      exact Table.get_update_ne (Ne.symm hone)

/-- A new row is row 1 if none was ever used. -/
theorem createProfile_spec (w : World Choice) (q : Profile) :
    ∃ o, (loc.Serves o ↔ loc.Serves q) ∧
      (w.createProfile q).1.table.get 1 = if w.table.seq = 0 then some o else w.table.get 1 := by
  refine ⟨((q.withId 0).withOrder (w.table.nextOrder.getD 0)).withId (w.table.seq + 1), ?_, ?_⟩
  · exact ⟨fun h => ⟨h.ip, h.port, h.pwd, h.method⟩, fun h => ⟨h.ip, h.port, h.pwd, h.method⟩⟩
  · unfold World.createProfile
    simp only
    rw [Table.get_create]
    split
    · rename_i hone
      rw [if_pos (by omega)]
    · rename_i hone
      rw [if_neg (by omega)]

/-- Row 1 has the server of `loc`. -/
def InRowOne (t : Table) (loc : SafeLocation) : Prop := ∃ r, t.get 1 = some r ∧ loc.Serves r

theorem InRowOne.ip {t : Table} (h : InRowOne t loc) : loc.bbIp.isSome := by
  obtain ⟨r, -, hr⟩ := h
  rw [hr.ip]
  rfl

/-- If no row was ever used, there is no row 1. -/
theorem not_inRowOne {t : Table} (h : t.seq = 0) : ¬InRowOne t loc := by
  rintro ⟨r, hr, -⟩
  obtain ⟨hmem, hid⟩ := Table.get_eq_some_iff.1 hr
  have := t.le_seq r hmem
  omega

/-- The server is chosen if it was written to row 1, or if it was there and row 1 was not written. -/
theorem chosen_iff_row {t : Table} {w' : World Choice} {o : Profile} {c : Prop} [Decidable c]
    (h : w'.table.get 1 = if c then some o else t.get 1) (hkeep : c → InRowOne t loc → loc.Serves o) :
    Chosen (setProfileId 1 w') loc ↔ InRowOne t loc ∨ c ∧ loc.Serves o := by
  have hchosen : Chosen (setProfileId 1 w') loc ↔ ∃ p, w'.table.get 1 = some p ∧ loc.Serves p := Iff.rfl
  rw [hchosen, h]
  by_cases hc : c
  · rw [if_pos hc]
    constructor
    · rintro ⟨p, hp, hs⟩
      cases hp
      exact Or.inr ⟨hc, hs⟩
    · rintro (hold | ⟨-, hs⟩)
      · exact ⟨o, rfl, hkeep hc hold⟩
      · exact ⟨o, rfl, hs⟩
  · rw [if_neg hc]
    constructor
    · exact Or.inl
    · rintro (hold | ⟨h, -⟩)
      · exact hold
      · exact absurd h hc

/-- An existing row is written. -/
theorem chosen_update (h : loc.Complete) {it : Profile} (hit : w.table.get w.extra.profileId = some it) :
    ∃ w', (setServerData it loc).bind (updateProfile w) = .ok w' ∧ w'.extra = w.extra ∧
      (Chosen (setProfileId 1 w') loc ↔ InRowOne w.table loc ∨ w.extra.profileId = 1 ∧ loc.bbIp.isSome) := by
  obtain ⟨q, hq, hid, hserves⟩ := setServerData_spec h it
  obtain ⟨hok, hrow⟩ := updateProfile_spec hit hid
  refine ⟨{ w with table := w.table.update q }, ?_, rfl, ?_⟩
  · rw [hq]
    exact hok
  · rw [← hserves]
    exact chosen_iff_row hrow fun _ hold => hserves.2 hold.ip

/-- A row is created. -/
theorem chosen_create (w : World Choice) (q : Profile) :
    Chosen (setProfileId 1 (w.createProfile q).1) loc ↔
      InRowOne w.table loc ∨ w.table.seq = 0 ∧ loc.Serves q := by
  obtain ⟨o, hserves, hrow⟩ := createProfile_spec w q
  rw [← hserves]
  exact chosen_iff_row hrow fun hseq hold => absurd hold (not_inRowOne hseq)

end

/-! ## Which server will be used -/

/-- The states in which `initConnectionServer` leads to the chosen server: row 1 has it already, or is the row of
`profileId`, or is the next one, and the server has an address. -/
def InitMeets (w : World Choice) (loc : SafeLocation) : Prop :=
  InRowOne w.table loc ∨
    loc.bbIp.isSome ∧ (w.extra.profileId = 1 ∧ 1 ∈ w.table.ids ∨ w.extra.profileId ∉ w.table.ids ∧ w.table.seq = 0)

/-- The states in which `updateServer` does: row 1 has the server already, or is the row of `profileId`; or the
server is the one of a blank profile, and row 1 is the next one. -/
def UpdateMeets (w : World Choice) (loc : SafeLocation) : Prop :=
  InRowOne w.table loc ∨
    loc.bbIp.isSome ∧ w.extra.profileId = 1 ∧ 1 ∈ w.table.ids ∨
    loc.Serves {} ∧ w.extra.profileId ∉ w.table.ids ∧ w.table.seq = 0

section

variable {w : World Choice}

theorem initConnectionServer_iff (h : w.extra.bestServiceData.Complete) :
    ∃ w', initConnectionServer w = .ok w' ∧ w'.extra = ⟨1, w.extra.bestServiceData⟩ ∧
      (Chosen w' w.extra.bestServiceData ↔ InitMeets w w.extra.bestServiceData) := by
  unfold initConnectionServer InitMeets
  cases hit : w.table.get w.extra.profileId with
  | some it =>
    obtain ⟨w', hok, hextra, hiff⟩ := chosen_update h hit
    obtain ⟨hmem, hid⟩ := Table.get_eq_some_iff.1 hit
    have hin : w.extra.profileId ∈ w.table.ids := Table.mem_ids.2 ⟨it, hmem, hid⟩
    refine ⟨setProfileId 1 w', by simp only [hok, Except.map], ?_, ?_⟩
    · unfold setProfileId
      rw [hextra]
    rw [hiff]
    refine or_congr_right ?_
    constructor
    · rintro ⟨hone, hip⟩
      exact ⟨hip, Or.inl ⟨hone, hone ▸ hin⟩⟩
    · rintro ⟨hip, ⟨hone, -⟩ | ⟨hout, -⟩⟩
      · exact ⟨hone, hip⟩
      · exact absurd hin hout
  | none =>
    have hout := Table.get_eq_none_iff.1 hit
    obtain ⟨q, hq, -, hserves⟩ := setServerData_spec h {}
    refine ⟨setProfileId 1 (w.createProfile q).1, by simp only [hq, Except.map], rfl, ?_⟩
    rw [chosen_create, hserves]
    refine or_congr_right ?_
    constructor
    · rintro ⟨hseq, hip⟩
      exact ⟨hip, Or.inr ⟨hout, hseq⟩⟩
    · rintro ⟨hip, ⟨hone, hin⟩ | ⟨-, hseq⟩⟩
      · exact absurd (hone ▸ hin) hout
      · exact ⟨hseq, hip⟩

theorem updateServer_iff {loc : SafeLocation} (h : loc.Complete) :
    ∃ w', updateServer w loc = .ok w' ∧ w'.extra = ⟨1, loc⟩ ∧ (Chosen w' loc ↔ UpdateMeets w loc) := by
  unfold updateServer UpdateMeets
  cases hit : w.table.get w.extra.profileId with
  | some it =>
    obtain ⟨w', hok, hextra, hiff⟩ := chosen_update
      (w := { w with extra := { w.extra with bestServiceData := loc } }) h hit
    obtain ⟨hmem, hid⟩ := Table.get_eq_some_iff.1 hit
    have hin : w.extra.profileId ∈ w.table.ids := Table.mem_ids.2 ⟨it, hmem, hid⟩
    refine ⟨setProfileId 1 w', by simp only [hit, hok, Except.map], ?_, ?_⟩
    · unfold setProfileId
      rw [hextra]
    rw [hiff]
    refine or_congr_right ?_
    constructor
    · rintro ⟨hone, hip⟩
      exact Or.inl ⟨hip, hone, (show w.extra.profileId = 1 from hone) ▸ hin⟩
    · rintro (⟨hip, hone, -⟩ | ⟨-, hout, -⟩)
      · exact ⟨hone, hip⟩
      · exact absurd hin hout
  | none =>
    have hout := Table.get_eq_none_iff.1 hit
    refine ⟨setProfileId 1 _, by simp only [hit, Except.map]; rfl, rfl, ?_⟩
    rw [chosen_create]
    refine or_congr_right ?_
    constructor
    · rintro ⟨hseq, hs⟩
      exact Or.inr ⟨hs, hout, hseq⟩
    · rintro (⟨-, hone, hin⟩ | ⟨hs, -, hseq⟩)
      · exact absurd (hone ▸ hin) hout
      · exact ⟨hseq, hs⟩

end

/-! ## Runs -/

/-- `onCreate` with the server of the last start, and a choice in the list of servers. -/
inductive Event
  | create (bestServiceData : SafeLocation)
  | choose (safeLocation : SafeLocation)

def Event.location : Event → SafeLocation
  | .create loc => loc
  | .choose loc => loc

/-- The activity, from a fresh install on. -/
def machine (loc : SafeLocation) : Machine (World Choice) Event where
  init := ⟨Table.empty, [], ⟨0, loc⟩⟩
  step w e :=
    match e with
    | .create loc => (initConnectionServer { w with extra := { w.extra with bestServiceData := loc } }).toOption
    | .choose loc => (updateServer w loc).toOption

/-- A server is chosen after the activity was created, and every server has an address. -/
def Started (w : World Choice) (e : Event) : Prop :=
  e.location.Complete ∧ e.location.bbIp.isSome ∧
    match e with
    | .create _ => True
    | .choose _ => w.extra.profileId = 1

/-- There is nothing yet, or row 1 is the current one and has the server that is shown. -/
def Settled (w : World Choice) : Prop :=
  w.table.seq = 0 ∧ w.extra.profileId = 0 ∧ w.table.rows = [] ∨
    w.extra.profileId = 1 ∧ Chosen w w.extra.bestServiceData

theorem Settled.one_mem {w : World Choice} (h : Settled w) (hid : w.extra.profileId = 1) : 1 ∈ w.table.ids := by
  rcases h with ⟨-, hzero, -⟩ | ⟨-, p, hp, -⟩
  · omega
  · obtain ⟨hmem, hpid⟩ := Table.get_eq_some_iff.1 hp
    rw [hid] at hpid
    exact Table.mem_ids.2 ⟨p, hmem, hpid⟩

theorem settled_step {loc : SafeLocation} {w w' : World Choice} {e : Event} (hs : Settled w) (hok : Started w e)
    (h : (machine loc).step w e = some w') : Settled w' := by
  obtain ⟨hcomplete, hip, hstarted⟩ := hok
  cases e with
  | create shown =>
    obtain ⟨w₁, hw₁, hextra, hiff⟩ := initConnectionServer_iff
      (w := { w with extra := { w.extra with bestServiceData := shown } }) hcomplete
    have hstep : (initConnectionServer { w with extra := { w.extra with bestServiceData := shown } }).toOption =
        some w' := h
    rw [hw₁] at hstep
    cases hstep
    refine Or.inr ⟨by rw [hextra], ?_⟩
    rw [hextra]
    refine hiff.2 (Or.inr ⟨hip, ?_⟩)
    rcases hs with ⟨hseq, hzero, hrows⟩ | ⟨hone, hchosen⟩
    · refine Or.inr ⟨?_, hseq⟩
      show w.extra.profileId ∉ w.table.rows.map Profile.id
      rw [hrows]
      exact List.not_mem_nil
    · have hmem : 1 ∈ w.table.ids := Settled.one_mem (Or.inr ⟨hone, hchosen⟩) hone
      exact Or.inl ⟨hone, hmem⟩
  | choose server =>
    obtain ⟨w₁, hw₁, hextra, hiff⟩ := updateServer_iff (w := w) hcomplete
    have hstep : (updateServer w server).toOption = some w' := h
    simp only [Event.location] at hw₁
    rw [hw₁] at hstep
    cases hstep
    refine Or.inr ⟨by rw [hextra], ?_⟩
    rw [hextra]
    exact hiff.2 (Or.inr (Or.inl ⟨hip, hstarted, hs.one_mem hstarted⟩))

/-- **After a fresh install the chosen server is always the one that will be used.** -/
theorem reach_chosen {loc : SafeLocation} {w : World Choice} (h : (machine loc).Reach Started w) :
    w.extra.profileId = 1 → Chosen w w.extra.bestServiceData := by
  have hsettled : Settled w := by
    refine h.inv ?_ fun s e s' hs hok hstep => settled_step hs hok hstep
    exact Or.inl ⟨rfl, rfl, rfl⟩
  intro hid
  rcases hsettled with ⟨-, hzero, -⟩ | ⟨-, hchosen⟩
  · omega
  · exact hchosen

end MainActivity

end BlackButton
