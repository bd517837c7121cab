import BlackButton.Database.Fallback
import BlackButton.Preference.Port

/-!
# What `parseJson` hands to its callback (`database/Profile.kt`)

Gson reads the port of a server, and `tryParse` checks it against 0 only: the upper end
of the range that `deserialize` enforces (`inRange_parsePort`) is not looked at.

* `handed_sub`, `handed_mute`: the profiles that are handed over, at most and at least.
* `outcome_entries`: what becomes of the objects of a document that describe a server
  (`servers`).
* `usable_document_iff`: **the profiles can be used** exactly if their objects name a
  port in the range.
-/

namespace BlackButton

open Text

/-- The ports that a server can have. -/
def PortInRange (port : ℤ) : Prop := 1 ≤ port ∧ port ≤ 65535

/-- `deserialize` stores no other port. -/
theorem inRange_parsePort (str : Option Str) : PortInRange (parsePort str 8388 1) := by
  rcases DataStore.parsePort_cases str 8388 1 with h | h
  · rw [h]
    exact ⟨by omega, by omega⟩
  · exact h

/-- A profile that the configuration of `sslocal` can be generated from. -/
structure Profile.Usable (p : Profile) : Prop where
  host : p.host ≠ []
  port : PortInRange p.remotePort

/-! ## What the callback is handed -/

namespace JsonParser

open Json

section Handed

variable {τ : Type} (create : World τ → Profile → World τ × ℤ)

/-- The callback `create`, and a record of what it is handed. -/
def recording (w : World (τ × List Profile)) (p : Profile) : World (τ × List Profile) × ℤ :=
  let s := create ⟨w.table, w.objects, w.extra.1⟩ p
  (⟨s.1.table, s.1.objects, (s.1.extra, w.extra.2 ++ [p])⟩, s.2)

/-- Nothing was handed over. -/
def unrecorded (w : World τ) : World (τ × List Profile) := ⟨w.table, w.objects, (w.extra, [])⟩

/-- The profiles that `parseJson` hands to `create`. -/
def handed (H : HashOrder) (feature : Option Profile) (json : Json) (w : World τ) : List Profile :=
  (parseJson (recording create) H feature json (unrecorded w)).1.extra.2

/-- The world and the map after the loop of `parseJson`. -/
def afterLoop (es : List (Profile × Option Profile)) (w : World τ) :
    World (τ × List Profile) × List (Profile × Profile) :=
  (es.map Prod.fst).foldl (createNext (recording create)) (unrecorded w, fallbacksOf es)

/-- One turn of the loop of `parseJson` hands one profile over, and keeps no other fallbacks. -/
theorem createNext_recording (w : World (τ × List Profile)) (map : List (Profile × Profile)) (p : Profile) :
    (createNext (recording create) (w, map) p).1 = (recording create w p).1 ∧
      ∀ x ∈ (createNext (recording create) (w, map) p).2, ∃ y ∈ map, y.2 = x.2 := by
  have hremove : ∀ x ∈ Assoc.remove map p, ∃ y ∈ map, y.2 = x.2 :=
    fun x hx => ⟨x, List.mem_of_mem_filter hx, rfl⟩
  unfold createNext
  simp only
  cases hget : Assoc.get map p with
  | none => exact ⟨rfl, hremove⟩
  | some f =>
    refine ⟨rfl, fun x hx => ?_⟩
    rcases Assoc.mem_put hx with hx | rfl
    · exact hremove x hx
    · exact ⟨_, Assoc.mem_of_get hget, rfl⟩

theorem createAll_recording (ps : List Profile) : ∀ (w : World (τ × List Profile)) (map : List (Profile × Profile)),
    (ps.foldl (createNext (recording create)) (w, map)).1.extra.2 = w.extra.2 ++ ps ∧
      ∀ x ∈ (ps.foldl (createNext (recording create)) (w, map)).2, ∃ y ∈ map, y.2 = x.2 := by
  induction ps with
  | nil => exact fun w map => ⟨(List.append_nil _).symm, fun x hx => ⟨x, hx, rfl⟩⟩
  | cons p ps ih =>
    intro w map
    obtain ⟨hworld, hvalues⟩ := createNext_recording create w map p
    obtain ⟨hlog, hrest⟩ := ih (createNext (recording create) (w, map) p).1 (createNext (recording create) (w, map) p).2
    refine ⟨?_, fun x hx => ?_⟩
    · rw [List.foldl_cons, hlog, hworld]
      simp [recording]
    · obtain ⟨y, hy, hxy⟩ := hrest x hx
      obtain ⟨z, hz, hyz⟩ := hvalues y hy
      exact ⟨z, hz, hyz.trans hxy⟩

theorem extra_updateProfile {σ : Type} (w : World σ) (p : Profile) : (w.updateProfile p).1.extra = w.extra := by
  unfold World.updateProfile
  split <;> rfl

/-- A fallback is handed over if no profile of the table matches it. -/
theorem link_recording (profiles : List Profile) (w : World (τ × List Profile)) (e : Profile × Profile) :
    (link (recording create) profiles w e).1.extra.2 =
      w.extra.2 ++ if profiles.any (matching e.2) then [] else [e.2] := by
  unfold link
  rw [extra_updateProfile]
  unfold target
  cases hfind : profiles.find? (matching e.2) with
  | none =>
    have hany : profiles.any (matching e.2) = false := by
      rw [List.any_eq_false]
      exact List.find?_eq_none.1 hfind
    simp [World.setObject, recording, hany]
  | some m =>
    have hany : profiles.any (matching e.2) = true :=
      List.any_eq_true.2 ⟨m, List.mem_of_find?_eq_some hfind, List.find?_some hfind⟩
    simp [World.setObject, hany]

theorem linkAll_recording {profiles : List Profile} (es : List (Profile × Profile)) :
    ∀ {w : World (τ × List Profile)}, ∀ p ∈ (linkAll (recording create) profiles es w).1.extra.2,
      p ∈ w.extra.2 ∨ ∃ e ∈ es, e.2 = p := by
  induction es with
  | nil => exact fun p hp => Or.inl hp
  | cons e es ih =>
    intro w p hp
    have hlink := link_recording create profiles w e
    rw [linkAll] at hp
    generalize hs : link (recording create) profiles w e = s at hp hlink
    have hstep : ∀ q ∈ s.1.extra.2, q ∈ w.extra.2 ∨ ∃ e' ∈ e :: es, e'.2 = q := by
      intro q hq
      rw [hlink, List.mem_append] at hq
      rcases hq with hq | hq
      · exact Or.inl hq
      · split at hq
        · cases hq
        · rw [List.mem_singleton.1 hq]
          exact Or.inr ⟨e, List.mem_cons_self, rfl⟩
    obtain ⟨w', fault⟩ := s
    cases fault with
    | some f => exact hstep p hp
    | none =>
      rcases ih p hp with hp | ⟨e', he', rfl⟩
      · exact hstep p hp
      · exact Or.inr ⟨e', List.mem_cons_of_mem _ he', rfl⟩

variable {H : HashOrder} {feature : Option Profile} {json : Json}

theorem handed_error {f : Fault} (h : entries H feature json = .error f) (w : World τ) :
    handed create H feature json w = [] := by
  unfold handed
  rw [parseJson_error _ h]
  rfl

theorem handed_ok {es : List (Profile × Option Profile)} (h : entries H feature json = .ok es) (w : World τ) :
    handed create H feature json w =
      (linkAll (recording create) (afterLoop create es w).1.table.rows (afterLoop create es w).2
        (afterLoop create es w).1).1.extra.2 := by
  unfold handed
  rw [parseJson_ok _ h]
  rfl

/-- **No other profiles are handed over** than those of the entries and the fallbacks that were kept. -/
theorem handed_sub {es : List (Profile × Option Profile)} (h : entries H feature json = .ok es) (w : World τ) :
    ∀ p ∈ handed create H feature json w, p ∈ es.map Prod.fst ∨ ∃ x ∈ fallbacksOf es, x.2 = p := by
  intro p hp
  rw [handed_ok create h] at hp
  obtain ⟨hlog, hvalues⟩ := createAll_recording create (es.map Prod.fst) (unrecorded w) (fallbacksOf es)
  rcases linkAll_recording create _ p hp with hp | ⟨e, he, rfl⟩
  · have hlog : (afterLoop create es w).1.extra.2 = es.map Prod.fst := hlog
    rw [hlog] at hp
    exact Or.inl hp
  · exact Or.inr (hvalues e he)

end Handed

/-! A callback that stores nothing, on a table whose row matches no fallback, is handed everything. -/

section Mute

/-- The callback returns the profile as it is, without an id. -/
def mute (w : World Unit) (_ : Profile) : World Unit × ℤ := (w, 0)

/-- A table with a profile that has a plugin. -/
def plugged : World Unit := ⟨⟨[{ plugin := some ['x'] }], 0, by simp, by simp⟩, [], ()⟩

variable {w : World (Unit × List Profile)}

theorem createNext_mute (hw : w.objects = []) (map : List (Profile × Profile)) (p : Profile) :
    (∀ q, Assoc.get (createNext (recording mute) (w, map) p).2 q = Assoc.get map q) ∧
      ∀ x ∈ (createNext (recording mute) (w, map) p).2, x ∈ map := by
  have hobject : (recording mute w p).1.object (recording mute w p).2 = none := by
    simp [World.object, recording, mute, hw]
  have hremove : ∀ x ∈ Assoc.remove map p, x ∈ map := fun x hx => List.mem_of_mem_filter hx
  unfold createNext
  simp only [hobject, Option.getD_none]
  cases hget : Assoc.get map p with
  | none =>
    refine ⟨fun q => ?_, hremove⟩
    rw [Assoc.get_remove]
    split
    · rename_i hq
      rw [← hq, hget]
    · rfl
  | some f =>
    refine ⟨fun q => ?_, fun x hx => ?_⟩
    · rw [Assoc.get_put, Assoc.get_remove]
      split
      · rename_i hq
        rw [← hq, hget]
      · rfl
    · rcases Assoc.mem_put hx with hx | rfl
      · exact hremove x hx
      · exact Assoc.mem_of_get hget

theorem createAll_mute (ps : List Profile) : ∀ {w : World (Unit × List Profile)} (map : List (Profile × Profile)),
    w.objects = [] → (ps.foldl (createNext (recording mute)) (w, map)).1.objects = [] ∧
      (ps.foldl (createNext (recording mute)) (w, map)).1.table = w.table ∧
      (∀ q, Assoc.get (ps.foldl (createNext (recording mute)) (w, map)).2 q = Assoc.get map q) ∧
      ∀ x ∈ (ps.foldl (createNext (recording mute)) (w, map)).2, x ∈ map := by
  induction ps with
  | nil => exact fun map hw => ⟨hw, rfl, fun q => rfl, fun x hx => hx⟩
  | cons p ps ih =>
    intro w map hw
    obtain ⟨hget, hsub⟩ := createNext_mute hw map p
    have hworld := (createNext_recording mute w map p).1
    obtain ⟨hobjects, htable, hget', hsub'⟩ := ih (createNext (recording mute) (w, map) p).2
      (w := (createNext (recording mute) (w, map) p).1) (by rw [hworld]; exact hw)
    exact ⟨hobjects, htable.trans (by rw [hworld]; rfl), fun q => (hget' q).trans (hget q), fun x hx => hsub x (hsub' x hx)⟩

theorem linkAll_mute {profiles : List Profile} (es : List (Profile × Profile)) :
    ∀ {w : World (Unit × List Profile)}, w.objects = [] → 0 ∈ w.table.ids →
      (∀ e ∈ es, e.1.id = 0 ∧ profiles.any (matching e.2) = false) →
      (linkAll (recording mute) profiles es w).1.extra.2 = w.extra.2 ++ es.map Prod.snd := by
  induction es with
  | nil => exact fun _ _ _ => (List.append_nil _).symm
  | cons e es ih =>
    intro w hobjects hid hes
    obtain ⟨⟨hzero, hany⟩, hrest⟩ := List.forall_mem_cons.1 hes
    have hlog := link_recording mute profiles w e
    have hstep : ∃ w', link (recording mute) profiles w e = (w', none) ∧ w'.objects = [] ∧ 0 ∈ w'.table.ids := by
      have hfind : profiles.find? (matching e.2) = none := List.find?_eq_none.2 (List.any_eq_false.1 hany)
      have hobject : World.object (⟨w.table, w.objects, (w.extra.1, w.extra.2 ++ [e.2])⟩ :
          World (Unit × List Profile)) e.1.id = none := by
        simp [World.object, hobjects]
      unfold link target
      simp only [hfind, recording, mute, hobject, Option.getD_none]
      unfold World.updateProfile World.setObject
      rw [if_pos (by rwa [Profile.id_withFallback, hzero])]
      exact ⟨_, rfl, by rw [hobjects]; rfl, by rwa [Table.ids_update]⟩
    obtain ⟨w', hlink, hobjects', hid'⟩ := hstep
    rw [hlink, hany] at hlog
    rw [linkAll, hlink]
    simp only
    rw [ih hobjects' hid' hrest, show w'.extra.2 = _ from hlog]
    simp

theorem matching_plugged (f : Profile) : plugged.table.rows.any (matching f) = false := by
  simp [plugged, matching, Profile.noPlugin]

variable {H : HashOrder} {feature : Option Profile} {json : Json}

theorem afterLoop_mute (es : List (Profile × Option Profile)) :
    (afterLoop mute es plugged).1.objects = [] ∧ (afterLoop mute es plugged).1.table = plugged.table ∧
      (afterLoop mute es plugged).1.extra.2 = es.map Prod.fst ∧
      (∀ q, Assoc.get (afterLoop mute es plugged).2 q = Assoc.get (fallbacksOf es) q) ∧
      ∀ x ∈ (afterLoop mute es plugged).2, x ∈ fallbacksOf es := by
  obtain ⟨hobjects, htable, hget, hsub⟩ := createAll_mute (es.map Prod.fst) (fallbacksOf es)
    (show (unrecorded plugged).objects = [] from rfl)
  have hlog := (createAll_recording mute (es.map Prod.fst) (unrecorded plugged) (fallbacksOf es)).1
  exact ⟨hobjects, htable, hlog, hget, hsub⟩

/-- **Every profile is handed over** to this callback, and every fallback that was kept. -/
theorem handed_mute {es : List (Profile × Option Profile)} (h : entries H feature json = .ok es) :
    (∀ p ∈ es.map Prod.fst, p ∈ handed mute H feature json plugged) ∧
      ∀ p f, Assoc.get (fallbacksOf es) p = some f → f ∈ handed mute H feature json plugged := by
  obtain ⟨hobjects, htable, hlog, hget, hsub⟩ := afterLoop_mute es
  have hkeys : ∀ x ∈ (afterLoop mute es plugged).2,
      x.1.id = 0 ∧ (afterLoop mute es plugged).1.table.rows.any (matching x.2) = false := by
    intro x hx
    rw [htable]
    exact ⟨(new_entries h _ (mem_fallbackMap (hsub x hx))).1.id, matching_plugged x.2⟩
  have hid : 0 ∈ (afterLoop mute es plugged).1.table.ids := by
    rw [htable]
    decide
  have hall : handed mute H feature json plugged =
      es.map Prod.fst ++ (afterLoop mute es plugged).2.map Prod.snd := by
    rw [handed_ok mute h, linkAll_mute _ hobjects hid hkeys, hlog]
  rw [hall]
  refine ⟨fun p hp => List.mem_append_left _ hp, fun p f hf => List.mem_append_right _ ?_⟩
  rw [← hget] at hf
  exact List.mem_map.2 ⟨_, Assoc.mem_of_get hf, rfl⟩

end Mute

/-! ## The objects of a document -/

/-- `json["server"]` and `json["server_port"]`, as `tryParse` reads them. -/
def serverHost (json : Members) : Str := (optString (field json "server")).getD []

def serverPort (json : Members) : ℤ := (optInt (field json "server_port")).getD 0

/-- The object describes a server. -/
def IsServer (json : Members) : Prop :=
  serverHost json ≠ [] ∧ 0 < serverPort json ∧ (optString (field json "password")).getD [] ≠ [] ∧
    (optString (field json "method")).getD [] ≠ []

instance (json : Members) : Decidable (IsServer json) := inferInstanceAs (Decidable (_ ∧ _ ∧ _ ∧ _))

/-- The object in `udp_fallback`, if it describes a server. -/
def fallbackOf (json : Members) : Option Members :=
  match field json "udp_fallback" with
  | some (.obj fallback) => if IsServer fallback then some fallback else none
  | _ => none

mutual

/-- The objects of a document that describe a server, in the order of `process`: they are not searched
for more. -/
def servers : Json → List Members
  | .obj members => if IsServer members then [members] else serversMembers members
  | .arr elems => serversElems elems
  | _ => []

def serversElems : List Json → List Members
  | [] => []
  | j :: js => servers j ++ serversElems js

def serversMembers : List (Str × Json) → List Members
  | [] => []
  | m :: ms => servers m.2 ++ serversMembers ms

end

theorem fallbackOf_eq_some_iff {json fallback : Members} :
    fallbackOf json = some fallback ↔ field json "udp_fallback" = some (.obj fallback) ∧ IsServer fallback := by
  unfold fallbackOf
  split
  · rename_i fb hfield
    rw [hfield]
    by_cases hserver : IsServer fb
    · simp only [if_pos hserver, Option.some.injEq, Json.obj.injEq]
      constructor
      · rintro rfl
        exact ⟨rfl, hserver⟩
      · exact And.left
    · simp only [if_neg hserver, Option.some.injEq, Json.obj.injEq]
      constructor
      · rintro ⟨⟩
      · rintro ⟨rfl, hfallback⟩
        exact absurd hfallback hserver
  · rename_i hfield
    constructor
    · rintro ⟨⟩
    · rintro ⟨hobj, -⟩
      exact absurd hobj (hfield fallback)

section Parse

variable (H : HashOrder) (feature : Option Profile)

/-- The plugin options of the object and of its fallback have no control characters. -/
def Readable (json : Members) : Prop :=
  (∃ plugin, pluginOf H json = .ok plugin) ∧
    ∀ fallback, fallbackOf json = some fallback → ∃ plugin, pluginOf H fallback = .ok plugin

/-- The profile of an object has its host and port. -/
structure ServerOf (json : Members) (p : Profile) : Prop where
  host : p.host = serverHost json
  port : p.remotePort = serverPort json
  isServer : IsServer json

/-- What `tryParse` makes of an object. -/
structure EntryOf (json : Members) (e : Profile × Option Profile) : Prop where
  parse : parseProfile H feature json false = .ok (some e.1)
  main : ServerOf json e.1
  fallback : Option.Rel ServerOf (fallbackOf json) e.2

theorem ServerOf.mainSettings {json : Members} {p : Profile} (h : ServerOf json p) (json' : Members) :
    ServerOf json (mainSettings json' p) := by
  unfold JsonParser.mainSettings
  simp only
  split
  · exact ⟨h.host, h.port, h.isServer⟩
  · exact ⟨h.host, h.port, h.isServer⟩

theorem not_isServer {json : Members} : ¬IsServer json ↔ serverHost json = [] ∨ serverPort json ≤ 0 ∨
    (optString (field json "password")).getD [] = [] ∨ (optString (field json "method")).getD [] = [] := by
  unfold IsServer
  rw [not_and_or, not_and_or, not_and_or, not_not, not_not, not_not, not_lt]

theorem parseProfile_none {json : Members} (h : ¬IsServer json) (fallback : Bool) :
    parseProfile H feature json fallback = .ok none := by
  unfold parseProfile
  exact if_pos (not_isServer.1 h)

theorem parseProfile_server {json : Members} (h : IsServer json) (fallback : Bool) :
    (∀ plugin, pluginOf H json = .ok plugin →
      ∃ p, parseProfile H feature json fallback = .ok (some p) ∧ ServerOf json p) ∧
    ∀ f, pluginOf H json = .error f → parseProfile H feature json fallback = .error f := by
  have hcheck : ¬((optString (field json "server")).getD [] = [] ∨ (optInt (field json "server_port")).getD 0 ≤ 0 ∨
      (optString (field json "password")).getD [] = [] ∨ (optString (field json "method")).getD [] = []) :=
    fun hnot => not_isServer.2 hnot h
  unfold parseProfile
  simp only [if_neg hcheck]
  constructor
  · intro plugin hplugin
    simp only [hplugin, bind, Except.bind]
    refine ⟨_, rfl, ?_⟩
    cases fallback with
    | true => cases feature <;> exact ⟨rfl, rfl, h⟩
    | false =>
      apply ServerOf.mainSettings
      cases feature <;> exact ⟨rfl, rfl, h⟩
  · intro f hf
    rw [hf]
    rfl

theorem tryParse_none {json : Members} (h : ¬IsServer json) : tryParse H feature json = .ok none := by
  unfold tryParse
  rw [parseProfile_none H feature h]
  rfl

/-- The end of `tryParse`. -/
theorem tryParse_of_main {json : Members} {p : Profile} (h : parseProfile H feature json false = .ok (some p)) :
    (fallbackOf json = none → tryParse H feature json = .ok (some (p, none))) ∧
      ∀ fallback, fallbackOf json = some fallback →
        tryParse H feature json = (parseProfile H feature fallback true).map fun q => some (p, q) := by
  unfold tryParse
  rw [h]
  simp only [bind, Except.bind]
  constructor
  · intro hnone
    split
    · rename_i fb hfield
      have hserver : ¬IsServer fb := by
        intro hserver
        have hsome := fallbackOf_eq_some_iff.2 ⟨hfield, hserver⟩
        rw [hnone] at hsome
        cases hsome
      rw [parseProfile_none H feature hserver]
    · rfl
  · intro fallback hsome
    rw [(fallbackOf_eq_some_iff.1 hsome).1]
    simp only
    cases parseProfile H feature fallback true <;> rfl

/-- **An object that describes a server** is read, unless its plugin options are malformed. -/
theorem tryParse_server {json : Members} (h : IsServer json) :
    (Readable H json → ∃ e, tryParse H feature json = .ok (some e) ∧ EntryOf H feature json e) ∧
      (¬Readable H json → ∃ f, tryParse H feature json = .error f) := by
  obtain ⟨hread, herror⟩ := parseProfile_server H feature h false
  cases hplugin : pluginOf H json with
  | error f =>
    refine ⟨?_, fun _ => ⟨f, ?_⟩⟩
    · rintro ⟨⟨plugin, hok⟩, -⟩
      rw [hplugin] at hok
      cases hok
    · unfold tryParse
      rw [herror f hplugin]
      rfl
  | ok plugin =>
    obtain ⟨p, hp, hserver⟩ := hread plugin hplugin
    obtain ⟨hnone, hsome⟩ := tryParse_of_main H feature hp
    cases hfallback : fallbackOf json with
    | none =>
      refine ⟨fun _ => ⟨_, hnone hfallback, hp, hserver, by rw [hfallback]; exact .none⟩, fun hnot => ?_⟩
      refine absurd ⟨⟨plugin, hplugin⟩, fun fallback hfb => ?_⟩ hnot
      rw [hfallback] at hfb
      cases hfb
    | some fallback =>
      obtain ⟨hreadf, herrorf⟩ := parseProfile_server H feature (fallbackOf_eq_some_iff.1 hfallback).2 true
      rw [hsome fallback hfallback]
      cases hpluginf : pluginOf H fallback with
      | error f =>
        refine ⟨fun hr => ?_, fun _ => ⟨f, by rw [herrorf f hpluginf]; rfl⟩⟩
        obtain ⟨plugin', hok⟩ := hr.2 fallback hfallback
        rw [hpluginf] at hok
        cases hok
      | ok plugin' =>
        obtain ⟨q, hq, hserverf⟩ := hreadf plugin' hpluginf
        refine ⟨fun _ => ⟨(p, some q), by rw [hq]; rfl, hp, hserver, by rw [hfallback]; exact .some hserverf⟩, ?_⟩
        intro hnot
        refine absurd ⟨⟨plugin, hplugin⟩, fun fb hfb => ?_⟩ hnot
        rw [hfallback] at hfb
        cases hfb
        exact ⟨plugin', hpluginf⟩

/-- What `process` makes of the objects `ms`: it rejects the document if the plugin options of one
are malformed. -/
def Outcome (ms : List Members) : Except Fault (List (Profile × Option Profile)) → Prop
  | .ok es => List.Forall₂ (fun m e => Readable H m ∧ EntryOf H feature m e) ms es
  | .error _ => ∃ m ∈ ms, ¬Readable H m

theorem Outcome.append {ms ms' : List Members} {es : List (Profile × Option Profile)}
    {r : Except Fault (List (Profile × Option Profile))} (h : Outcome H feature ms (.ok es))
    (h' : Outcome H feature ms' r) : Outcome H feature (ms ++ ms') (r.map (es ++ ·)) := by
  cases r with
  | ok es' => exact List.rel_append h h'
  | error f =>
    obtain ⟨m, hm, hnot⟩ := h'
    exact ⟨m, List.mem_append_right _ hm, hnot⟩

theorem Outcome.error {ms : List Members} {f : Fault} (h : Outcome H feature ms (.error f)) (ms' : List Members)
    (f' : Fault) : Outcome H feature (ms ++ ms') (.error f') := by
  obtain ⟨m, hm, hnot⟩ := h
  exact ⟨m, List.mem_append_left _ hm, hnot⟩

mutual

theorem outcome_entries : ∀ j : Json, Outcome H feature (servers j) (entries H feature j)
  | .obj members => by
    rw [servers, entries]
    by_cases hserver : IsServer members
    · rw [if_pos hserver]
      obtain ⟨hok, herror⟩ := tryParse_server H feature hserver
      by_cases hread : Readable H members
      · obtain ⟨e, he, hentry⟩ := hok hread
        rw [he]
        exact .cons ⟨hread, hentry⟩ .nil
      · obtain ⟨f, hf⟩ := herror hread
        rw [hf]
        exact ⟨members, List.mem_singleton_self _, hread⟩
    · rw [if_neg hserver, tryParse_none H feature hserver]
      exact outcome_entriesMembers members
  | .arr elems => by
    rw [servers, entries]
    exact outcome_entriesElems elems
  | .null => .nil
  | .bool b => .nil
  | .num t i => .nil
  | .str t => .nil

theorem outcome_entriesElems : ∀ js : List Json, Outcome H feature (serversElems js) (entriesElems H feature js)
  | [] => .nil
  | j :: js => by
    have hj := outcome_entries j
    rw [serversElems, entriesElems]
    cases hentries : entries H feature j with
    | error f =>
      rw [hentries] at hj
      exact hj.error H feature _ f
    | ok es =>
      rw [hentries] at hj
      exact hj.append H feature (outcome_entriesElems js)

theorem outcome_entriesMembers : ∀ ms : List (Str × Json),
    Outcome H feature (serversMembers ms) (entriesMembers H feature ms)
  | [] => .nil
  | (k, j) :: ms => by
    have hj := outcome_entries j
    rw [serversMembers, entriesMembers]
    cases hentries : entries H feature j with
    | error f =>
      rw [hentries] at hj
      exact hj.error H feature _ f
    | ok es =>
      rw [hentries] at hj
      exact hj.append H feature (outcome_entriesMembers ms)

end

/-- Both objects describe the same profile. -/
def SameSettings (json json' : Members) : Prop :=
  parseProfile H feature json' false = parseProfile H feature json false

/-- Every server of the document has a port in the range, unless the document is rejected; and so has
every fallback, unless a later fallback of an equal server replaces it. -/
def DocumentInRange (json : Json) : Prop :=
  (∀ m ∈ servers json, Readable H m) →
    (∀ m ∈ servers json, serverPort m ≤ 65535) ∧
    ∀ before m after fallback, servers json = before ++ m :: after → fallbackOf m = some fallback →
      (∀ m' ∈ after, SameSettings H feature m m' → fallbackOf m' = none) → serverPort fallback ≤ 65535

/-- A profile with the server of an object can be used if its port is not too large. -/
theorem ServerOf.usable_iff_le {json : Members} {p : Profile} (h : ServerOf json p) :
    p.Usable ↔ serverPort json ≤ 65535 := by
  obtain ⟨hhost, hport, -, -⟩ := h.isServer
  constructor
  · intro husable
    rw [← h.port]
    exact husable.port.2
  · intro hle
    refine ⟨by rw [h.host]; exact hhost, ?_⟩
    rw [h.port]
    exact ⟨hport, hle⟩

/-- A fallback of an object with its profile. -/
theorem EntryOf.fallback_eq_some {json : Members} {e : Profile × Option Profile} (h : EntryOf H feature json e) :
    (∀ fallback, fallbackOf json = some fallback → ∃ f, e.2 = some f ∧ ServerOf fallback f) ∧
      ∀ f, e.2 = some f → ∃ fallback, fallbackOf json = some fallback ∧ ServerOf fallback f := by
  have hrel := h.fallback
  constructor
  · intro fallback hfallback
    rw [hfallback] at hrel
    cases he : e.2 with
    | none => rw [he] at hrel; cases hrel
    | some f => rw [he] at hrel; cases hrel with | some hserver => exact ⟨f, rfl, hserver⟩
  · intro f hf
    rw [hf] at hrel
    cases hfallback : fallbackOf json with
    | none => rw [hfallback] at hrel; cases hrel
    | some fallback => rw [hfallback] at hrel; cases hrel with | some hserver => exact ⟨fallback, rfl, hserver⟩

/-- An object without a fallback has none with its profile. -/
theorem EntryOf.fallback_eq_none {json : Members} {e : Profile × Option Profile} (h : EntryOf H feature json e) :
    fallbackOf json = none ↔ e.2 = none := by
  obtain ⟨hobject, hprofile⟩ := h.fallback_eq_some
  constructor
  · intro hnone
    rw [Option.eq_none_iff_forall_ne_some]
    intro f hf
    obtain ⟨fallback, hfallback, -⟩ := hprofile f hf
    rw [hnone] at hfallback
    cases hfallback
  · intro hnone
    rw [Option.eq_none_iff_forall_ne_some]
    intro fallback hfallback
    obtain ⟨f, hf, -⟩ := hobject fallback hfallback
    rw [hnone] at hf
    cases hf

/-- Entries of the same profile are those of equal servers. -/
theorem EntryOf.same {json json' : Members} {e e' : Profile × Option Profile} (h : EntryOf H feature json e)
    (h' : EntryOf H feature json' e') : e'.1 = e.1 ↔ SameSettings H feature json json' := by
  unfold SameSettings
  rw [h.parse, h'.parse]
  simp

/-- The fallback of an object is kept if none of an equal server comes later, -/
theorem kept_of_object {ms : List Members} {es : List (Profile × Option Profile)}
    (h : List.Forall₂ (EntryOf H feature) ms es) {before after : List Members} {m fallback : Members}
    (hsplit : ms = before ++ m :: after) (hfallback : fallbackOf m = some fallback)
    (hlater : ∀ m' ∈ after, SameSettings H feature m m' → fallbackOf m' = none) :
    ∃ p f, Assoc.get (fallbacksOf es) p = some f ∧ ServerOf fallback f := by
  obtain ⟨before', e, after', hes, hentry, hafter⟩ := split_of_forall₂ h hsplit
  obtain ⟨f, hf, hserver⟩ := (EntryOf.fallback_eq_some H feature hentry).1 fallback hfallback
  refine ⟨e.1, f, get_fallbacksOf_eq_some_iff.2 ⟨before', after', by rw [hes, ← hf], ?_⟩, hserver⟩
  intro e' he' hsame
  obtain ⟨m', hm', hentry'⟩ := (exists_of_forall₂ hafter).2 e' he'
  have hnone := hlater m' hm' ((EntryOf.same H feature hentry hentry').1 hsame)
  exact (EntryOf.fallback_eq_none H feature hentry').1 hnone

/-- and only then. -/
theorem object_of_kept {ms : List Members} {es : List (Profile × Option Profile)}
    (h : List.Forall₂ (EntryOf H feature) ms es) {p f : Profile} (hkept : Assoc.get (fallbacksOf es) p = some f) :
    ∃ before m after fallback, ms = before ++ m :: after ∧ fallbackOf m = some fallback ∧
      (∀ m' ∈ after, SameSettings H feature m m' → fallbackOf m' = none) ∧ ServerOf fallback f := by
  obtain ⟨before', after', hes, hlater⟩ := get_fallbacksOf_eq_some_iff.1 hkept
  obtain ⟨before, m, after, hsplit, hentry, hafter⟩ := split_of_forall₂ h.flip hes
  obtain ⟨fallback, hfallback, hserver⟩ := (EntryOf.fallback_eq_some H feature hentry).2 f rfl
  refine ⟨before, m, after, fallback, hsplit, hfallback, fun m' hm' hsame => ?_, hserver⟩
  obtain ⟨e', he', hentry'⟩ := (exists_of_forall₂ hafter).2 m' hm'
  have hnone := hlater e' he' ((EntryOf.same H feature hentry hentry').2 hsame)
  exact (EntryOf.fallback_eq_none H feature hentry').2 hnone

/-- **The profiles of a document**, for every callback and every table. -/
theorem usable_document_iff (json : Json) :
    (∀ (τ : Type) (create : World τ → Profile → World τ × ℤ) (w : World τ),
      ∀ p ∈ handed create H feature json w, p.Usable) ↔ DocumentInRange H feature json := by
  have houtcome := outcome_entries H feature json
  constructor
  · intro h hread
    cases hentries : entries H feature json with
    | error f =>
      rw [hentries] at houtcome
      obtain ⟨m, hm, hnot⟩ := houtcome
      exact absurd (hread m hm) hnot
    | ok es =>
      rw [hentries] at houtcome
      have hall : List.Forall₂ (EntryOf H feature) (servers json) es := houtcome.imp fun _ _ => And.right
      obtain ⟨hmains, hkept⟩ := handed_mute hentries
      constructor
      · intro m hm
        obtain ⟨e, he, hentry⟩ := (exists_of_forall₂ hall).1 m hm
        exact hentry.main.usable_iff_le.1 (h Unit mute plugged _ (hmains _ (List.mem_map_of_mem he)))
      · intro before m after fallback hsplit hfallback hlater
        obtain ⟨p, f, hget, hserver⟩ := kept_of_object H feature hall hsplit hfallback hlater
        exact hserver.usable_iff_le.1 (h Unit mute plugged _ (hkept p f hget))
  · intro h τ create w p hp
    cases hentries : entries H feature json with
    | error f =>
      rw [handed_error create hentries] at hp
      cases hp
    | ok es =>
      rw [hentries] at houtcome
      have hall : List.Forall₂ (EntryOf H feature) (servers json) es := houtcome.imp fun _ _ => And.right
      have hread : ∀ m ∈ servers json, Readable H m := by
        intro m hm
        obtain ⟨e, -, hm⟩ := (exists_of_forall₂ houtcome).1 m hm
        exact hm.1
      obtain ⟨hports, hfallbacks⟩ := h hread
      rcases handed_sub create hentries w p hp with hp | ⟨x, hx, rfl⟩
      · obtain ⟨e, he, rfl⟩ := List.mem_map.1 hp
        obtain ⟨m, hm, hentry⟩ := (exists_of_forall₂ hall).2 e he
        exact hentry.main.usable_iff_le.2 (hports m hm)
      · have hget := Assoc.get_of_mem (nodup_fallbacksOf es) hx
        obtain ⟨before, m, after, fallback, hsplit, hfallback, hlater, hserver⟩ := object_of_kept H feature hall hget
        exact hserver.usable_iff_le.2 (hfallbacks before m after fallback hsplit hfallback hlater)

end Parse

end JsonParser

end BlackButton
