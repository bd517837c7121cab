import BlackButton.App.Server

/-!
# The list of servers (`ui/servicelist/ServiceListActivity.kt`, `Utils.addTheBestRoute`)

The selection is kept twice: each row has a flag, `checkSafeLocation` refers to a row. The
rows are the servers of the profile data, with a copy of the best one put in front.

* `checked_forEach`, `check_forEach`: what a loop over the rows leaves, in the flags and in
  the reference.
* `selected_getSelectedData`: after a click the clicked row is the only one.
* `selected_iff`: **before the first click it depends on the list**: two servers with the
  current address are both selected.
-/

namespace BlackButton

/-- `ProfileBean.SafeLocation`, with the flags of a row. -/
structure ServerRow extends SafeLocation where
  cheekState : Option Bool := some false
  bestServer : Option Bool := some false
  deriving DecidableEq

/-- `Utils.addTheBestRoute`. -/
def addTheBestRoute (data : ServerRow) : ServerRow where
  bbCountry := data.bbCountry
  bbCity := data.bbCity
  bbIp := data.bbIp
  bbMethod := data.bbMethod
  bbPort := data.bbPort
  bbPwd := data.bbPwd
  cheekState := some true
  bestServer := some true

/-- The variables of `ServiceListActivity`; the reference `checkSafeLocation` is the place of the
row in the list. -/
structure ServiceListActivity where
  safeLocation : List ServerRow
  checkSafeLocation : ℕ

namespace ServiceListActivity

/-- `storageServerData`: `locations` is the list of the profile data, `best` is
`NetworkPing.findTheBestIp()`. -/
def storageServerData (locations : List ServerRow) (best : ServerRow) : ServiceListActivity where
  safeLocation := addTheBestRoute best :: locations
  checkSafeLocation := 0

/-- The rest of a loop over the rows, from place `i` on: every row is flagged with `p`, and the
reference follows the rows that are selected. -/
def flagFrom (p : ℕ → ServerRow → Bool) (i check : ℕ) : List ServerRow → List ServerRow × ℕ
  | [] => ([], check)
  | it :: rows =>
    let it := { it with cheekState := some (p i it) }
    let check := if it.cheekState = some true then i else check
    let rest := flagFrom p (i + 1) check rows
    (it :: rest.1, rest.2)

/-- A loop over all rows. -/
def forEach (p : ℕ → ServerRow → Bool) (s : ServiceListActivity) : ServiceListActivity where
  safeLocation := (flagFrom p 0 s.checkSafeLocation s.safeLocation).1
  checkSafeLocation := (flagFrom p 0 s.checkSafeLocation s.safeLocation).2

/-- `safeLocation[i].cheek_state = b`. -/
def setCheekState (i : ℕ) (b : Bool) (s : ServiceListActivity) : ServiceListActivity :=
  { s with safeLocation := s.safeLocation.modify i fun it => { it with cheekState := some b } }

/-- The selection step of `initRecyclerView`. -/
def initRecyclerView (locations : List ServerRow) (best : ServerRow) (selectIp : Option Str)
    (whetherBestServer : Bool) : ServiceListActivity :=
  let s := storageServerData locations best
  if !whetherBestServer then
    let s := s.forEach fun _ it => it.bbIp == selectIp
    let s := s.setCheekState 0 false
    s.setCheekState s.checkSafeLocation true
  else s

/-- `getSelectedData`. -/
def getSelectedData (s : ServiceListActivity) (position : ℕ) : ServiceListActivity :=
  s.forEach fun index _ => position == index

/-- Row `i` is shown as selected. -/
def Checked (s : ServiceListActivity) (i : ℕ) : Prop :=
  ∃ it, s.safeLocation[i]? = some it ∧ it.cheekState = some true

/-- **Exactly one row is selected**, and it is the row that `checkSafeLocation` refers to. -/
def Selected (s : ServiceListActivity) : Prop := ∀ i, s.Checked i ↔ i = s.checkSafeLocation

/-! ## The loops -/

theorem getElem?_flagFrom (p : ℕ → ServerRow → Bool) (rows : List ServerRow) :
    ∀ i check j : ℕ, (flagFrom p i check rows).1[j]? =
      rows[j]?.map fun it : ServerRow => { it with cheekState := some (p (i + j) it) } := by
  induction rows with
  | nil => exact fun i check j => rfl
  | cons it rows ih =>
    intro i check j
    cases j with
    | zero => rfl
    | succ j =>
      have hplace : i + 1 + j = i + (j + 1) := by omega
      simp only [flagFrom, List.getElem?_cons_succ, ih, hplace]

/-- The reference is left alone if no row is selected, and refers to the last selected row
otherwise. -/
theorem check_flagFrom (p : ℕ → ServerRow → Bool) (rows : List ServerRow) :
    ∀ i check, ((flagFrom p i check rows).2 = check ∧ ∀ j it, rows[j]? = some it → p (i + j) it = false) ∨
      ∃ j it, (flagFrom p i check rows).2 = i + j ∧ rows[j]? = some it ∧ p (i + j) it = true ∧
        ∀ k it, rows[k]? = some it → p (i + k) it = true → k ≤ j := by
  induction rows with
  | nil => exact fun i check => Or.inl ⟨rfl, fun j it h => by simp at h⟩
  | cons it rows ih =>
    intro i check
    have hstep : (flagFrom p i check (it :: rows)).2 =
        (flagFrom p (i + 1) (if p i it = true then i else check) rows).2 := by
      simp [flagFrom]
    have hplace : ∀ j, i + 1 + j = i + (j + 1) := fun j => by omega
    simp only [hstep]
    rcases ih (i + 1) (if p i it = true then i else check) with ⟨hcheck, hnone⟩ | ⟨j, it', hcheck, hit, hp, hlast⟩
    · rw [hcheck]
      by_cases hfirst : p i it = true
      · rw [if_pos hfirst]
        refine Or.inr ⟨0, it, rfl, rfl, hfirst, fun k it' h hp => ?_⟩
        cases k with
        | zero => exact Nat.le_refl 0
        | succ k =>
          rw [← hplace, hnone k it' h] at hp
          cases hp
      · rw [if_neg hfirst]
        refine Or.inl ⟨rfl, fun j it' h => ?_⟩
        cases j with
        | zero =>
          have heq : it = it' := Option.some.inj h
          rw [← heq]
          simpa using hfirst
        | succ j =>
          rw [← hplace]
          exact hnone j it' h
    · rw [hplace] at hcheck hp
      refine Or.inr ⟨j + 1, it', hcheck, hit, hp, fun k it'' h hpk => ?_⟩
      cases k with
      | zero => exact Nat.zero_le _
      | succ k =>
        rw [← hplace] at hpk
        exact Nat.succ_le_succ (hlast k it'' h hpk)

theorem checked_forEach (p : ℕ → ServerRow → Bool) (s : ServiceListActivity) (i : ℕ) :
    (s.forEach p).Checked i ↔ ∃ it, s.safeLocation[i]? = some it ∧ p i it = true := by
  simp only [Checked, forEach, getElem?_flagFrom, Nat.zero_add, Option.map_eq_some_iff]
  constructor
  · rintro ⟨_, ⟨it, hit, rfl⟩, hp⟩
    exact ⟨it, hit, Option.some.inj hp⟩
  · rintro ⟨it, hit, hp⟩
    exact ⟨_, ⟨it, hit, rfl⟩, congrArg some hp⟩

theorem check_forEach (p : ℕ → ServerRow → Bool) (s : ServiceListActivity) :
    (s.forEach p).checkSafeLocation = s.checkSafeLocation ∧ (∀ i, ¬ (s.forEach p).Checked i) ∨
      (s.forEach p).Checked (s.forEach p).checkSafeLocation ∧
        ∀ i, (s.forEach p).Checked i → i ≤ (s.forEach p).checkSafeLocation := by
  rcases check_flagFrom p s.safeLocation 0 s.checkSafeLocation with ⟨hcheck, hnone⟩ | ⟨j, it, hcheck, hit, hp, hlast⟩
  · refine Or.inl ⟨hcheck, fun i h => ?_⟩
    obtain ⟨it, hit, hp⟩ := (checked_forEach p s i).1 h
    have hfalse := hnone i it hit
    rw [Nat.zero_add, hp] at hfalse
    cases hfalse
  · rw [Nat.zero_add] at hcheck hp
    have hplace : (s.forEach p).checkSafeLocation = j := hcheck
    rw [hplace]
    refine Or.inr ⟨(checked_forEach p s j).2 ⟨it, hit, hp⟩, fun i h => ?_⟩
    obtain ⟨it', hit', hp'⟩ := (checked_forEach p s i).1 h
    exact hlast i it' hit' (by rwa [Nat.zero_add])

theorem length_forEach (p : ℕ → ServerRow → Bool) (s : ServiceListActivity) :
    (s.forEach p).safeLocation.length = s.safeLocation.length := by
  have hlength : ∀ (rows : List ServerRow) i check, (flagFrom p i check rows).1.length = rows.length := by
    intro rows
    induction rows with
    | nil => exact fun i check => rfl
    | cons it rows ih => exact fun i check => congrArg (· + 1) (ih _ _)
  exact hlength _ _ _

theorem checked_setCheekState {i : ℕ} {b : Bool} {s : ServiceListActivity} (hi : i < s.safeLocation.length)
    (j : ℕ) : (s.setCheekState i b).Checked j ↔ (j = i ∧ b = true) ∨ (j ≠ i ∧ s.Checked j) := by
  simp only [Checked, setCheekState, List.getElem?_modify]
  by_cases hj : i = j
  · subst hj
    simp [List.getElem?_eq_getElem hi]
  · simp [hj, Ne.symm hj]

/-! ## The selection -/

/-- **A click selects the row that was clicked**, and no other. -/
theorem selected_getSelectedData {s : ServiceListActivity} {position : ℕ}
    (h : position < s.safeLocation.length) : (s.getSelectedData position).Selected := by
  have hchecked : ∀ i, (s.getSelectedData position).Checked i ↔ i = position := by
    intro i
    unfold getSelectedData
    rw [checked_forEach]
    constructor
    · rintro ⟨it, -, hp⟩
      exact (beq_iff_eq.1 hp).symm
    · rintro rfl
      exact ⟨_, List.getElem?_eq_getElem h, beq_iff_eq.2 rfl⟩
  intro i
  rw [hchecked]
  rcases check_forEach (fun index _ => position == index) s with ⟨-, hnone⟩ | ⟨hsome, -⟩
  · exact absurd ((hchecked position).2 rfl) (hnone position)
  · have hplace : (s.getSelectedData position).checkSafeLocation = position := (hchecked _).1 hsome
    rw [hplace]

theorem length_getSelectedData (s : ServiceListActivity) (position : ℕ) :
    (s.getSelectedData position).safeLocation.length = s.safeLocation.length :=
  length_forEach _ s

/-- After any clicks, the last one counts. -/
theorem selected_clicks {clicks : List ℕ} : ∀ {s : ServiceListActivity}, clicks ≠ [] →
    (∀ position ∈ clicks, position < s.safeLocation.length) →
    (clicks.foldl getSelectedData s).Selected := by
  induction clicks with
  | nil => exact fun h => absurd rfl h
  | cons position clicks ih =>
    intro s _ hclicks
    have hposition := hclicks position List.mem_cons_self
    by_cases hlast : clicks = []
    · rw [hlast]
      exact selected_getSelectedData hposition
    · refine ih hlast fun position' h => ?_
      rw [length_getSelectedData]
      exact hclicks position' (List.mem_cons_of_mem _ h)

theorem checked_storageServerData (locations : List ServerRow) (best : ServerRow) (i : ℕ) :
    (storageServerData locations best).Checked i ↔
      i = 0 ∨ ∃ j loc, i = j + 1 ∧ locations[j]? = some loc ∧ loc.cheekState = some true := by
  cases i with
  | zero =>
    constructor
    · exact fun _ => Or.inl rfl
    · exact fun _ => ⟨addTheBestRoute best, rfl, rfl⟩
  | succ i => simp [Checked, storageServerData]

/-- The best server is in use: the flags of the profile data are kept. -/
theorem selected_best (locations : List ServerRow) (best : ServerRow) (selectIp : Option Str) :
    (initRecyclerView locations best selectIp true).Selected ↔
      ∀ loc ∈ locations, loc.cheekState ≠ some true := by
  have hstart : ∀ i, (initRecyclerView locations best selectIp true).Checked i ↔
      i = 0 ∨ ∃ j loc, i = j + 1 ∧ locations[j]? = some loc ∧ loc.cheekState = some true :=
    checked_storageServerData locations best
  have hcheck : (initRecyclerView locations best selectIp true).checkSafeLocation = 0 := rfl
  constructor
  · intro h loc hloc hstate
    obtain ⟨j, hj⟩ := List.mem_iff_getElem?.1 hloc
    have hrow := (h (j + 1)).1 ((hstart _).2 (Or.inr ⟨j, loc, rfl, hj, hstate⟩))
    rw [hcheck] at hrow
    omega
  · intro h i
    rw [hstart, hcheck]
    constructor
    · rintro (hi | ⟨j, loc, -, hj, hstate⟩)
      · exact hi
      · exact absurd hstate (h loc (List.mem_of_getElem? hj))
    · exact Or.inl

/-- The loop of `initRecyclerView`. -/
def matched (locations : List ServerRow) (best : ServerRow) (selectIp : Option Str) : ServiceListActivity :=
  (storageServerData locations best).forEach fun _ it => it.bbIp == selectIp

theorem checked_matched {locations : List ServerRow} {best : ServerRow} {selectIp : Option Str} (j : ℕ) :
    (matched locations best selectIp).Checked (j + 1) ↔ ∃ loc, locations[j]? = some loc ∧ loc.bbIp = selectIp := by
  unfold matched
  rw [checked_forEach]
  simp [storageServerData]

theorem matched_lt (locations : List ServerRow) (best : ServerRow) (selectIp : Option Str) :
    (matched locations best selectIp).checkSafeLocation < (matched locations best selectIp).safeLocation.length := by
  have hlength : (matched locations best selectIp).safeLocation.length = locations.length + 1 :=
    length_forEach _ _
  rcases check_forEach (fun _ it => it.bbIp == selectIp) (storageServerData locations best) with ⟨h, -⟩ | ⟨h, -⟩
  · have hzero : (matched locations best selectIp).checkSafeLocation = 0 := h
    omega
  · obtain ⟨it, hit, -⟩ := h
    exact (List.getElem?_eq_some_iff.1 hit).1

/-- Another server is in use: the rows that the loop flagged, without the first, and the row that
the reference refers to. -/
theorem checked_initRecyclerView {locations : List ServerRow} {best : ServerRow} {selectIp : Option Str} (i : ℕ) :
    (initRecyclerView locations best selectIp false).Checked i ↔
      i = (matched locations best selectIp).checkSafeLocation ∨
      i ≠ 0 ∧ (matched locations best selectIp).Checked i := by
  have hlt := matched_lt locations best selectIp
  have hpos : 0 < (matched locations best selectIp).safeLocation.length := by omega
  have hstep : initRecyclerView locations best selectIp false =
      ((matched locations best selectIp).setCheekState 0 false).setCheekState
        (matched locations best selectIp).checkSafeLocation true := rfl
  rw [hstep, checked_setCheekState (by simpa [setCheekState] using hlt), checked_setCheekState hpos]
  by_cases hi : i = (matched locations best selectIp).checkSafeLocation
  · simp [hi]
  · simp [hi]

theorem selected_other (locations : List ServerRow) (best : ServerRow) (selectIp : Option Str) :
    (initRecyclerView locations best selectIp false).Selected ↔
      locations.Pairwise fun a b => ¬ (a.bbIp = selectIp ∧ b.bbIp = selectIp) := by
  have hcheck : (initRecyclerView locations best selectIp false).checkSafeLocation =
      (matched locations best selectIp).checkSafeLocation := rfl
  have hrow : ∀ {j : ℕ} (hj : j < locations.length), locations[j].bbIp = selectIp →
      (matched locations best selectIp).Checked (j + 1) :=
    fun hj hip => (checked_matched _).2 ⟨_, List.getElem?_eq_getElem hj, hip⟩
  rw [List.pairwise_iff_getElem]
  constructor
  · rintro h j k hj hk hlt ⟨hipj, hipk⟩
    -- both rows are flagged, and neither is the first
    have hplacej := (h (j + 1)).1 ((checked_initRecyclerView _).2 (Or.inr ⟨by omega, hrow hj hipj⟩))
    have hplacek := (h (k + 1)).1 ((checked_initRecyclerView _).2 (Or.inr ⟨by omega, hrow hk hipk⟩))
    omega
  · intro h i
    rw [checked_initRecyclerView, hcheck]
    refine ⟨?_, Or.inl⟩
    rintro (hi | ⟨hi, hflag⟩)
    · exact hi
    · obtain ⟨j, rfl⟩ := Nat.exists_eq_succ_of_ne_zero hi
      rcases check_forEach (fun _ it => it.bbIp == selectIp) (storageServerData locations best) with
        ⟨-, hnone⟩ | ⟨hlast, hle⟩
      · exact absurd hflag (hnone _)
      · -- the reference is not the first row, for it is the last one with the address
        obtain ⟨k, hk⟩ := Nat.exists_eq_succ_of_ne_zero
          (show (matched locations best selectIp).checkSafeLocation ≠ 0 by
            have hbound : j + 1 ≤ (matched locations best selectIp).checkSafeLocation := hle _ hflag
            omega)
        have hlast : (matched locations best selectIp).Checked (k + 1) := by
          rw [← Nat.succ_eq_add_one, ← hk]
          exact hlast
        obtain ⟨loc, hloc, hip⟩ := (checked_matched _).1 hflag
        obtain ⟨loc', hloc', hip'⟩ := (checked_matched _).1 hlast
        obtain ⟨hjlt, rfl⟩ := List.getElem?_eq_some_iff.1 hloc
        obtain ⟨hklt, rfl⟩ := List.getElem?_eq_some_iff.1 hloc'
        rcases Nat.lt_trichotomy j k with hjk | rfl | hjk
        · exact absurd ⟨hip, hip'⟩ (h j k hjlt hklt hjk)
        · exact hk.symm
        · exact absurd ⟨hip', hip⟩ (h k j hklt hjlt hjk)

/-- **When one row is selected, the one that is posted**: after a click always; before, if the best
server is in use and no server of the profile data comes with the flag, or if another server is in
use and no two servers have its address. -/
theorem selected_iff (locations : List ServerRow) (best : ServerRow) (selectIp : Option Str)
    (whetherBestServer : Bool) (clicks : List ℕ)
    (hclicks : ∀ position ∈ clicks, position < locations.length + 1) :
    (clicks.foldl getSelectedData (initRecyclerView locations best selectIp whetherBestServer)).Selected ↔
      clicks ≠ [] ∨
      (whetherBestServer = true ∧ ∀ loc ∈ locations, loc.cheekState ≠ some true) ∨
      (whetherBestServer = false ∧ locations.Pairwise fun a b => ¬ (a.bbIp = selectIp ∧ b.bbIp = selectIp)) := by
  by_cases hnil : clicks = []
  · subst hnil
    cases whetherBestServer with
    | true => simp [selected_best]
    | false => simp [selected_other]
  · have hlength : (initRecyclerView locations best selectIp whetherBestServer).safeLocation.length =
        locations.length + 1 := by
      cases whetherBestServer with
      | true => rfl
      | false =>
        have h : (matched locations best selectIp).safeLocation.length = locations.length + 1 :=
          length_forEach _ _
        simpa [initRecyclerView, setCheekState, matched] using h
    have hselected := selected_clicks (s := initRecyclerView locations best selectIp whetherBestServer) hnil
      (by rwa [hlength])
    exact ⟨fun _ => Or.inl hnil, fun _ => hselected⟩

/-- A server on the given port. -/
def sampleRow (port : ℤ) (ip : Str) : ServerRow where
  bbPwd := some "password".toList
  bbMethod := some "chacha20-ietf-poly1305".toList
  bbPort := some port
  bbIp := some ip

/-- Two servers with different addresses, the second one clicked. -/
theorem selected_clicked :
    ([2].foldl getSelectedData (initRecyclerView
      [sampleRow 2177 "10.0.0.1".toList, sampleRow 2177 "10.0.0.2".toList] (sampleRow 2177 "10.0.0.1".toList)
      (some "10.0.0.1".toList) false)).Selected :=
  (selected_iff _ _ _ false [2] (by simp)).2 (Or.inl (by simp))

/-- Two servers on one address, that is in use: both rows are selected. -/
theorem not_selected_sharedAddress :
    ¬ (initRecyclerView [sampleRow 2177 "10.0.0.1".toList, sampleRow 2178 "10.0.0.1".toList]
      (sampleRow 2177 "10.0.0.1".toList) (some "10.0.0.1".toList) false).Selected := by
  rw [selected_other]
  simp [sampleRow]

end ServiceListActivity

end BlackButton
