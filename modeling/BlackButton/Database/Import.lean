import BlackButton.Database.Fallback

/-!
# Importing profiles from files (`createProfilesFromJson` in `database/ProfileManager.kt`)

With `replace`, the table is cleared when the first profile is created, and every
profile gets the statistics of the old profile with its address. Documents that fail
are skipped, and what they threw is thrown at the end.

* `forEachTry_inv`: what every element keeps, `forEachTry` keeps.
* `Filled.document`: the rows after a document.
* `createProfilesFromJson_replace`: **the table after an import.**
-/

namespace BlackButton

/-- `DELETE FROM Profile`. The keys go on from the largest one. -/
def Table.deleteAll (t : Table) : Table := ⟨[], t.seq, List.nodup_nil, by simp⟩

namespace ProfileManager

/-- `forEachTry`: the exceptions of all elements. The first one is thrown, the others are added to it. -/
def forEachTry {σ α ε : Type} (action : σ → α → σ × Option ε) : List α → σ → σ × List ε
  | [], s => (s, [])
  | x :: xs, s =>
    let first := action s x
    let rest := forEachTry action xs first.1
    (rest.1, first.2.toList ++ rest.2)

/-- `clear`; whether it was called is `lazyClear.isInitialized()`. -/
def clear (w : World Bool) : World Bool := { w with table := w.table.deleteAll, extra := true }

/-- `lazyClear.value`. -/
def lazyClear (w : World Bool) : World Bool := if w.extra then w else clear w

/-- The statistics of the profile with this address are copied. -/
def copyStats (profiles : List (Str × Profile)) (it : Profile) : Profile :=
  match Assoc.get profiles it.formattedAddress with
  | none => it
  | some old => { it with tx := old.tx, rx := old.rx }

/-- The callback of `createProfilesFromJson`; the old profiles are there if they are replaced. -/
def create (profiles : Option (List (Str × Profile))) (w : World Bool) (it : Profile) : World Bool × ℤ :=
  match profiles with
  | none => w.createProfile it
  | some profiles => (lazyClear w).createProfile (copyStats profiles it)

/-- `singleOrNull`. -/
def singleOrNull {α : Type} (l : List α) (p : α → Bool) : Option α :=
  match l.filter p with
  | [x] => some x
  | _ => none

/-- One document. -/
def readDocument (H : HashOrder) (feature : Option Profile) (profiles : Option (List (Str × Profile)))
    (w : World Bool) (json : Document) : World Bool × Option Fault :=
  match json.single with
  | .error f => (w, some f)
  | .ok json => JsonParser.parseJson (create profiles) H feature json w

/-- The profiles by address. -/
def byAddress (t : Table) : List (Str × Profile) := Assoc.associateBy Profile.formattedAddress t.rows

/-- `feature` of an import that replaces the profiles. -/
def featureOf (t : Table) (profileId : ℤ) : Option Profile :=
  singleOrNull ((byAddress t).map Prod.snd) fun p => p.id = profileId

/-- `createProfilesFromJson`: the table, and what is thrown. -/
def createProfilesFromJson (H : HashOrder) (profileId : ℤ) (jsons : List Document) (replace : Bool) (t : Table) :
    Table × List Fault :=
  let profiles := if replace then some (byAddress t) else none
  let feature := if replace then featureOf t profileId else t.get profileId
  let out := forEachTry (readDocument H feature profiles) jsons ⟨t, [], false⟩
  (out.1.table, out.2)

/-! ## What an import is for -/

/-- The entries of a document, or why it fails. -/
def accepted (H : HashOrder) (feature : Option Profile) (d : Document) :
    Except Fault (List (Profile × Option Profile)) :=
  match d.single with
  | .error f => .error f
  | .ok json => JsonParser.entries H feature json

/-- The fallbacks of the entries: the first of equal profiles takes the one of the map. -/
def taken : List (Profile × Profile) → List Profile → List Profile
  | _, [] => []
  | map, p :: ps => (Assoc.get map p).toList ++ taken (Assoc.remove map p) ps

/-- The profiles after those of a document: its main entries, then the fallbacks that no profile so far stands
for. -/
def yieldEntries (ys : List Profile) (es : List (Profile × Option Profile)) : List Profile :=
  let ys := ys ++ es.map Prod.fst
  ys ++ (taken (JsonParser.fallbacksOf es) (es.map Prod.fst)).filter fun f => !ys.any (JsonParser.matching f)

/-- What the documents yield: those that fail yield nothing. -/
def yielded (H : HashOrder) (feature : Option Profile) (jsons : List Document) : List Profile :=
  jsons.foldl (fun ys d => (accepted H feature d).toOption.elim ys (yieldEntries ys)) []

/-- The last old profile with the same address. -/
def lastSame (rows : List Profile) (p : Profile) : Option Profile :=
  (rows.filter fun r => r.formattedAddress = p.formattedAddress).getLast?

/-- The `i`-th profile of the new table, apart from its key and the reference to its fallback. -/
def imported (rows : List Profile) (i : ℕ) (p : Profile) : Profile :=
  { p with
    tx := ((lastSame rows p).map Profile.tx).getD 0
    rx := ((lastSame rows p).map Profile.rx).getD 0
    userOrder := i }

/-- A row, apart from its key and the reference to its fallback. -/
def unlinked (r : Profile) : Profile := { r with id := 0, udpFallback := none }

/-! ## Loops -/

/-- **What every element keeps, `forEachTry` keeps**, and it throws exactly what the elements throw. -/
theorem forEachTry_inv {σ α ε : Type} {action : σ → α → σ × Option ε} {I : List α → σ → Prop}
    {fails : α → Option ε}
    (hstep : ∀ done x s, I done s → I (done ++ [x]) (action s x).1 ∧ (action s x).2 = fails x) (xs : List α) :
    ∀ {done : List α} {s : σ}, I done s →
      I (done ++ xs) (forEachTry action xs s).1 ∧ (forEachTry action xs s).2 = xs.filterMap fails := by
  induction xs with
  | nil =>
    intro done s h
    rw [List.append_nil]
    exact ⟨h, rfl⟩
  | cons x xs ih =>
    intro done s h
    obtain ⟨hnext, hfails⟩ := hstep done x s h
    obtain ⟨hrest, hthrown⟩ := ih hnext
    rw [List.append_assoc, List.singleton_append] at hrest
    refine ⟨hrest, ?_⟩
    rw [forEachTry, List.filterMap_cons]
    simp only [hfails, hthrown]
    cases fails x with
    | none => rfl
    | some e => rfl

/-! ## Rows -/

/-- The callback copies the statistics of the last old profile with the address. -/
theorem withOrder_copyStats {t : Table} {p : Profile} (h : JsonParser.New p) (i : ℕ) :
    (copyStats (byAddress t) p).withOrder i = imported t.rows i p := by
  have hget : Assoc.get (byAddress t) p.formattedAddress = lastSame t.rows p := Assoc.get_associateBy_eq _ _
  unfold copyStats imported
  rw [hget]
  cases lastSame t.rows p with
  | none =>
    simp [Profile.withOrder, h.tx, h.rx]
  | some old => rfl

theorem map_mapIdx {α β γ : Type} (g : β → γ) (f : ℕ → α → β) (l : List α) :
    (l.mapIdx f).map g = l.mapIdx fun i x => g (f i x) := by
  rw [eq_comm, List.mapIdx_eq_iff]
  intro i
  rw [List.getElem?_map, List.getElem?_mapIdx, Option.map_map]
  rfl

/-- The table has the rows of `ys`, in this order, and no old ones. -/
structure Filled (t : Table) (ys : List Profile) (w : World Bool) : Prop where
  cleared : w.extra = true
  objects : w.objects = w.table.rows
  rows : w.table.rows.map unlinked = ys.mapIdx (imported t.rows)
  seq : t.seq ≤ w.table.seq
  new : ∀ r ∈ w.table.rows, t.seq < r.id

variable {t : Table} {ys : List Profile} {w : World Bool}

theorem filled_clear (t : Table) : Filled t [] (clear ⟨t, [], false⟩) where
  cleared := rfl
  objects := rfl
  rows := rfl
  seq := Int.le_refl _
  new := fun _ hr => absurd hr List.not_mem_nil

/-- The next order is the number of rows. -/
theorem Filled.nextOrder (h : Filled t ys w) : w.table.nextOrder.getD 0 = ys.length := by
  have horders : w.table.rows.map Profile.userOrder = ys.mapIdx fun i _ => (i : ℤ) := by
    have hmap := congrArg (List.map Profile.userOrder) h.rows
    rw [List.map_map, map_mapIdx] at hmap
    exact hmap
  unfold Table.nextOrder
  rw [horders]
  rcases List.eq_nil_or_concat' ys with rfl | ⟨zs, y, rfl⟩
  · rfl
  · have hmax : ((zs ++ [y]).mapIdx fun i _ => (i : ℤ)).max? = some (zs.length : ℤ) := by
      rw [List.max?_eq_some_iff]
      constructor
      · rw [List.mapIdx_concat]
        exact List.mem_append_right _ List.mem_cons_self
      · intro b hb
        obtain ⟨i, hi, rfl⟩ := List.mem_mapIdx.1 hb
        rw [List.length_append, List.length_singleton] at hi
        omega
    rw [hmax, List.length_append, List.length_singleton]
    rfl

theorem Filled.nodup (h : Filled t ys w) : (w.objects.map Profile.id).Nodup := by
  rw [h.objects]
  exact w.table.nodup

/-- **One profile is created**: its row is the last one. -/
theorem Filled.create (h : Filled t ys w) {p : Profile} (hp : JsonParser.New p) :
    ∃ w' o, create (some (byAddress t)) w p = (w', o.id) ∧ Filled t (ys ++ [p]) w' ∧
      w'.table.rows = w.table.rows ++ [o] ∧ o.id = w.table.seq + 1 ∧ w'.object o.id = some o := by
  have hlazy : lazyClear w = w := if_pos h.cleared
  have hcreate : ProfileManager.create (some (byAddress t)) w p = w.createProfile (copyStats (byAddress t) p) := by
    unfold ProfileManager.create
    rw [hlazy]
  -- the row that is inserted
  let o := (((copyStats (byAddress t) p).withId 0).withOrder ys.length).withId (w.table.seq + 1)
  have hstep : w.createProfile (copyStats (byAddress t) p) =
      (⟨w.table.create (((copyStats (byAddress t) p).withId 0).withOrder ys.length), w.objects ++ [o], w.extra⟩,
        o.id) := by
    unfold World.createProfile
    rw [h.nextOrder]
    rfl
  have hrow : unlinked o = imported t.rows ys.length p := by
    rw [← withOrder_copyStats hp]
    have hfallback : (copyStats (byAddress t) p).udpFallback = none := by
      unfold copyStats
      split
      · exact hp.fallback
      · exact hp.fallback
    have hid : (copyStats (byAddress t) p).id = 0 := by
      unfold copyStats
      split
      · exact hp.id
      · exact hp.id
    simp [o, unlinked, Profile.withOrder, Profile.withId, hfallback, hid]
  have hseq := h.seq
  refine ⟨_, o, hcreate.trans hstep, ⟨h.cleared, ?_, ?_, ?_, ?_⟩, rfl, rfl, ?_⟩
  · rw [h.objects]
    rfl
  · show (w.table.rows ++ [o]).map unlinked = _
    rw [List.map_append, h.rows, List.mapIdx_concat, List.map_singleton, hrow]
  · show t.seq ≤ w.table.seq + 1
    omega
  · show ∀ r ∈ w.table.rows ++ [o], t.seq < r.id
    rw [List.forall_mem_append]
    refine ⟨h.new, ?_⟩
    intro r hr
    rw [List.mem_singleton.1 hr]
    show t.seq < w.table.seq + 1
    omega
  · apply World.object_of_mem
    · rw [h.objects]
      exact (w.table.create _).nodup
    · exact List.mem_append_right _ List.mem_cons_self

/-! ## The main entries -/

/-- The keys of the map so far are profiles that are still to be created, then objects with a row. -/
structure Keys (w : World Bool) (waiting kept : List (Profile × Profile)) : Prop where
  waiting : ∀ k ∈ Assoc.keys waiting, k.id = 0
  kept : ∀ k ∈ Assoc.keys kept, k.id ∈ w.table.ids

/-- Rows have positive keys. -/
theorem Filled.pos (h : Filled t ys w) (ht : 0 ≤ t.seq) {id : ℤ} (hid : id ∈ w.table.ids) : 0 < id := by
  obtain ⟨r, hr, rfl⟩ := Table.mem_ids.1 hid
  have := h.new r hr
  omega

/-- **One turn of the loop of `parseJson`**: the fallback of the profile moves to the end of the map. -/
theorem Filled.createNext (h : Filled t ys w) (ht : 0 ≤ t.seq) {p : Profile} (hp : JsonParser.New p)
    {waiting kept : List (Profile × Profile)} (hkeys : Keys w waiting kept) :
    ∃ w' kept', JsonParser.createNext (ProfileManager.create (some (byAddress t))) (w, waiting ++ kept) p =
        (w', Assoc.remove waiting p ++ kept') ∧ Filled t (ys ++ [p]) w' ∧ Keys w' (Assoc.remove waiting p) kept' ∧
      kept'.map Prod.snd = kept.map Prod.snd ++ (Assoc.get waiting p).toList := by
  obtain ⟨w', o, hcreate, hfilled, hrows, hid, hobject⟩ := h.create hp
  have hids : w'.table.ids = w.table.ids ++ [o.id] := by
    unfold Table.ids
    rw [hrows, List.map_append]
    rfl
  have hold : p ∉ Assoc.keys kept := by
    intro hmem
    have hpos := h.pos ht (hkeys.kept p hmem)
    have hzero := hp.id
    omega
  have hremoved : ∀ k ∈ Assoc.keys (Assoc.remove waiting p), k.id = 0 := by
    intro k hk
    exact hkeys.waiting k ((List.filter_sublist.map Prod.fst).subset hk)
  have hgrown : ∀ k ∈ Assoc.keys kept, k.id ∈ w'.table.ids := by
    intro k hk
    rw [hids]
    exact List.mem_append_left _ (hkeys.kept k hk)
  -- the new row is no key so far
  have hnew : o ∉ Assoc.keys (Assoc.remove waiting p ++ kept) := by
    rw [Assoc.keys_append, List.mem_append, not_or]
    constructor
    · intro hmem
      have hzero := hremoved o hmem
      have := h.seq
      omega
    · intro hmem
      obtain ⟨r, hr, hrid⟩ := Table.mem_ids.1 (hkeys.kept o hmem)
      have := w.table.le_seq r hr
      omega
  unfold JsonParser.createNext
  rw [hcreate, Assoc.get_append hold, Assoc.remove_append hold]
  cases hget : Assoc.get waiting p with
  | none =>
    refine ⟨w', kept, rfl, hfilled, ⟨hremoved, hgrown⟩, ?_⟩
    rw [Option.toList_none, List.append_nil]
  | some f =>
    refine ⟨w', kept ++ [(o, f)], ?_, hfilled, ⟨hremoved, ?_⟩, ?_⟩
    · simp only [hobject, Option.getD_some]
      rw [Assoc.put_of_not_mem hnew, List.append_assoc]
    · intro k hk
      rw [Assoc.keys_append, List.mem_append] at hk
      rcases hk with hk | hk
      · exact hgrown k hk
      · rw [List.mem_singleton.1 hk, hids]
        exact List.mem_append_right _ List.mem_cons_self
    · rw [List.map_append]
      rfl

/-- All profiles of a document are created. -/
theorem Filled.createAll (ht : 0 ≤ t.seq) (ps : List Profile) :
    ∀ {ys : List Profile} {w : World Bool} {waiting kept : List (Profile × Profile)}, Filled t ys w →
      (∀ p ∈ ps, JsonParser.New p) → Keys w waiting kept →
      ∃ w' kept', ps.foldl (JsonParser.createNext (ProfileManager.create (some (byAddress t)))) (w, waiting ++ kept) =
          (w', ps.foldl Assoc.remove waiting ++ kept') ∧ Filled t (ys ++ ps) w' ∧
        (∀ k ∈ Assoc.keys kept', k.id ∈ w'.table.ids) ∧
        kept'.map Prod.snd = kept.map Prod.snd ++ taken waiting ps := by
  induction ps with
  | nil =>
    intro ys w waiting kept h _ hkeys
    refine ⟨w, kept, rfl, ?_, hkeys.kept, ?_⟩
    · rwa [List.append_nil]
    · rw [taken, List.append_nil]
  | cons p ps ih =>
    intro ys w waiting kept h hps hkeys
    rw [List.forall_mem_cons] at hps
    obtain ⟨w₁, kept₁, hnext, h₁, hkeys₁, hvalues₁⟩ := h.createNext ht hps.1 hkeys
    obtain ⟨w', kept', hall, h', hkeys', hvalues'⟩ := ih h₁ hps.2 hkeys₁
    refine ⟨w', kept', ?_, ?_, hkeys', ?_⟩
    · rw [List.foldl_cons, hnext, hall, List.foldl_cons]
    · rwa [List.append_assoc, List.singleton_append] at h'
    · rw [hvalues', hvalues₁, List.append_assoc, taken]

/-- Nothing waits when every key was created. -/
theorem foldl_remove_eq_nil {ps : List Profile} {map : List (Profile × Profile)}
    (h : ∀ k ∈ Assoc.keys map, k ∈ ps) : ps.foldl Assoc.remove map = [] := by
  have hmem : ∀ (ps : List Profile) (map : List (Profile × Profile)) (e : Profile × Profile),
      e ∈ ps.foldl Assoc.remove map → e ∈ map ∧ e.1 ∉ ps := by
    intro ps
    induction ps with
    | nil => exact fun map e he => ⟨he, List.not_mem_nil⟩
    | cons p ps ih =>
      intro map e he
      obtain ⟨hin, hnot⟩ := ih _ e he
      obtain ⟨hin, hne⟩ := List.mem_filter.1 hin
      refine ⟨hin, ?_⟩
      rw [List.mem_cons, not_or]
      exact ⟨of_decide_eq_true hne, hnot⟩
  rw [List.eq_nil_iff_forall_not_mem]
  intro e he
  obtain ⟨hin, hnot⟩ := hmem ps map e he
  exact hnot (h e.1 (List.mem_map_of_mem hin))

/-! ## The fallbacks -/

/-- A row that refers to its fallback is the same row otherwise. -/
theorem unlinked_replace {r : Profile} (hr : r ∈ w.table.rows) (id : ℤ) :
    (replace w.table.rows (r.withFallback id)).map unlinked = w.table.rows.map unlinked := by
  unfold replace
  rw [List.map_map]
  apply List.map_congr_left
  intro q hq
  show unlinked (if q.id = r.id then r.withFallback id else q) = unlinked q
  split
  · rename_i hid
    rw [Table.eq_of_id hq hr hid]
    rfl
  · rfl

/-- The row of an object refers to its fallback. -/
theorem Filled.update (h : Filled t ys w) {r : Profile} (hr : r ∈ w.table.rows) (id : ℤ) :
    ∃ w', (w.setObject (r.withFallback id)).updateProfile (r.withFallback id) = (w', none) ∧ Filled t ys w' ∧
      w'.table.ids = w.table.ids := by
  have hmem : (r.withFallback id).id ∈ (w.setObject (r.withFallback id)).table.ids :=
    Table.mem_ids.2 ⟨r, hr, rfl⟩
  have hids : (w.table.update (r.withFallback id)).ids = w.table.ids := Table.ids_update _ _
  refine ⟨⟨w.table.update (r.withFallback id), replace w.objects (r.withFallback id), w.extra⟩, ?_,
    ⟨h.cleared, ?_, ?_, h.seq, ?_⟩, hids⟩
  · unfold World.updateProfile
    rw [if_pos hmem]
    rfl
  · show replace w.objects _ = replace w.table.rows _
    rw [h.objects]
  · exact (unlinked_replace hr id).trans h.rows
  · intro q hq
    obtain ⟨q', hq', hid⟩ := Table.mem_ids.1 (hids ▸ Table.mem_ids.2 ⟨q, hq, rfl⟩)
    rw [← hid]
    exact h.new q' hq'

/-- What a fallback stands for: a new profile is created if none of `profiles` is its match. -/
theorem Filled.target (h : Filled t ys w) (profiles : List Profile) {f : Profile} (hnew : JsonParser.New f) :
    ∃ w' id, JsonParser.target (ProfileManager.create (some (byAddress t))) profiles w f = (w', id) ∧
      Filled t (ys ++ [f].filter fun f => !profiles.any (JsonParser.matching f)) w' ∧
      ∀ id ∈ w.table.ids, id ∈ w'.table.ids := by
  unfold JsonParser.target
  cases hfind : profiles.find? (JsonParser.matching f) with
  | some m =>
    have hany : profiles.any (JsonParser.matching f) = true :=
      List.any_eq_true.2 ⟨m, List.mem_of_find?_eq_some hfind, List.find?_some hfind⟩
    refine ⟨w, m.id, rfl, ?_, fun id hid => hid⟩
    rw [List.filter_singleton, hany, Bool.not_true, cond_false, List.append_nil]
    exact h
  | none =>
    have hany : profiles.any (JsonParser.matching f) = false := by
      rw [List.any_eq_false]
      exact List.find?_eq_none.1 hfind
    obtain ⟨w', o, hcreate, h', hrows, -, -⟩ := h.create hnew
    refine ⟨w', o.id, hcreate, ?_, ?_⟩
    · rw [List.filter_singleton, hany, Bool.not_false, cond_true]
      exact h'
    · intro id hid
      unfold Table.ids
      rw [hrows, List.map_append]
      exact List.mem_append_left _ hid

/-- **One fallback is resolved**, and the row of its profile refers to it. -/
theorem Filled.link (h : Filled t ys w) (profiles : List Profile) {e : Profile × Profile}
    (hkey : e.1.id ∈ w.table.ids) (hnew : JsonParser.New e.2) :
    ∃ w', JsonParser.link (ProfileManager.create (some (byAddress t))) profiles w e = (w', none) ∧
      Filled t (ys ++ [e.2].filter fun f => !profiles.any (JsonParser.matching f)) w' ∧
      ∀ id ∈ w.table.ids, id ∈ w'.table.ids := by
  obtain ⟨w₁, id, htarget, h₁, hgrown⟩ := h.target profiles hnew
  obtain ⟨r, hr, hrid⟩ := Table.mem_ids.1 (hgrown _ hkey)
  have hobject : w₁.object e.1.id = some r := by
    rw [← hrid]
    exact World.object_of_mem h₁.nodup (h₁.objects ▸ hr)
  obtain ⟨w', hupdate, h', hids⟩ := h₁.update hr id
  refine ⟨w', ?_, h', fun i hi => hids ▸ hgrown i hi⟩
  unfold JsonParser.link
  rw [htarget]
  simp only [hobject, Option.getD_some]
  exact hupdate

/-- Every fallback of the map is resolved. -/
theorem Filled.linkAll (profiles : List Profile) (es : List (Profile × Profile)) :
    ∀ {ys : List Profile} {w : World Bool}, Filled t ys w →
      (∀ e ∈ es, e.1.id ∈ w.table.ids ∧ JsonParser.New e.2) →
      ∃ w', JsonParser.linkAll (ProfileManager.create (some (byAddress t))) profiles es w = (w', none) ∧
        Filled t (ys ++ (es.map Prod.snd).filter fun f => !profiles.any (JsonParser.matching f)) w' := by
  induction es with
  | nil =>
    intro ys w h _
    refine ⟨w, rfl, ?_⟩
    rwa [List.map_nil, List.filter_nil, List.append_nil]
  | cons e es ih =>
    intro ys w h hes
    obtain ⟨⟨hkey, hnew⟩, hrest⟩ := List.forall_mem_cons.1 hes
    obtain ⟨w₁, hlink, h₁, hgrown⟩ := h.link profiles hkey hnew
    obtain ⟨w', hall, h'⟩ := ih h₁ fun e he => ⟨hgrown _ (hrest e he).1, (hrest e he).2⟩
    refine ⟨w', ?_, ?_⟩
    · rw [JsonParser.linkAll, hlink]
      exact hall
    · rwa [List.append_assoc, ← List.filter_append, List.singleton_append] at h'

/-- What a fallback is compared with is kept in the table. -/
theorem Filled.any_matching (h : Filled t ys w) (f : Profile) :
    w.table.rows.any (JsonParser.matching f) = ys.any (JsonParser.matching f) := by
  have hmap : w.table.rows.map (JsonParser.matching f) = ys.mapIdx fun _ y => JsonParser.matching f y := by
    have hrows := congrArg (List.map (JsonParser.matching f)) h.rows
    rw [List.map_map, map_mapIdx] at hrows
    exact hrows
  have hys : (ys.mapIdx fun _ y => JsonParser.matching f y) = ys.map (JsonParser.matching f) := by
    rw [List.mapIdx_eq_iff]
    intro i
    rw [List.getElem?_map]
  have hany := congrArg (fun l => l.any id) (hmap.trans hys)
  simpa [List.any_map] using hany

/-! ## Documents -/

theorem mem_taken {map : List (Profile × Profile)} {ps : List Profile} {f : Profile} (h : f ∈ taken map ps) :
    ∃ k, (k, f) ∈ map := by
  induction ps generalizing map with
  | nil => cases h
  | cons p ps ih =>
    rw [taken, List.mem_append, Option.mem_toList] at h
    rcases h with h | h
    · exact ⟨p, Assoc.mem_of_get h⟩
    · obtain ⟨k, hk⟩ := ih h
      exact ⟨k, List.mem_of_mem_filter hk⟩

section Document

variable {H : HashOrder} {feature : Option Profile} {json : Json} {es : List (Profile × Option Profile)}

/-- **The rows after a document**: its main entries, then the fallbacks that were created. -/
theorem Filled.document (h : Filled t ys w) (ht : 0 ≤ t.seq) (hes : JsonParser.entries H feature json = .ok es) :
    ∃ w', JsonParser.parseJson (ProfileManager.create (some (byAddress t))) H feature json w = (w', none) ∧
      Filled t (yieldEntries ys es) w' := by
  have hnew := JsonParser.new_entries hes
  have hmains : ∀ p ∈ es.map Prod.fst, JsonParser.New p := by
    intro p hp
    obtain ⟨e, he, rfl⟩ := List.mem_map.1 hp
    exact (hnew e he).1
  have hfrom : ∀ k ∈ Assoc.keys (JsonParser.fallbacksOf es), k ∈ es.map Prod.fst := by
    intro k hk
    obtain ⟨x, hx, rfl⟩ := List.mem_map.1 hk
    exact List.mem_map.2 ⟨_, JsonParser.mem_fallbackMap hx, rfl⟩
  have hkeys : Keys w (JsonParser.fallbacksOf es) [] :=
    ⟨fun k hk => (hmains k (hfrom k hk)).id, fun k hk => absurd hk List.not_mem_nil⟩
  obtain ⟨w₁, kept, hall, h₁, hkept, hvalues⟩ := Filled.createAll ht (es.map Prod.fst) h hmains hkeys
  rw [List.append_nil, foldl_remove_eq_nil hfrom, List.nil_append] at hall
  rw [List.map_nil, List.nil_append] at hvalues
  have hfallbacks : ∀ e ∈ kept, e.1.id ∈ w₁.table.ids ∧ JsonParser.New e.2 := by
    intro e he
    refine ⟨hkept e.1 (List.mem_map_of_mem he), ?_⟩
    have hvalue : e.2 ∈ kept.map Prod.snd := List.mem_map_of_mem he
    rw [hvalues] at hvalue
    obtain ⟨k, hk⟩ := mem_taken hvalue
    exact (hnew _ (JsonParser.mem_fallbackMap hk)).2 e.2 rfl
  obtain ⟨w', hlink, h'⟩ := h₁.linkAll w₁.table.rows kept hfallbacks
  refine ⟨w', ?_, ?_⟩
  · rw [JsonParser.parseJson_ok _ hes]
    unfold JsonParser.fallbacksOf at hall
    rw [hall]
    exact hlink
  · rw [hvalues] at h'
    simp only [h₁.any_matching] at h'
    exact h'

/-- The first entry of a document clears the table. -/
theorem parseJson_lazyClear (hes : JsonParser.entries H feature json = .ok es) (hne : es ≠ [])
    (profiles : List (Str × Profile)) (w : World Bool) :
    JsonParser.parseJson (create (some profiles)) H feature json w =
      JsonParser.parseJson (create (some profiles)) H feature json (lazyClear w) := by
  have hclear : lazyClear (lazyClear w) = lazyClear w := by
    unfold lazyClear
    cases hextra : w.extra with
    | true => simp [hextra]
    | false => simp [clear]
  have hcreate : ∀ p, create (some profiles) w p = create (some profiles) (lazyClear w) p := by
    intro p
    unfold create
    rw [hclear]
  rw [JsonParser.parseJson_ok _ hes, JsonParser.parseJson_ok _ hes]
  cases es with
  | nil => exact absurd rfl hne
  | cons e es =>
    generalize ((e :: es).foldl JsonParser.addEntry .new).fallbackMap = map
    rw [List.map_cons, List.foldl_cons, List.foldl_cons]
    unfold JsonParser.createNext
    rw [hcreate]

end Document

/-- The table is the old one while there is no profile, and has the new profiles afterwards. -/
def Replaced (t : Table) (ys : List Profile) (w : World Bool) : Prop :=
  if ys = [] then w = ⟨t, [], false⟩ else Filled t ys w

theorem Replaced.lazyClear (h : Replaced t ys w) : Filled t ys (lazyClear w) := by
  unfold Replaced at h
  split at h
  · rename_i hnil
    rw [h, hnil]
    exact filled_clear t
  · rwa [ProfileManager.lazyClear, if_pos h.cleared]

theorem yieldEntries_nil (ys : List Profile) : yieldEntries ys [] = ys := by
  simp [yieldEntries, taken]

theorem yieldEntries_ne_nil (ys : List Profile) {es : List (Profile × Option Profile)} (h : es ≠ []) :
    yieldEntries ys es ≠ [] := by
  unfold yieldEntries
  simp [h]

/-- **One document of an import**: it fails and changes nothing, or its profiles are added. -/
theorem Replaced.readDocument (h : Replaced t ys w) (ht : 0 ≤ t.seq) (H : HashOrder) (feature : Option Profile)
    (d : Document) :
    match accepted H feature d with
    | .error f => ProfileManager.readDocument H feature (some (byAddress t)) w d = (w, some f)
    | .ok es => ∃ w', ProfileManager.readDocument H feature (some (byAddress t)) w d = (w', none) ∧
        Replaced t (yieldEntries ys es) w' := by
  unfold accepted ProfileManager.readDocument
  cases d.single with
  | error f => rfl
  | ok json =>
    cases hes : JsonParser.entries H feature json with
    | error f =>
      simp only [hes]
      exact JsonParser.parseJson_error _ hes w
    | ok es =>
      simp only [hes]
      by_cases hnil : es = []
      · refine ⟨w, ?_, ?_⟩
        · rw [JsonParser.parseJson_ok _ hes, hnil]
          rfl
        · rw [hnil, yieldEntries_nil]
          exact h
      · rw [parseJson_lazyClear hes hnil]
        obtain ⟨w', hparse, h'⟩ := h.lazyClear.document ht hes
        refine ⟨w', hparse, ?_⟩
        rw [Replaced, if_neg (yieldEntries_ne_nil ys hnil)]
        exact h'

/-- What a document throws. -/
def failure (H : HashOrder) (feature : Option Profile) (d : Document) : Option Fault :=
  match accepted H feature d with
  | .error f => some f
  | .ok _ => none

theorem yielded_concat (H : HashOrder) (feature : Option Profile) (done : List Document) (d : Document) :
    yielded H feature (done ++ [d]) =
      (accepted H feature d).toOption.elim (yielded H feature done) (yieldEntries (yielded H feature done)) := by
  unfold yielded
  rw [List.foldl_append]
  rfl

/-- **The table after an import** that replaces the profiles: the old one if the documents yield no profile, or
else exactly what they yield, in order, each with the statistics of the last old profile with its address. What
is thrown is what the documents throw. -/
theorem createProfilesFromJson_replace (H : HashOrder) (profileId : ℤ) (jsons : List Document) (t : Table)
    (ht : 0 ≤ t.seq) :
    let ys := yielded H (featureOf t profileId) jsons
    let out := createProfilesFromJson H profileId jsons true t
    (ys = [] → out.1 = t) ∧
      (ys ≠ [] → out.1.rows.map unlinked = ys.mapIdx (imported t.rows) ∧ ∀ r ∈ out.1.rows, r.id ∉ t.ids) ∧
      out.2 = jsons.filterMap (failure H (featureOf t profileId)) := by
  intro ys out
  have hstep : ∀ (done : List Document) (d : Document) (w : World Bool),
      Replaced t (yielded H (featureOf t profileId) done) w →
        Replaced t (yielded H (featureOf t profileId) (done ++ [d]))
            (readDocument H (featureOf t profileId) (some (byAddress t)) w d).1 ∧
          (readDocument H (featureOf t profileId) (some (byAddress t)) w d).2 =
            failure H (featureOf t profileId) d := by
    intro done d w h
    have hread := h.readDocument ht H (featureOf t profileId) d
    rw [yielded_concat]
    unfold failure
    cases hd : accepted H (featureOf t profileId) d with
    | error f =>
      rw [hd] at hread
      simp only at hread
      rw [hread]
      exact ⟨h, rfl⟩
    | ok es =>
      rw [hd] at hread
      obtain ⟨w', hread, h'⟩ := hread
      rw [hread]
      exact ⟨h', rfl⟩
  have hinit : Replaced t (yielded H (featureOf t profileId) []) ⟨t, [], false⟩ := by
    unfold Replaced
    rw [if_pos]
    rfl
  obtain ⟨hend, hthrown⟩ := forEachTry_inv hstep jsons hinit
  rw [List.nil_append] at hend
  refine ⟨?_, ?_, hthrown⟩
  · intro hnil
    have hworld := hend
    rw [Replaced, if_pos hnil] at hworld
    exact congrArg World.table hworld
  · intro hne
    have hfilled := hend
    rw [Replaced, if_neg hne] at hfilled
    refine ⟨hfilled.rows, ?_⟩
    intro r hr hold
    obtain ⟨q, hq, hid⟩ := Table.mem_ids.1 hold
    have hle := t.le_seq q hq
    have hlt := hfilled.new r hr
    omega

/-- A table with one profile, of server `a`. -/
def oneProfile : Table := Table.empty.create { host := ['a'], remotePort := 8388, tx := 5, rx := 6 }

/-- A malformed document does not keep the next one from being imported. -/
theorem createProfilesFromJson_replace_malformed :
    let jsons := [⟨[], false⟩, ⟨[JsonParser.serverEntry ['a'] []], true⟩]
    let out := createProfilesFromJson .insertion 0 jsons true oneProfile
    out.1.rows.map unlinked = [{ JsonParser.serverProfile ['a'] with tx := 5, rx := 6 }] ∧
      (∀ r ∈ out.1.rows, r.id ∉ oneProfile.ids) ∧ out.2 = [.document] := by
  intro jsons out
  have hyielded : yielded .insertion (featureOf oneProfile 0) jsons = [JsonParser.serverProfile ['a']] := rfl
  obtain ⟨-, hrows, hthrown⟩ := createProfilesFromJson_replace .insertion 0 jsons oneProfile (by decide)
  rw [hyielded] at hrows
  obtain ⟨hrows, hold⟩ := hrows (List.cons_ne_nil _ _)
  exact ⟨hrows, hold, hthrown⟩

end ProfileManager

end BlackButton
