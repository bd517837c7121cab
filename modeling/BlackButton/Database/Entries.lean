import BlackButton.Database.Backup

/-!
# The rows of imported profiles (`parseJson` in `database/Profile.kt`)

The fallback of a profile that is read is kept in a map whose keys are compared by
content, until the profile has a row. Entries of a document with the same settings
share a key: the last fallback among them goes to the first one, the others get none.

* `accepted_entries`: every entry is an object that `tryParse` accepts.
* `get_fallbacksOf_eq_some_iff`, `get_fallbacksOf`: which fallback the map has for an
  entry.
* `createAll_spec`: the rows of the entries, and which fallback is kept for each.
-/

namespace BlackButton

namespace JsonParser

open Json

/-! ## What is read -/

/-- A profile that has no row yet. -/
structure Fresh (p : Profile) : Prop where
  id : p.id = 0
  fallback : p.udpFallback = none

/-- A profile that was read, with no statistics. -/
structure New (p : Profile) : Prop extends Fresh p where
  tx : p.tx = 0
  rx : p.rx = 0

theorem new_mainSettings {p : Profile} (h : New p) (json : Members) : New (mainSettings json p) := by
  unfold mainSettings
  simp only
  split
  · exact ⟨⟨h.id, h.fallback⟩, h.tx, h.rx⟩
  · exact ⟨⟨h.id, h.fallback⟩, h.tx, h.rx⟩

theorem new_parseProfile {H : HashOrder} {feature : Option Profile} {json : Members} {fallback : Bool} {p : Profile}
    (h : parseProfile H feature json fallback = .ok (some p)) : New p := by
  unfold parseProfile at h
  simp only at h
  split at h
  · cases h
  · cases hp : pluginOf H json with
    | error f =>
      rw [hp] at h
      cases h
    | ok plugin =>
      rw [hp] at h
      simp only [bind, Except.bind, Except.ok.injEq, Option.some.injEq] at h
      subst h
      split
      · cases feature <;> exact ⟨⟨rfl, rfl⟩, rfl, rfl⟩
      · cases feature <;> exact new_mainSettings ⟨⟨rfl, rfl⟩, rfl, rfl⟩ json

theorem new_tryParse {H : HashOrder} {feature : Option Profile} {json : Members} {e : Profile × Option Profile}
    (h : tryParse H feature json = .ok (some e)) : New e.1 ∧ ∀ f, e.2 = some f → New f := by
  rcases tryParse_cases H feature json with ⟨json', fallback, g, -, heq⟩ | heq | ⟨p, q, hp, hq, heq⟩
  · rw [heq] at h
    cases h
  · rw [heq] at h
    cases h
  · rw [heq] at h
    cases h
    refine ⟨new_parseProfile hp, fun f hf => ?_⟩
    obtain ⟨json', hparse⟩ := hq f hf
    exact new_parseProfile hparse

section

variable (H : HashOrder) (feature : Option Profile)

/-- Every entry is an object that `tryParse` accepts. -/
theorem accepted_entries (j : Json) {es : List (Profile × Option Profile)} (h : entries H feature j = .ok es) :
    ∀ e ∈ es, ∃ members, tryParse H feature members = .ok (some e) := by
  have hrule : Collects H feature fun r => ∀ es, r = .ok es →
      ∀ e ∈ es, ∃ members, tryParse H feature members = .ok (some e) := by
    refine ⟨?_, ?_, ?_, ?_⟩
    · rintro es ⟨⟩
      exact List.forall_mem_nil _
    · rintro members f - es ⟨⟩
    · rintro members e ht es ⟨⟩
      exact List.forall_mem_singleton.2 ⟨members, ht⟩
    · rintro es₁ (g | es₂) h₁ h₂ es ⟨⟩
      exact List.forall_mem_append.2 ⟨h₁ es₁ rfl, h₂ es₂ rfl⟩
  exact entries_rule H feature hrule j es h

end

/-- The fallbacks that `process` collects. -/
def fallbacksOf (es : List (Profile × Option Profile)) : List (Profile × Profile) :=
  (es.foldl addEntry .new).fallbackMap

theorem get_addEntry (s : JsonParser) (e : Profile × Option Profile) (p : Profile) :
    Assoc.get (s.addEntry e).fallbackMap p =
      if e.1 = p then e.2.or (Assoc.get s.fallbackMap p) else Assoc.get s.fallbackMap p := by
  unfold addEntry
  cases he : e.2 with
  | none => simp
  | some f =>
    simp only [Assoc.get_put]
    by_cases hp : e.1 = p
    · simp [hp]
    · simp [hp]

theorem nodup_fallbacksOf (es : List (Profile × Option Profile)) : (Assoc.keys (fallbacksOf es)).Nodup := by
  have hfold : ∀ (es : List (Profile × Option Profile)) (s : JsonParser), (Assoc.keys s.fallbackMap).Nodup →
      (Assoc.keys (es.foldl addEntry s).fallbackMap).Nodup := by
    intro es
    induction es with
    | nil => exact fun s h => h
    | cons e es ih =>
      intro s h
      refine ih _ ?_
      unfold addEntry
      cases he : e.2 with
      | none => exact h
      | some f => exact Assoc.nodup_put h _ _
  exact hfold es .new List.nodup_nil

/-- No entry with a fallback comes after an entry with the same settings. -/
def Separate (es : List (Profile × Option Profile)) : Prop :=
  ∀ before e after, es = before ++ e :: after → e.1 ∈ before.map Prod.fst → e.2 = none

/-- A place in a list with one more element: the last one, or a place in the list. -/
theorem concat_eq_split {α : Type} {l before after : List α} {a x : α} (h : l ++ [a] = before ++ x :: after) :
    (before = l ∧ x = a ∧ after = []) ∨ ∃ after', after = after' ++ [a] ∧ l = before ++ x :: after' := by
  rcases List.eq_nil_or_concat' after with rfl | ⟨after', z, rfl⟩
  · obtain ⟨rfl, hlast⟩ := List.append_inj' h rfl
    exact Or.inl ⟨rfl, (List.cons.inj hlast).1.symm, rfl⟩
  · rw [← List.cons_append, ← List.append_assoc] at h
    obtain ⟨hl, hlast⟩ := List.append_inj' h rfl
    exact Or.inr ⟨after', by rw [hlast], hl⟩

theorem get_fallbacksOf_concat (es : List (Profile × Option Profile)) (e : Profile × Option Profile) (p : Profile) :
    Assoc.get (fallbacksOf (es ++ [e])) p =
      if e.1 = p then e.2.or (Assoc.get (fallbacksOf es) p) else Assoc.get (fallbacksOf es) p := by
  unfold fallbacksOf
  rw [List.foldl_append, List.foldl_cons, List.foldl_nil, get_addEntry]

/-- Of equal entries with a fallback, the last one's is kept. -/
theorem get_fallbacksOf_eq_some_iff {es : List (Profile × Option Profile)} {p f : Profile} :
    Assoc.get (fallbacksOf es) p = some f ↔
      ∃ before after, es = before ++ (p, some f) :: after ∧ ∀ x ∈ after, x.1 = p → x.2 = none := by
  induction es using List.reverseRecOn with
  | nil => simp [fallbacksOf, new]
  | append_singleton es e ih =>
    rw [get_fallbacksOf_concat]
    -- the last entry decides if it is one of `p`'s, and has a fallback
    by_cases hlast : ∃ g, e = (p, some g)
    · obtain ⟨g, rfl⟩ := hlast
      rw [if_pos rfl, Option.some_or]
      constructor
      · intro hgf
        exact ⟨es, [], by rw [hgf], by simp⟩
      · rintro ⟨before, after, hsplit, hafter⟩
        rcases concat_eq_split hsplit with ⟨-, hpf, -⟩ | ⟨after', rfl, -⟩
        · exact (Prod.mk.inj hpf).2.symm
        · cases hafter (p, some g) (by simp) rfl
    · have hnone : e.1 = p → e.2 = none := by
        intro hp
        cases hfallback : e.2 with
        | none => rfl
        | some g => exact absurd ⟨g, Prod.ext hp hfallback⟩ hlast
      have hskip : (if e.1 = p then e.2.or (Assoc.get (fallbacksOf es) p) else Assoc.get (fallbacksOf es) p) =
          Assoc.get (fallbacksOf es) p := by
        split
        · rename_i hp
          rw [hnone hp, Option.none_or]
        · rfl
      rw [hskip, ih]
      constructor
      · rintro ⟨before, after, rfl, hafter⟩
        refine ⟨before, after ++ [e], by simp, List.forall_mem_append.2 ⟨hafter, ?_⟩⟩
        intro x hx
        rw [List.mem_singleton.1 hx]
        exact hnone
      · rintro ⟨before, after, hsplit, hafter⟩
        rcases concat_eq_split hsplit with ⟨-, hpf, -⟩ | ⟨after', rfl, hes⟩
        · exact absurd ⟨f, hpf.symm⟩ hlast
        · exact ⟨before, after', hes, fun x hx => hafter x (List.mem_append_left _ hx)⟩

/-- The fallback that is kept for the first of some equal entries is then its own. -/
theorem get_fallbacksOf {es before after : List (Profile × Option Profile)} {e : Profile × Option Profile}
    (h : Separate es) (hes : es = before ++ e :: after) (hfirst : e.1 ∉ before.map Prod.fst) :
    Assoc.get (fallbacksOf es) e.1 = e.2 := by
  have hlater : ∀ x ∈ after, x.1 = e.1 → x.2 = none := by
    intro x hx hsame
    obtain ⟨a, b, rfl⟩ := List.append_of_mem hx
    refine h (before ++ e :: a) x b (by rw [hes]; simp) ?_
    rw [hsame]
    simp
  cases hfallback : e.2 with
  | some f => exact get_fallbacksOf_eq_some_iff.2 ⟨before, after, by rw [hes, ← hfallback], hlater⟩
  | none =>
    rw [Option.eq_none_iff_forall_ne_some]
    intro f hf
    obtain ⟨b, a, hsplit, -⟩ := get_fallbacksOf_eq_some_iff.1 hf
    have hmem : (e.1, some f) ∈ before ++ e :: after := by
      rw [← hes, hsplit]
      simp
    rw [List.mem_append, List.mem_cons] at hmem
    rcases hmem with hmem | hmem | hmem
    · exact hfirst (List.mem_map.2 ⟨_, hmem, rfl⟩)
    · rw [← hmem] at hfallback
      cases hfallback
    · cases hlater _ hmem rfl

/-! ## Creating the rows -/

theorem getElem?_concat_iff {α : Type} {l : List α} {a x : α} {i : ℕ} :
    (l ++ [a])[i]? = some x ↔ l[i]? = some x ∨ i = l.length ∧ x = a := by
  rw [List.getElem?_append]
  split
  · rename_i hi
    constructor
    · exact Or.inl
    · rintro (h | ⟨rfl, -⟩)
      · exact h
      · exact absurd hi (lt_irrefl _)
  · rename_i hi
    have hnone : l[i]? = none := List.getElem?_eq_none (by omega)
    rw [hnone, List.getElem?_singleton]
    constructor
    · intro h
      split at h
      · exact Or.inr ⟨by omega, (Option.some.inj h).symm⟩
      · cases h
    · rintro (h | ⟨rfl, rfl⟩)
      · cases h
      · simp

/-- After the profiles `done`: the rows that were added are those of the objects, in their order, and the map has
the fallbacks of the profiles that are still to be created, and of the first of equal ones that were. -/
structure Created (t : Table) (fallbacks : List (Profile × Profile)) (done : List Profile) (w : World Unit)
    (map : List (Profile × Profile)) : Prop where
  rows : w.table.rows = t.rows ++ w.objects
  seq : w.table.seq = t.seq + done.length
  length : w.objects.length = done.length
  object : ∀ (i : ℕ) (p o : Profile), done[i]? = some p → w.objects[i]? = some o →
    o.id = t.seq + 1 + i ∧ Backup.settings o = Backup.settings p ∧ o.udpFallback = none
  nodup : (Assoc.keys map).Nodup
  keys : ∀ k ∈ Assoc.keys map, k.id = 0 ∨ k ∈ w.objects
  waiting : ∀ q, q.id = 0 → Assoc.get map q = if q ∈ done then none else Assoc.get fallbacks q
  kept : ∀ (i : ℕ) (p o : Profile), done[i]? = some p → w.objects[i]? = some o →
    Assoc.get map o = if p ∈ done.take i then none else Assoc.get fallbacks p

section Create

variable {t : Table} {fallbacks map : List (Profile × Profile)} {done : List Profile} {w : World Unit}

/-- The objects are rows, so their ids were used. -/
theorem le_seq_of_rows {rows : List Profile} (h : w.table.rows = rows ++ w.objects) :
    ∀ o ∈ w.objects, o.id ≤ w.table.seq := by
  intro o ho
  refine w.table.le_seq o ?_
  rw [h]
  exact List.mem_append_right _ ho

theorem Created.le_seq (h : Created t fallbacks done w map) : ∀ o ∈ w.objects, o.id ≤ w.table.seq :=
  le_seq_of_rows h.rows

/-- The profile of an object. -/
theorem Created.profile (h : Created t fallbacks done w map) {o : Profile} (ho : o ∈ w.objects) :
    ∃ (i : ℕ) (p : Profile), done[i]? = some p ∧ w.objects[i]? = some o := by
  obtain ⟨i, hi⟩ := List.mem_iff_getElem?.1 ho
  have hlt : i < done.length := by
    rw [← h.length]
    exact (List.getElem?_eq_some_iff.1 hi).1
  exact ⟨i, done[i], List.getElem?_eq_getElem hlt, hi⟩

/-- The object of a profile. -/
theorem Created.exists_object (h : Created t fallbacks done w map) {i : ℕ} {p : Profile} (hp : done[i]? = some p) :
    ∃ o, w.objects[i]? = some o := by
  have hlt : i < w.objects.length := by
    rw [h.length]
    exact (List.getElem?_eq_some_iff.1 hp).1
  exact ⟨_, List.getElem?_eq_getElem hlt⟩

theorem Created.new (h : Created t fallbacks done w map) : ∀ o ∈ w.objects, t.seq < o.id := by
  intro o ho
  obtain ⟨i, p, hp, hi⟩ := h.profile ho
  have := (h.object i p o hp hi).1
  omega

/-- The object that `create` returns. -/
theorem object_createProfile (w : World Unit) (hw : ∀ o ∈ w.objects, o.id ≤ w.table.seq) (p : Profile) :
    ∃ o, (w.createProfile p).1.objects = w.objects ++ [o] ∧ (w.createProfile p).1.table.rows = w.table.rows ++ [o] ∧
      (w.createProfile p).1.object (w.createProfile p).2 = some o ∧ o.id = w.table.seq + 1 ∧
      Backup.settings o = Backup.settings p ∧ o.udpFallback = p.udpFallback := by
  refine ⟨((p.withId 0).withOrder (w.table.nextOrder.getD 0)).withId (w.table.seq + 1), rfl, rfl, ?_, rfl, rfl, rfl⟩
  have hnone : w.objects.find? (fun o => o.id = w.table.seq + 1) = none := by
    rw [List.find?_eq_none]
    intro o ho
    have := hw o ho
    simp only [decide_eq_true_eq]
    omega
  unfold World.object World.createProfile
  simp only
  rw [List.find?_append, hnone]
  simp

/-- The world and the map after one turn, whether there was a fallback or not. -/
theorem createNext_spec (h : Created t fallbacks done w map) (ht : 0 ≤ t.seq) {p : Profile} (hp : Fresh p) :
    ∃ o map', createNext World.createProfile (w, map) p = ((w.createProfile p).1, map') ∧
      (w.createProfile p).1.objects = w.objects ++ [o] ∧ (w.createProfile p).1.table.rows = w.table.rows ++ [o] ∧
      o.id = w.table.seq + 1 ∧ Backup.settings o = Backup.settings p ∧ o.udpFallback = none ∧
      (Assoc.keys map').Nodup ∧ (∀ k ∈ Assoc.keys map', k ∈ Assoc.keys map ∨ k = o) ∧
      ∀ q, Assoc.get map' q = if o = q then Assoc.get map p else if p = q then none else Assoc.get map q := by
  obtain ⟨o, hobjects, hrows, hobject, hid, hsettings, hfallback⟩ := object_createProfile w h.le_seq p
  have hseq : 0 ≤ w.table.seq := by
    rw [h.seq]
    omega
  have hpo : p ≠ o := by
    rintro rfl
    have := hp.id
    omega
  -- the key of the new row is not among the keys so far: those have no row, or an earlier one
  have hnew : Assoc.get map o = none := by
    rw [Assoc.get_eq_none]
    intro hk
    rcases h.keys o hk with hzero | hold
    · omega
    · have := h.le_seq o hold
      omega
  have hremoved : ∀ k ∈ Assoc.keys (Assoc.remove map p), k ∈ Assoc.keys map :=
    fun k hk => (List.filter_sublist.map Prod.fst).subset hk
  have hnodup : (Assoc.keys (Assoc.remove map p)).Nodup := Assoc.nodup_remove h.nodup p
  rw [hp.fallback] at hfallback
  cases hget : Assoc.get map p with
  | none =>
    refine ⟨o, Assoc.remove map p, ?_, hobjects, hrows, hid, hsettings, hfallback, hnodup,
      fun k hk => Or.inl (hremoved k hk), fun q => ?_⟩
    · unfold createNext
      simp only [hget]
    · rw [Assoc.get_remove]
      by_cases hq : o = q
      · rw [if_pos hq, ← hq, if_neg hpo, hnew]
      · rw [if_neg hq]
  | some f =>
    refine ⟨o, Assoc.put (Assoc.remove map p) o f, ?_, hobjects, hrows, hid, hsettings, hfallback,
      Assoc.nodup_put hnodup o f, fun k hk => ?_, fun q => ?_⟩
    · unfold createNext
      simp only [hget, hobject, Option.getD_some]
    · rw [Assoc.keys_put] at hk
      split at hk
      · exact Or.inl (hremoved k hk)
      · rcases List.mem_append.1 hk with hk | hk
        · exact Or.inl (hremoved k hk)
        · exact Or.inr (List.mem_singleton.1 hk)
    · rw [Assoc.get_put, Assoc.get_remove]

/-- **One profile is created**, and its fallback moves to its object. -/
theorem Created.next (h : Created t fallbacks done w map) (ht : 0 ≤ t.seq) {p : Profile} (hp : Fresh p) :
    Created t fallbacks (done ++ [p]) (createNext World.createProfile (w, map) p).1
      (createNext World.createProfile (w, map) p).2 := by
  obtain ⟨o, map', hnext, hobjects, hrows, hid, hsettings, hfallback, hnodup, hkeys, hget⟩ := createNext_spec h ht hp
  rw [hnext]
  have hseq : (w.createProfile p).1.table.seq = w.table.seq + 1 := rfl
  have hlength := h.length
  -- the objects are in the order of the profiles
  have hplace : ∀ {i : ℕ} {q r : Profile}, (done ++ [p])[i]? = some q → (w.objects ++ [o])[i]? = some r →
      done[i]? = some q ∧ w.objects[i]? = some r ∨ i = done.length ∧ q = p ∧ r = o := by
    intro i q r hq hr
    rcases getElem?_concat_iff.1 hq with hq | ⟨hi, hq⟩
    · rcases getElem?_concat_iff.1 hr with hr | ⟨hi, -⟩
      · exact Or.inl ⟨hq, hr⟩
      · have := (List.getElem?_eq_some_iff.1 hq).1
        omega
    · rcases getElem?_concat_iff.1 hr with hr | ⟨-, hr⟩
      · have := (List.getElem?_eq_some_iff.1 hr).1
        omega
      · exact Or.inr ⟨hi, hq, hr⟩
  refine ⟨?_, ?_, ?_, ?_, hnodup, ?_, ?_, ?_⟩
  · rw [hrows, hobjects, h.rows, List.append_assoc]
  · rw [hseq, h.seq, List.length_append]
    simp only [List.length_singleton]
    omega
  · rw [hobjects, List.length_append, List.length_append, hlength]
    rfl
  · rw [hobjects]
    intro i q r hq hr
    rcases hplace hq hr with ⟨hq, hr⟩ | ⟨rfl, rfl, rfl⟩
    · exact h.object i q r hq hr
    · rw [h.seq] at hid
      exact ⟨by omega, hsettings, hfallback⟩
  · intro k hk
    rw [hobjects, List.mem_append, List.mem_singleton]
    rcases hkeys k hk with hk | hk
    · rcases h.keys k hk with hzero | hold
      · exact Or.inl hzero
      · exact Or.inr (Or.inl hold)
    · exact Or.inr (Or.inr hk)
  · intro q hq
    have hqo : o ≠ q := by
      rintro rfl
      have := h.seq
      omega
    rw [hget, if_neg hqo, h.waiting q hq]
    by_cases hpq : p = q
    · simp [hpq]
    · have hqp : q ≠ p := fun h => hpq h.symm
      simp [hpq, hqp]
  · rw [hobjects]
    intro i q r hq hr
    rcases hplace hq hr with ⟨hq, hr⟩ | ⟨rfl, rfl, rfl⟩
    · have hmem := List.mem_of_getElem? hr
      have hro : o ≠ r := by
        rintro rfl
        have := h.le_seq _ hmem
        omega
      have hrp : p ≠ r := by
        rintro rfl
        have := h.new _ hmem
        have := hp.id
        omega
      have hi : i ≤ done.length := (List.getElem?_eq_some_iff.1 hq).1.le
      rw [hget, if_neg hro, if_neg hrp, h.kept i q r hq hr, List.take_append_of_le_length hi]
    · rw [hget, if_pos rfl, h.waiting q hp.id, List.take_left']
      rfl

theorem createAll_spec (ht : 0 ≤ t.seq) (ps : List Profile) :
    ∀ {done : List Profile} {w : World Unit} {map : List (Profile × Profile)}, Created t fallbacks done w map →
      (∀ p ∈ ps, Fresh p) → Created t fallbacks (done ++ ps)
        (ps.foldl (createNext World.createProfile) (w, map)).1
        (ps.foldl (createNext World.createProfile) (w, map)).2 := by
  induction ps with
  | nil =>
    intro done w map h _
    rw [List.append_nil]
    exact h
  | cons p ps ih =>
    intro done w map h hps
    rw [List.forall_mem_cons] at hps
    rw [List.foldl_cons, List.append_cons]
    exact ih (h.next ht hps.1) hps.2

end Create

end JsonParser

end BlackButton
