import BlackButton.Subscription.Model

/-!
# The preprocessing phase

`kept` are the rows that stay: a row of a subscription is dropped if an earlier one
has its pair. `preprocessAll_spec`: **the phase ends well and leaves the rows that
stay**, marks the active ones obsolete in memory, and has them in `subscriptions`
under their pairs.
-/

namespace BlackButton

namespace Sync

/-- A row of a subscription. -/
def subscribed (p : Profile) : Bool := p.subscription ≠ .userConfigured

@[simp] theorem subscribed_iff (p : Profile) : subscribed p = true ↔ p.subscription ≠ .userConfigured := by
  simp [subscribed]

/-- Some row of a subscription has the pair. -/
def taken (rows : List Profile) (k : Key) : Bool := rows.any fun q => subscribed q && q.pair = k

theorem taken_iff {rows : List Profile} {k : Key} :
    taken rows k = true ↔ ∃ q ∈ rows, q.subscription ≠ .userConfigured ∧ q.pair = k := by
  simp [taken]

/-- The next row stays unless its pair is taken. -/
def keep (acc : List Profile) (r : Profile) : List Profile :=
  if subscribed r && taken acc r.pair then acc else acc ++ [r]

/-- The rows that stay. -/
def kept (rows : List Profile) : List Profile := rows.foldl keep []

theorem kept_append (rows : List Profile) (r : Profile) : kept (rows ++ [r]) = keep (kept rows) r := by
  simp [kept]

theorem mem_of_mem_kept {rows : List Profile} {r : Profile} (h : r ∈ kept rows) : r ∈ rows := by
  induction rows using List.reverseRecOn with
  | nil => exact h
  | append_singleton rows q ih =>
    rw [kept_append, keep] at h
    split at h
    · exact List.mem_append_left _ (ih h)
    · rcases List.mem_append.1 h with h | h
      · exact List.mem_append_left _ (ih h)
      · exact List.mem_append_right _ h

theorem kept_of_user {rows : List Profile} {r : Profile} (h : r ∈ rows)
    (hu : r.subscription = .userConfigured) : r ∈ kept rows := by
  induction rows using List.reverseRecOn with
  | nil => exact h
  | append_singleton rows q ih =>
    rw [kept_append, keep]
    rcases List.mem_append.1 h with h | h
    · split
      · exact ih h
      · exact List.mem_append_left _ (ih h)
    · rw [List.mem_singleton] at h
      subst h
      rw [if_neg (by simp [hu])]
      exact List.mem_append_right _ List.mem_cons_self

/-- A row that is dropped follows a row with its pair. -/
theorem dropped {rows : List Profile} {r : Profile} (h : r ∈ rows) (hk : r ∉ kept rows) :
    r.subscription ≠ .userConfigured ∧ ∃ pre post, rows = pre ++ r :: post ∧
      ∃ q ∈ pre, q.subscription ≠ .userConfigured ∧ q.pair = r.pair := by
  induction rows using List.reverseRecOn with
  | nil => cases h
  | append_singleton rows s ih =>
    rw [kept_append, keep] at hk
    split at hk
    · rename_i hs
      rcases List.mem_append.1 h with h | h
      · obtain ⟨hsub, pre, post, rfl, hq⟩ := ih h hk
        exact ⟨hsub, pre, post ++ [s], by simp, hq⟩
      · rw [List.mem_singleton] at h
        subst h
        rw [Bool.and_eq_true, subscribed_iff, taken_iff] at hs
        obtain ⟨hsub, q, hq, hsq, hp⟩ := hs
        exact ⟨hsub, rows, [], rfl, q, mem_of_mem_kept hq, hsq, hp⟩
    · rw [List.mem_append, not_or, List.mem_singleton] at hk
      rcases List.mem_append.1 h with h | h
      · obtain ⟨hsub, pre, post, rfl, hq⟩ := ih h hk.1
        exact ⟨hsub, pre, post ++ [s], by simp, hq⟩
      · exact absurd (List.mem_singleton.1 h) hk.2

/-- Without duplicates, all rows stay. -/
theorem kept_eq_self {rows : List Profile} (hnd : rows.Nodup)
    (h : ∀ q ∈ rows, ∀ r ∈ rows, q.subscription ≠ .userConfigured → r.subscription ≠ .userConfigured →
      q.pair = r.pair → q = r) : kept rows = rows := by
  induction rows using List.reverseRecOn with
  | nil => rfl
  | append_singleton rows s ih =>
    have hrows : kept rows = rows :=
      ih (hnd.sublist (List.sublist_append_left _ _))
        (fun q hq r hr => h q (List.mem_append_left _ hq) r (List.mem_append_left _ hr))
    rw [kept_append, hrows, keep, if_neg]
    rw [Bool.and_eq_true, subscribed_iff, taken_iff]
    rintro ⟨hs, q, hq, hsq, hp⟩
    have heq := h q (List.mem_append_left _ hq) s (by simp) hsq hs hp
    subst heq
    rw [List.nodup_append] at hnd
    exact hnd.2.2 q hq q (by simp) rfl

/-! ## The loop -/

/-- The object of a listed row after the phase. -/
def marked (rows : List Profile) (r : Profile) : Profile :=
  if r.subscription = .active ∧ r ∈ kept rows then r.withStatus .obsolete else r

@[simp] theorem id_marked (rows : List Profile) (r : Profile) : (marked rows r).id = r.id := by
  unfold marked
  split <;> rfl

@[simp] theorem pair_marked (rows : List Profile) (r : Profile) : (marked rows r).pair = r.pair := by
  unfold marked
  split <;> rfl

theorem marked_of_not_active {rows : List Profile} {r : Profile} (h : r.subscription ≠ .active) :
    marked rows r = r := by
  unfold marked
  rw [if_neg (fun ha => h ha.1)]

/-- The phase marks rows of subscriptions only. -/
theorem user_marked_iff {rows : List Profile} {r : Profile} :
    (marked rows r).subscription = .userConfigured ↔ r.subscription = .userConfigured := by
  unfold marked
  split
  · rename_i hr
    simp [hr.1]
  · exact Iff.rfl

/-- The row with this id is dropped. -/
def Drops (rows : List Profile) (id : ℤ) : Prop := ∃ r ∈ rows, r.id = id ∧ r ∉ kept rows

/-- The state after the rows `pre`, with the rows `rest` to go. -/
structure Preprocessed (t : Table) (profileId : ℤ) (pre rest : List Profile) (w : World Sync) : Prop where
  rows : w.table.rows = kept pre ++ rest
  seq : w.table.seq = t.seq
  ids : w.objects.map Profile.id = t.ids
  todo : ∀ r ∈ rest, r ∈ w.objects
  done : ∀ r ∈ pre, marked pre r ∈ w.objects
  subs_nodup : (Assoc.keys w.extra.subscriptions).Nodup
  subs : ∀ k id, Assoc.get w.extra.subscriptions k = some id ↔
    ∃ r ∈ kept pre, r.subscription ≠ .userConfigured ∧ r.pair = k ∧ r.id = id
  toUpdate : ∀ id, id ∈ w.extra.toUpdate ↔ ∃ r ∈ kept pre, r.subscription = .active ∧ r.id = id
  handed : w.extra.handed = []
  current : Drops pre profileId → w.extra.profileId = 0
  other : ¬Drops pre profileId → w.extra.profileId = profileId

theorem mem_kept_append {pre : List Profile} {q r : Profile} (hne : q ≠ r) :
    q ∈ kept (pre ++ [r]) ↔ q ∈ kept pre := by
  rw [kept_append, keep]
  split
  · exact Iff.rfl
  · simp [hne]

theorem marked_append {pre : List Profile} {q r : Profile} (hne : q ≠ r) :
    marked (pre ++ [r]) q = marked pre q := by
  unfold marked
  simp only [mem_kept_append hne]

/-- The objects of the rows before, and of this one if it is not marked. -/
theorem marked_step {pre : List Profile} {objects : List Profile} {r : Profile}
    (hfresh : ∀ q ∈ pre, q ≠ r) (hpre : ∀ q ∈ pre, marked pre q ∈ objects)
    (hr : marked (pre ++ [r]) r ∈ objects) : ∀ q ∈ pre ++ [r], marked (pre ++ [r]) q ∈ objects := by
  intro q hq
  rcases List.mem_append.1 hq with hq | hq
  · rw [marked_append (hfresh q hq)]
    exact hpre q hq
  · rw [List.mem_singleton.1 hq]
    exact hr

/-- The row that goes is the one with its id. -/
theorem filter_ne_id {pre rest : List Profile} {r : Profile}
    (hnd : ((pre ++ r :: rest).map Profile.id).Nodup) :
    (pre ++ r :: rest).filter (fun q => q.id ≠ r.id) = pre ++ rest := by
  have hne : ∀ q, q ∈ pre ∨ q ∈ rest → q.id ≠ r.id := by
    rw [List.map_append, List.map_cons, List.nodup_append, List.nodup_cons] at hnd
    rintro q (hq | hq)
    · exact hnd.2.2 q.id (List.mem_map_of_mem hq) r.id List.mem_cons_self
    · intro h
      exact hnd.2.1.1 (h ▸ List.mem_map_of_mem hq)
  rw [List.filter_append, List.filter_cons]
  simp only [ne_eq, decide_not, decide_true, Bool.not_true, Bool.false_eq_true, if_false]
  rw [List.filter_eq_self.2, List.filter_eq_self.2]
  · intro q hq
    simpa using hne q (Or.inr hq)
  · intro q hq
    simpa using hne q (Or.inl hq)

theorem drops_append {pre : List Profile} {r : Profile} {id : ℤ} (hfresh : ∀ q ∈ pre, q ≠ r) :
    Drops (pre ++ [r]) id ↔ Drops pre id ∨ (r.id = id ∧ r ∉ kept (pre ++ [r])) := by
  constructor
  · rintro ⟨q, hq, hqid, hqk⟩
    rcases List.mem_append.1 hq with hq | hq
    · rw [mem_kept_append (hfresh q hq)] at hqk
      exact Or.inl ⟨q, hq, hqid, hqk⟩
    · rw [List.mem_singleton] at hq
      subst hq
      exact Or.inr ⟨hqid, hqk⟩
  · rintro (⟨q, hq, hqid, hqk⟩ | ⟨hqid, hqk⟩)
    · refine ⟨q, List.mem_append_left _ hq, hqid, ?_⟩
      rw [mem_kept_append (hfresh q hq)]
      exact hqk
    · exact ⟨r, by simp, hqid, hqk⟩

section Step

variable {t : Table} {profileId : ℤ} {pre rest : List Profile} {r : Profile} {w : World Sync}

theorem fresh_of_split (ht : t.rows = pre ++ r :: rest) :
    (∀ q ∈ pre, q.id ≠ r.id) ∧ ∀ q ∈ rest, q.id ≠ r.id := by
  have hnd := t.nodup
  rw [ht, List.map_append, List.map_cons, List.nodup_append, List.nodup_cons] at hnd
  constructor
  · intro q hq
    exact hnd.2.2 q.id (List.mem_map_of_mem hq) r.id List.mem_cons_self
  · intro q hq h
    exact hnd.2.1.1 (h ▸ List.mem_map_of_mem hq)

/-- A row of the user is passed over. -/
theorem preprocess_user (ht : t.rows = pre ++ r :: rest) (h : Preprocessed t profileId pre (r :: rest) w)
    (hu : r.subscription = .userConfigured) : Preprocessed t profileId (pre ++ [r]) rest w := by
  have hfresh : ∀ q ∈ pre, q ≠ r := fun q hq hqr => (fresh_of_split ht).1 q hq (by rw [hqr])
  have hk : kept (pre ++ [r]) = kept pre ++ [r] := by
    rw [kept_append, keep, if_neg (by simp [hu])]
  have hm : marked (pre ++ [r]) r = r := by
    unfold marked
    rw [if_neg (by simp [hu])]
  refine ⟨by rw [hk, h.rows]; simp, h.seq, h.ids, ?_, ?_, h.subs_nodup, ?_, ?_, h.handed, ?_, ?_⟩
  · intro q hq
    exact h.todo q (List.mem_cons_of_mem r hq)
  · exact marked_step hfresh h.done (by rw [hm]; exact h.todo r List.mem_cons_self)
  · intro k id
    rw [h.subs, hk]
    simp [hu, or_and_right, exists_or]
  · intro id
    rw [h.toUpdate, hk]
    simp [hu, or_and_right, exists_or]
  · rw [drops_append hfresh, hk]
    rintro (hd | ⟨-, hd⟩)
    · exact h.current hd
    · simp at hd
  · rw [drops_append hfresh, not_or]
    rintro ⟨hd, -⟩
    exact h.other hd

/-- A row whose pair is taken is deleted. -/
theorem preprocess_drop (ht : t.rows = pre ++ r :: rest) (h : Preprocessed t profileId pre (r :: rest) w)
    (hu : r.subscription ≠ .userConfigured) (htaken : taken (kept pre) r.pair = true) :
    ∃ w', preprocess profileId w r = (w', none) ∧ Preprocessed t profileId (pre ++ [r]) rest w' := by
  have hfresh : ∀ q ∈ pre, q ≠ r := fun q hq hqr => (fresh_of_split ht).1 q hq (by rw [hqr])
  have hk : kept (pre ++ [r]) = kept pre := by
    rw [kept_append, keep, if_pos (by simp [hu, htaken])]
  have hrk : r ∉ kept (pre ++ [r]) := by
    rw [hk]
    exact fun hr => hfresh r (mem_of_mem_kept hr) rfl
  have hm : marked (pre ++ [r]) r = r := by
    unfold marked
    rw [if_neg (by simp [hrk])]
  have hdone := marked_step hfresh h.done (by rw [hm]; exact h.todo r List.mem_cons_self)
  obtain ⟨q, hq, hsq, hpq⟩ := taken_iff.1 htaken
  have hget : Assoc.get w.extra.subscriptions r.pair = some q.id :=
    (h.subs _ _).2 ⟨q, hq, hsq, hpq, rfl⟩
  have hid : r.id ∈ w.table.ids := by
    rw [Table.mem_ids, h.rows]
    exact ⟨r, by simp, rfl⟩
  have hdel : (w.table.delete r.id).rows = kept (pre ++ [r]) ++ rest := by
    have hnd : ((kept pre ++ r :: rest).map Profile.id).Nodup := by rw [← h.rows]; exact w.table.nodup
    have hfilter : (w.table.delete r.id).rows = w.table.rows.filter (fun q => q.id ≠ r.id) := rfl
    rw [hfilter, h.rows, filter_ne_id hnd, hk]
  have htodo : ∀ q ∈ rest, q ∈ w.objects := fun q hq => h.todo q (List.mem_cons_of_mem r hq)
  have hsubs := h.subs
  have hupd := h.toUpdate
  rw [← hk] at hsubs hupd
  refine ⟨_, by unfold preprocess World.delProfile; rw [if_neg hu, hget, if_pos hid], ?_⟩
  by_cases hcur : profileId = r.id
  · rw [if_pos hcur]
    refine ⟨hdel, h.seq, h.ids, htodo, hdone, h.subs_nodup, hsubs, hupd, h.handed, fun _ => rfl, ?_⟩
    intro hd
    exact absurd ((drops_append hfresh).2 (Or.inr ⟨hcur.symm, hrk⟩)) hd
  · rw [if_neg hcur]
    refine ⟨hdel, h.seq, h.ids, htodo, hdone, h.subs_nodup, hsubs, hupd, h.handed, ?_, ?_⟩
    · rw [drops_append hfresh]
      rintro (hd | ⟨hd, -⟩)
      · exact h.current hd
      · exact absurd hd.symm hcur
    · rw [drops_append hfresh, not_or]
      rintro ⟨hd, -⟩
      exact h.other hd

/-- A row whose pair is new goes into the map. -/
theorem preprocess_new (ht : t.rows = pre ++ r :: rest) (h : Preprocessed t profileId pre (r :: rest) w)
    (hu : r.subscription ≠ .userConfigured) (htaken : ¬taken (kept pre) r.pair = true) :
    ∃ w', preprocess profileId w r = (w', none) ∧ Preprocessed t profileId (pre ++ [r]) rest w' := by
  obtain ⟨hpre, hrest⟩ := fresh_of_split ht
  have hfresh : ∀ q ∈ pre, q ≠ r := fun q hq hqr => hpre q hq (by rw [hqr])
  have hk : kept (pre ++ [r]) = kept pre ++ [r] := by
    rw [kept_append, keep, if_neg (by simp [htaken])]
  have hget : Assoc.get w.extra.subscriptions r.pair = none := by
    rw [Option.eq_none_iff_forall_ne_some]
    intro id hg
    obtain ⟨q, hq, hs, hp, -⟩ := (h.subs _ _).1 hg
    exact htaken (taken_iff.2 ⟨q, hq, hs, hp⟩)
  have hrows : w.table.rows = kept (pre ++ [r]) ++ rest := by rw [hk, h.rows]; simp
  have htodo : ∀ q ∈ rest, q ∈ w.objects := fun q hq => h.todo q (List.mem_cons_of_mem r hq)
  have hobj : r ∈ w.objects := h.todo r List.mem_cons_self
  have hsubs : ∀ k id, Assoc.get (Assoc.put w.extra.subscriptions r.pair r.id) k = some id ↔
      ∃ r' ∈ kept (pre ++ [r]), r'.subscription ≠ .userConfigured ∧ r'.pair = k ∧ r'.id = id := by
    intro k id
    rw [Assoc.get_put_eq_some hget, h.subs, hk]
    simp only [List.mem_append, List.mem_singleton, or_and_right, exists_or, exists_eq_left]
    refine or_congr_right ?_
    constructor
    · rintro ⟨rfl, rfl⟩
      exact ⟨hu, rfl, rfl⟩
    · rintro ⟨-, rfl, rfl⟩
      exact ⟨rfl, rfl⟩
  have hdrops : Drops (pre ++ [r]) profileId ↔ Drops pre profileId := by
    rw [drops_append hfresh, hk]
    simp
  have hnd := Assoc.nodup_put h.subs_nodup r.pair r.id
  unfold preprocess
  rw [if_neg hu, hget]
  by_cases ha : r.subscription = .active
  · have hm : marked (pre ++ [r]) r = r.withStatus .obsolete := by
      unfold marked
      rw [if_pos ⟨ha, by rw [hk]; simp⟩]
    -- the other objects are not touched
    have hkeep : ∀ q ∈ w.objects, q.id ≠ r.id → q ∈ replace w.objects (r.withStatus .obsolete) :=
      fun q hq hne => mem_replace.2 (Or.inl ⟨hq, hne⟩)
    simp only [ha, if_true]
    refine ⟨_, rfl, hrows, h.seq, ?_, ?_, ?_, hnd, hsubs, ?_, h.handed, ?_, ?_⟩
    · exact (ids_replace _ _).trans h.ids
    · exact fun q hq => hkeep q (htodo q hq) (hrest q hq)
    · refine marked_step hfresh ?_ ?_
      · exact fun q hq => hkeep _ (h.done q hq) (by rw [id_marked]; exact hpre q hq)
      · have hrid : r.id ∈ w.objects.map Profile.id := List.mem_map_of_mem hobj
        rw [hm]
        exact mem_replace.2 (Or.inr ⟨rfl, hrid⟩)
    · intro id
      show id ∈ r.id :: w.extra.toUpdate ↔ _
      rw [List.mem_cons, h.toUpdate, hk]
      simp only [List.mem_append, List.mem_singleton, or_and_right, exists_or, exists_eq_left, ha, true_and]
      rw [or_comm, eq_comm]
    · rw [hdrops]; exact h.current
    · rw [hdrops]; exact h.other
  · have hm : marked (pre ++ [r]) r = r := by
      unfold marked
      rw [if_neg (by simp [ha])]
    simp only [ha, if_false]
    refine ⟨_, rfl, hrows, h.seq, h.ids, htodo, ?_, hnd, hsubs, ?_, h.handed, ?_, ?_⟩
    · exact marked_step hfresh h.done (by rw [hm]; exact hobj)
    · intro id
      rw [h.toUpdate, hk]
      simp [ha, or_and_right, exists_or]
    · rw [hdrops]; exact h.current
    · rw [hdrops]; exact h.other

end Step

/-- **One turn of the phase.** -/
theorem preprocess_step {t : Table} {profileId : ℤ} {pre rest : List Profile} {r : Profile} {w : World Sync}
    (ht : t.rows = pre ++ r :: rest) (h : Preprocessed t profileId pre (r :: rest) w) :
    ∃ w', preprocess profileId w r = (w', none) ∧ Preprocessed t profileId (pre ++ [r]) rest w' := by
  by_cases hu : r.subscription = .userConfigured
  · exact ⟨w, by unfold preprocess; rw [if_pos hu], preprocess_user ht h hu⟩
  · by_cases htaken : taken (kept pre) r.pair = true
    · exact preprocess_drop ht h hu htaken
    · exact preprocess_new ht h hu htaken

/-- The phase from any point on. -/
theorem preprocessAll_rest {t : Table} {profileId : ℤ} (rest : List Profile) :
    ∀ {pre : List Profile} {w : World Sync}, t.rows = pre ++ rest → Preprocessed t profileId pre rest w →
      ∃ w', preprocessAll profileId rest w = (w', none) ∧ Preprocessed t profileId t.rows [] w' := by
  induction rest with
  | nil =>
    intro pre w ht h
    rw [List.append_nil] at ht
    exact ⟨w, rfl, by rw [ht]; exact h⟩
  | cons r rest ih =>
    intro pre w ht h
    obtain ⟨w', hstep, h'⟩ := preprocess_step ht h
    obtain ⟨w'', hrest, h''⟩ := ih (by rw [ht]; simp) h'
    refine ⟨w'', ?_, h''⟩
    rw [preprocessAll, hstep]
    exact hrest

/-- **The preprocessing phase** ends well. -/
theorem preprocessAll_spec (t : Table) (profileId : ℤ) :
    ∃ w, preprocessAll profileId t.rows (init t profileId) = (w, none) ∧
      Preprocessed t profileId t.rows [] w := by
  refine preprocessAll_rest t.rows (List.nil_append _).symm ?_
  refine ⟨rfl, rfl, rfl, fun r hr => hr, by simp, List.nodup_nil, ?_, ?_, rfl, ?_, fun _ => rfl⟩
  · intro k id
    simp [init, kept]
  · intro id
    simp [init, kept]
  · rintro ⟨r, hr, -⟩
    cases hr

end Sync

end BlackButton
