import BlackButton.Subscription.Preprocess

/-!
# The invariant of a subscription sync

`Inv` relates the rows, the objects in memory, the map `subscriptions` and the set
`toUpdate` while the documents are read: the map has exactly the rows of
subscriptions, an object is active exactly if its pair was handed to the callback, and
a row whose status is not the one of its object is in `toUpdate`.

* `create_inv`, `link_inv`: the callback and the resolving of a fallback keep it.
* `readDocuments_inv`: so does every document, whatever it throws, and the check of
  `updateProfile` does not fail.
-/

namespace BlackButton

namespace Sync

/-- What holds while the documents are read, for a sync that started with table `t`. -/
structure Inv (t : Table) (profileId : ℤ) (w : World Sync) : Prop where
  nodup : (w.objects.map Profile.id).Nodup
  le_seq : ∀ o ∈ w.objects, o.id ≤ w.table.seq
  seq_le : t.seq ≤ w.table.seq
  -- each row has an object with its pair, and both are the user's or neither is
  object : ∀ r ∈ w.table.rows, ∃ o ∈ w.objects, o.id = r.id ∧ o.pair = r.pair ∧
    (o.subscription = .userConfigured ↔ r.subscription = .userConfigured)
  -- the user's rows are those of the beginning
  user : ∀ r, r.subscription = .userConfigured → (r ∈ w.table.rows ↔ r ∈ t.rows)
  -- `subscriptions` has the rows of subscriptions, under their pairs
  subs_object : ∀ k id, Assoc.get w.extra.subscriptions k = some id → id ∈ w.table.ids ∧
    ∃ o ∈ w.objects, o.id = id ∧ o.pair = k ∧ o.subscription ≠ .userConfigured
  row_subs : ∀ r ∈ w.table.rows, r.subscription ≠ .userConfigured →
    Assoc.get w.extra.subscriptions r.pair = some r.id
  -- an object is active if its pair was handed to the callback
  active : ∀ o ∈ w.objects, Assoc.get w.extra.subscriptions o.pair = some o.id →
    (o.subscription = .active ↔ o.pair ∈ w.extra.handed)
  -- a row is as its object, or will be
  written : ∀ r ∈ w.table.rows, ∀ o ∈ w.objects, o.id = r.id →
    o.subscription = r.subscription ∨ r.id ∈ w.extra.toUpdate
  toUpdate : ∀ id ∈ w.extra.toUpdate, id ∈ t.ids ∧ ∃ k, Assoc.get w.extra.subscriptions k = some id
  obsolete : ∀ o ∈ w.objects, o.subscription = .obsolete → o.id ∈ t.ids
  -- only the rows that were dropped at the beginning are gone
  kept : ∀ r ∈ t.rows, r.id ∈ w.table.ids ↔ r ∈ kept t.rows
  current : Drops t.rows profileId → w.extra.profileId = 0
  other : ¬Drops t.rows profileId → w.extra.profileId = profileId

variable {t : Table} {profileId : ℤ} {w : World Sync}

theorem Inv.object_eq (h : Inv t profileId w) {o o' : Profile} (ho : o ∈ w.objects) (ho' : o' ∈ w.objects)
    (hid : o.id = o'.id) : o = o' :=
  List.inj_on_of_nodup_map h.nodup ho ho' hid

/-- The objects under the pairs are told apart by them. -/
theorem Inv.pair_of_get (h : Inv t profileId w) {k : Key} {o : Profile} (ho : o ∈ w.objects)
    (hget : Assoc.get w.extra.subscriptions k = some o.id) : o.pair = k ∧ o.subscription ≠ .userConfigured := by
  obtain ⟨-, o', ho', hid, hp, hs⟩ := h.subs_object k o.id hget
  rw [h.object_eq ho ho' hid.symm]
  exact ⟨hp, hs⟩

/-! ## After the preprocessing phase -/

theorem Preprocessed.nodup_objects (h : Preprocessed t profileId t.rows [] w) :
    (w.objects.map Profile.id).Nodup := by
  rw [h.ids]
  exact t.nodup

theorem Preprocessed.kept_rows (h : Preprocessed t profileId t.rows [] w) : w.table.rows = Sync.kept t.rows := by
  rw [h.rows, List.append_nil]

/-- The object of a row is the marked row. -/
theorem Preprocessed.object_eq (h : Preprocessed t profileId t.rows [] w) {r o : Profile} (hr : r ∈ t.rows)
    (ho : o ∈ w.objects) (hid : o.id = r.id) : o = marked t.rows r := by
  refine List.inj_on_of_nodup_map h.nodup_objects ho (h.done r hr) ?_
  rw [id_marked, hid]

theorem Preprocessed.exists_row (h : Preprocessed t profileId t.rows [] w) {o : Profile} (ho : o ∈ w.objects) :
    ∃ r ∈ t.rows, o = marked t.rows r := by
  have hid : o.id ∈ t.ids := by
    rw [← h.ids]
    exact List.mem_map_of_mem ho
  obtain ⟨r, hr, hrid⟩ := Table.mem_ids.1 hid
  exact ⟨r, hr, h.object_eq hr ho hrid.symm⟩

/-- **The invariant holds after the preprocessing phase.** -/
theorem Preprocessed.inv (h : Preprocessed t profileId t.rows [] w) : Inv t profileId w := by
  have hrows := h.kept_rows
  have hsubs : ∀ r ∈ Sync.kept t.rows, r.subscription ≠ .userConfigured →
      Assoc.get w.extra.subscriptions r.pair = some r.id :=
    fun r hr hs => (h.subs _ _).2 ⟨r, hr, hs, rfl, rfl⟩
  constructor
  case nodup => exact h.nodup_objects
  case current => exact h.current
  case other => exact h.other
  case seq_le =>
    have := h.seq
    omega
  case le_seq =>
    intro o ho
    obtain ⟨r, hr, rfl⟩ := h.exists_row ho
    rw [id_marked, h.seq]
    exact t.le_seq r hr
  case object =>
    intro r hr
    rw [hrows] at hr
    exact ⟨marked t.rows r, h.done r (mem_of_mem_kept hr), id_marked _ _, pair_marked _ _, user_marked_iff⟩
  case user =>
    intro r hu
    rw [hrows]
    exact ⟨mem_of_mem_kept, fun hr => kept_of_user hr hu⟩
  case subs_object =>
    intro k id hget
    obtain ⟨r, hr, hs, hp, rfl⟩ := (h.subs _ _).1 hget
    refine ⟨Table.mem_ids.2 ⟨r, by rw [hrows]; exact hr, rfl⟩, marked t.rows r,
      h.done r (mem_of_mem_kept hr), id_marked _ _, by rw [pair_marked, hp], ?_⟩
    rw [ne_eq, user_marked_iff]
    exact hs
  case row_subs =>
    intro r hr hs
    rw [hrows] at hr
    exact hsubs r hr hs
  case active =>
    intro o ho hget
    obtain ⟨r, hr, hs, hp, hid⟩ := (h.subs _ _).1 hget
    rw [h.handed, h.object_eq (mem_of_mem_kept hr) ho hid.symm]
    unfold marked
    by_cases ha : r.subscription = .active
    · simp [ha, hr]
    · simp [ha]
  case written =>
    intro r hr o ho hid
    rw [hrows] at hr
    by_cases ha : r.subscription = .active
    · exact Or.inr ((h.toUpdate _).2 ⟨r, hr, ha, rfl⟩)
    · left
      rw [h.object_eq (mem_of_mem_kept hr) ho hid, marked_of_not_active ha]
  case toUpdate =>
    intro id hid
    obtain ⟨r, hr, ha, rfl⟩ := (h.toUpdate _).1 hid
    exact ⟨Table.mem_ids.2 ⟨r, mem_of_mem_kept hr, rfl⟩, r.pair, hsubs r hr (by simp [ha])⟩
  case obsolete =>
    intro o ho _
    obtain ⟨r, hr, rfl⟩ := h.exists_row ho
    rw [id_marked]
    exact Table.mem_ids.2 ⟨r, hr, rfl⟩
  case kept =>
    intro r hr
    rw [Table.mem_ids, hrows]
    constructor
    · rintro ⟨q, hq, hid⟩
      rw [← Table.eq_of_id (mem_of_mem_kept hq) hr hid]
      exact hq
    · intro hk
      exact ⟨r, hk, rfl⟩

/-! ## The callback -/

/-- A new profile is stored, as active. -/
def stored (w : World Sync) (it : Profile) : Profile :=
  (((it.withStatus .active).withId 0).withOrder (w.table.nextOrder.getD 0)).withId (w.table.seq + 1)

/-- **What the callback does**: it creates a profile, finds an active one, or refreshes an obsolete
one. -/
theorem create_cases (h : Inv t profileId w) (it : Profile) :
    (Assoc.get w.extra.subscriptions it.pair = none ∧
      create w it =
        (⟨w.table.create (stored w it), w.objects ++ [stored w it],
          { w.extra with
            subscriptions := Assoc.put w.extra.subscriptions it.pair (w.table.seq + 1)
            handed := it.pair :: w.extra.handed }⟩, w.table.seq + 1)) ∨
    (∃ o ∈ w.objects, Assoc.get w.extra.subscriptions it.pair = some o.id ∧ o.subscription = .active ∧
      create w it = (⟨w.table, w.objects, { w.extra with handed := it.pair :: w.extra.handed }⟩, o.id)) ∨
    (∃ o ∈ w.objects, Assoc.get w.extra.subscriptions it.pair = some o.id ∧ o.subscription = .obsolete ∧
      create w it =
        (⟨w.table, replace w.objects (o.refresh it),
          { w.extra with
            toUpdate := o.id :: w.extra.toUpdate
            handed := it.pair :: w.extra.handed }⟩, o.id)) := by
  cases hget : Assoc.get w.extra.subscriptions it.pair with
  | none =>
    left
    refine ⟨rfl, ?_⟩
    unfold create
    simp only [hget, Option.bind_none]
    rfl
  | some id =>
    right
    obtain ⟨-, o, ho, hid, hp, hs⟩ := h.subs_object _ _ hget
    have hobj : w.object id = some o := by
      rw [← hid]
      exact World.object_of_mem h.nodup ho
    have hobj' : World.object
        { w with extra := { w.extra with handed := it.pair :: w.extra.handed } } id = some o := hobj
    cases hst : o.subscription with
    | userConfigured => exact absurd hst hs
    | active =>
      left
      refine ⟨o, ho, by rw [hid], hst, ?_⟩
      unfold create
      simp only [hget, Option.bind_some, hobj', hst]
    | obsolete =>
      right
      refine ⟨o, ho, by rw [hid], hst, ?_⟩
      unfold create
      simp only [hget, Option.bind_some, hobj', hst]
      rfl

/-- A profile that the map has; the ids of such profiles are what `create` returns. -/
def Linked (w : World Sync) (id : ℤ) : Prop := ∃ k, Assoc.get w.extra.subscriptions k = some id

/-- The id of a new profile is not the id of an object, -/
theorem Inv.object_fresh (h : Inv t profileId w) {o : Profile} (ho : o ∈ w.objects) : o.id ≠ w.table.seq + 1 := by
  have hle := h.le_seq o ho
  omega

/-- nor the id of a row. -/
theorem row_fresh {w : World Sync} {r : Profile} (hr : r ∈ w.table.rows) : r.id ≠ w.table.seq + 1 := by
  have hle := w.table.le_seq r hr
  omega

theorem mem_objects_stored {w : World Sync} {it o : Profile} :
    o ∈ w.objects ++ [stored w it] ↔ o ∈ w.objects ∨ o = stored w it := by
  rw [List.mem_append, List.mem_singleton]

theorem nodup_stored (h : Inv t profileId w) (it : Profile) : ((w.objects ++ [stored w it]).map Profile.id).Nodup := by
  rw [List.map_append, List.nodup_append]
  refine ⟨h.nodup, List.nodup_singleton _, ?_⟩
  intro a ha b hb hab
  obtain ⟨o, ho, rfl⟩ := List.mem_map.1 ha
  rw [List.map_singleton, List.mem_singleton] at hb
  exact h.object_fresh ho (hab.trans hb)

/-- The new profile was handed over, and no other pair. -/
theorem active_stored (h : Inv t profileId w) {it o : Profile}
    (hget : Assoc.get w.extra.subscriptions it.pair = none) (ho : o ∈ w.objects ++ [stored w it])
    (hk : Assoc.get (Assoc.put w.extra.subscriptions it.pair (w.table.seq + 1)) o.pair = some o.id) :
    o.subscription = .active ↔ o.pair ∈ it.pair :: w.extra.handed := by
  -- a pair that the map has is not the new one
  have hold : Assoc.get w.extra.subscriptions o.pair = some o.id → it.pair ≠ o.pair := by
    intro hk hpair
    rw [← hpair, hget] at hk
    cases hk
  rcases (Assoc.get_put_eq_some hget).1 hk with hk | ⟨-, hnewid⟩
  · have hne := hold hk
    rcases mem_objects_stored.1 ho with ho | rfl
    · rw [h.active o ho hk, List.mem_cons]
      constructor
      · exact Or.inr
      · rintro (hp | hp)
        · exact absurd hp.symm hne
        · exact hp
    · exact absurd rfl hne
  · rcases mem_objects_stored.1 ho with ho | rfl
    · exact absurd hnewid (h.object_fresh ho)
    · exact iff_of_true rfl List.mem_cons_self

/-- The new row is the new object. -/
theorem written_stored (h : Inv t profileId w) {it r o : Profile} (hr : r ∈ (w.table.create (stored w it)).rows)
    (ho : o ∈ w.objects ++ [stored w it]) (hsame : o.id = r.id) :
    o.subscription = r.subscription ∨ r.id ∈ w.extra.toUpdate := by
  rcases Table.mem_create.1 hr with hr | rfl
  · rcases mem_objects_stored.1 ho with ho | rfl
    · exact h.written r hr o ho hsame
    · exact absurd hsame.symm (row_fresh hr)
  · rcases mem_objects_stored.1 ho with ho | rfl
    · exact absurd hsame (h.object_fresh ho)
    · exact Or.inl rfl

theorem create_new_inv (h : Inv t profileId w) {it : Profile}
    (hget : Assoc.get w.extra.subscriptions it.pair = none) :
    Inv t profileId ⟨w.table.create (stored w it), w.objects ++ [stored w it],
      { w.extra with
        subscriptions := Assoc.put w.extra.subscriptions it.pair (w.table.seq + 1)
        handed := it.pair :: w.extra.handed }⟩ := by
  have hput : ∀ k id, Assoc.get (Assoc.put w.extra.subscriptions it.pair (w.table.seq + 1)) k = some id ↔
      Assoc.get w.extra.subscriptions k = some id ∨ (k = it.pair ∧ id = w.table.seq + 1) :=
    fun k id => Assoc.get_put_eq_some hget
  have hstored : stored w it ∈ w.objects ++ [stored w it] := List.mem_append_right _ List.mem_cons_self
  constructor
  case current => exact h.current
  case other => exact h.other
  case nodup => exact nodup_stored h it
  case le_seq =>
    intro o ho
    show o.id ≤ w.table.seq + 1
    rcases mem_objects_stored.1 ho with ho | rfl
    · have := h.le_seq o ho
      omega
    · exact Int.le_refl (w.table.seq + 1)
  case seq_le =>
    have := h.seq_le
    show t.seq ≤ w.table.seq + 1
    omega
  case object =>
    intro r hr
    rcases Table.mem_create.1 hr with hr | rfl
    · obtain ⟨o, ho, hrest⟩ := h.object r hr
      exact ⟨o, List.mem_append_left _ ho, hrest⟩
    · exact ⟨stored w it, hstored, rfl, rfl, Iff.rfl⟩
  case user =>
    intro r hu
    rw [← h.user r hu]
    constructor
    · intro hr
      rcases Table.mem_create.1 hr with hr | rfl
      · exact hr
      · cases hu
    · exact fun hr => Table.mem_create.2 (Or.inl hr)
  case subs_object =>
    intro k id hk
    rw [Table.ids_create]
    rcases (hput k id).1 hk with hk | ⟨rfl, rfl⟩
    · obtain ⟨hin, o, ho, hrest⟩ := h.subs_object k id hk
      exact ⟨List.mem_append_left _ hin, o, List.mem_append_left _ ho, hrest⟩
    · refine ⟨List.mem_append_right _ List.mem_cons_self, stored w it, hstored, rfl, rfl, ?_⟩
      exact fun hs => SubscriptionStatus.noConfusion hs
  case row_subs =>
    intro r hr hs
    rw [hput]
    rcases Table.mem_create.1 hr with hr | rfl
    · exact Or.inl (h.row_subs r hr hs)
    · exact Or.inr ⟨rfl, rfl⟩
  case active =>
    intro o ho hk
    exact active_stored h hget ho hk
  case written =>
    intro r hr o ho hsame
    exact written_stored h hr ho hsame
  case toUpdate =>
    intro id hin
    obtain ⟨hids, k, hk⟩ := h.toUpdate id hin
    exact ⟨hids, k, (hput k id).2 (Or.inl hk)⟩
  case obsolete =>
    intro o ho hs
    rcases mem_objects_stored.1 ho with ho | rfl
    · exact h.obsolete o ho hs
    · cases hs
  case kept =>
    intro r hr
    have hne : r.id ≠ w.table.seq + 1 := by
      have hle := t.le_seq r hr
      have hseq := h.seq_le
      omega
    rw [Table.ids_create, List.mem_append, List.mem_singleton, ← h.kept r hr]
    exact or_iff_left hne

theorem create_active_inv (h : Inv t profileId w) {it o : Profile} (ho : o ∈ w.objects)
    (hget : Assoc.get w.extra.subscriptions it.pair = some o.id) (ha : o.subscription = .active) :
    Inv t profileId ⟨w.table, w.objects, { w.extra with handed := it.pair :: w.extra.handed }⟩ := by
  refine { h with active := ?_ }
  intro q hq hk
  rw [h.active q hq hk, List.mem_cons]
  constructor
  · exact Or.inr
  · rintro (hp | hp)
    · rw [hp, hget, Option.some.injEq] at hk
      have hqo : q = o := h.object_eq hq ho hk.symm
      rw [← h.active q hq (by rw [hp, hget, hk]), hqo]
      exact ha
    · exact hp

/-- An object of a subscription is changed: the rest of the world does not see more than its status. -/
theorem replace_inv (h : Inv t profileId w) {o o' : Profile} (ho : o ∈ w.objects) (hid : o'.id = o.id)
    (hpair : o'.pair = o.pair) (hs : o'.subscription = o.subscription) : Inv t profileId { w with objects := replace w.objects o' } := by
  have hmem : ∀ q ∈ replace w.objects o', ∃ p ∈ w.objects, q.id = p.id ∧ q.pair = p.pair ∧
      q.subscription = p.subscription := by
    intro q hq
    rcases mem_replace.1 hq with ⟨hq, -⟩ | ⟨rfl, -⟩
    · exact ⟨q, hq, rfl, rfl, rfl⟩
    · exact ⟨o, ho, hid, hpair, hs⟩
  have hmem' : ∀ p ∈ w.objects, ∃ q ∈ replace w.objects o', q.id = p.id ∧ q.pair = p.pair ∧
      q.subscription = p.subscription := by
    intro p hp
    by_cases hpo : p.id = o'.id
    · rw [h.object_eq hp ho (hpo.trans hid)]
      exact ⟨o', mem_replace.2 (Or.inr ⟨rfl, by rw [hid]; exact List.mem_map_of_mem ho⟩), hid, hpair, hs⟩
    · exact ⟨p, mem_replace.2 (Or.inl ⟨hp, hpo⟩), rfl, rfl, rfl⟩
  refine { h with nodup := ?_, le_seq := ?_, object := ?_, subs_object := ?_, active := ?_, written := ?_, obsolete := ?_ }
  · show ((replace w.objects o').map Profile.id).Nodup
    rw [ids_replace]
    exact h.nodup
  · intro q hq
    obtain ⟨p, hp, hqp, -, -⟩ := hmem q hq
    rw [hqp]
    exact h.le_seq p hp
  · intro r hr
    obtain ⟨p, hp, hpid, hpp, hps⟩ := h.object r hr
    obtain ⟨q, hq, h1, h2, h3⟩ := hmem' p hp
    exact ⟨q, hq, h1.trans hpid, h2.trans hpp, by rw [h3]; exact hps⟩
  · intro k id hk
    obtain ⟨hids, p, hp, hpid, hpp, hps⟩ := h.subs_object k id hk
    obtain ⟨q, hq, h1, h2, h3⟩ := hmem' p hp
    exact ⟨hids, q, hq, h1.trans hpid, h2.trans hpp, by rw [h3]; exact hps⟩
  · intro q hq hk
    obtain ⟨p, hp, h1, h2, h3⟩ := hmem q hq
    rw [h2, h3]
    exact h.active p hp (by rw [← h1, ← h2]; exact hk)
  · intro r hr q hq hqr
    obtain ⟨p, hp, h1, -, h3⟩ := hmem q hq
    rw [h3]
    exact h.written r hr p hp (h1.symm.trans hqr)
  · intro q hq hqs
    obtain ⟨p, hp, h1, -, h3⟩ := hmem q hq
    rw [h1]
    exact h.obsolete p hp (h3.symm.trans hqs)

theorem create_refresh_inv (h : Inv t profileId w) {it o : Profile} (ho : o ∈ w.objects)
    (hget : Assoc.get w.extra.subscriptions it.pair = some o.id) (hst : o.subscription = .obsolete) :
    Inv t profileId ⟨w.table, replace w.objects (o.refresh it),
      { w.extra with toUpdate := o.id :: w.extra.toUpdate, handed := it.pair :: w.extra.handed }⟩ := by
  obtain ⟨hp, hs⟩ := h.pair_of_get ho hget
  have hmem : ∀ q ∈ replace w.objects (o.refresh it), (q ∈ w.objects ∧ q.id ≠ o.id) ∨ q = o.refresh it := by
    intro q hq
    rcases mem_replace.1 hq with hq | ⟨hq, -⟩
    · exact Or.inl hq
    · exact Or.inr hq
  have hmem' : ∀ p ∈ w.objects, ∃ q ∈ replace w.objects (o.refresh it), q.id = p.id ∧ q.pair = p.pair ∧
      (q.subscription = .userConfigured ↔ p.subscription = .userConfigured) := by
    intro p hp'
    by_cases hpo : p.id = o.id
    · rw [h.object_eq hp' ho hpo]
      have hoid : o.id ∈ w.objects.map Profile.id := List.mem_map_of_mem ho
      refine ⟨o.refresh it, mem_replace.2 (Or.inr ⟨rfl, hoid⟩), rfl, rfl, ?_⟩
      simp [hst]
    · exact ⟨p, mem_replace.2 (Or.inl ⟨hp', hpo⟩), rfl, rfl, Iff.rfl⟩
  refine { h with nodup := ?_, le_seq := ?_, object := ?_, subs_object := ?_, active := ?_, written := ?_, obsolete := ?_, toUpdate := ?_ }
  · show ((replace w.objects (o.refresh it)).map Profile.id).Nodup
    rw [ids_replace]
    exact h.nodup
  · intro q hq
    rcases hmem q hq with ⟨hq, -⟩ | rfl
    · exact h.le_seq q hq
    · exact h.le_seq o ho
  · intro r hr
    obtain ⟨p, hp', hpid, hpp, hps⟩ := h.object r hr
    obtain ⟨q, hq, h1, h2, h3⟩ := hmem' p hp'
    exact ⟨q, hq, h1.trans hpid, h2.trans hpp, h3.trans hps⟩
  · intro k id hk
    obtain ⟨hids, p, hp', hpid, hpp, hps⟩ := h.subs_object k id hk
    obtain ⟨q, hq, h1, h2, h3⟩ := hmem' p hp'
    exact ⟨hids, q, hq, h1.trans hpid, h2.trans hpp, fun hu => hps (h3.1 hu)⟩
  · intro q hq hk
    rw [List.mem_cons]
    rcases hmem q hq with ⟨hq, hne⟩ | rfl
    · rw [h.active q hq hk]
      constructor
      · exact Or.inr
      · rintro (hqp | hqp)
        · rw [hqp, hget, Option.some.injEq] at hk
          exact absurd hk.symm hne
        · exact hqp
    · exact iff_of_true rfl (Or.inl hp)
  · intro r hr q hq hqr
    rcases hmem q hq with ⟨hq, hne⟩ | rfl
    · rcases h.written r hr q hq hqr with hw | hw
      · exact Or.inl hw
      · exact Or.inr (List.mem_cons_of_mem _ hw)
    · rw [Profile.id_refresh] at hqr
      right
      rw [← hqr]
      exact List.mem_cons_self
  · intro id hid
    rcases List.mem_cons.1 hid with rfl | hid
    · exact ⟨h.obsolete o ho hst, it.pair, hget⟩
    · exact h.toUpdate id hid
  · intro q hq hqs
    rcases hmem q hq with ⟨hq, -⟩ | rfl
    · exact h.obsolete q hq hqs
    · cases hqs

/-- **The callback keeps the invariant**, and returns a profile that the map has. -/
theorem create_inv (h : Inv t profileId w) (it : Profile) :
    Inv t profileId (create w it).1 ∧ Linked (create w it).1 (create w it).2 ∧
      ∀ id, Linked w id → Linked (create w it).1 id := by
  rcases create_cases h it with ⟨hget, hc⟩ | ⟨o, ho, hget, ha, hc⟩ | ⟨o, ho, hget, hst, hc⟩
  · rw [hc]
    refine ⟨create_new_inv h hget, ⟨it.pair, ?_⟩, ?_⟩
    · show Assoc.get (Assoc.put _ _ _) _ = _
      rw [Assoc.get_put, if_pos rfl]
    · rintro id ⟨k, hk⟩
      refine ⟨k, ?_⟩
      show Assoc.get (Assoc.put _ _ _) _ = _
      rw [Assoc.get_put, if_neg ?_]
      · exact hk
      · rintro rfl
        rw [hget] at hk
        cases hk
  · rw [hc]
    exact ⟨create_active_inv h ho hget ha, ⟨it.pair, hget⟩, fun _ hl => hl⟩
  · rw [hc]
    exact ⟨create_refresh_inv h ho hget hst, ⟨it.pair, hget⟩, fun _ hl => hl⟩

/-! ## The documents -/

/-- The object of a subscription is written to its row. -/
theorem update_inv (h : Inv t profileId w) {o : Profile} (ho : o ∈ w.objects)
    (hget : Assoc.get w.extra.subscriptions o.pair = some o.id) :
    Inv t profileId { w with table := w.table.update o } := by
  have hs := (h.pair_of_get ho hget).2
  refine { h with object := ?_, user := ?_, subs_object := ?_, row_subs := ?_, written := ?_, kept := ?_ }
  · intro r hr
    rcases Table.mem_update.1 hr with ⟨hr, -⟩ | ⟨rfl, -⟩
    · exact h.object r hr
    · exact ⟨r, ho, rfl, rfl, Iff.rfl⟩
  · intro r hu
    rw [Table.mem_update, ← h.user r hu]
    constructor
    · rintro (⟨hr, -⟩ | ⟨rfl, -⟩)
      · exact hr
      · exact absurd hu hs
    · intro hr
      refine Or.inl ⟨hr, ?_⟩
      -- the row with this id is not the user's
      intro hid
      obtain ⟨q, hq, hqid, -, hqu⟩ := h.object r hr
      rw [h.object_eq hq ho (hqid.trans hid)] at hqu
      exact hs (hqu.2 hu)
  · intro k id hk
    obtain ⟨hid, hrest⟩ := h.subs_object k id hk
    exact ⟨by rw [Table.ids_update]; exact hid, hrest⟩
  · intro r hr hrs
    rcases Table.mem_update.1 hr with ⟨hr, -⟩ | ⟨rfl, -⟩
    · exact h.row_subs r hr hrs
    · exact hget
  · intro r hr q hq hid
    rcases Table.mem_update.1 hr with ⟨hr, -⟩ | ⟨rfl, -⟩
    · exact h.written r hr q hq hid
    · rw [h.object_eq hq ho hid]
      exact Or.inl rfl
  · intro r hr
    rw [Table.ids_update]
    exact h.kept r hr

theorem linked_object (h : Inv t profileId w) {id : ℤ} (hl : Linked w id) :
    ∃ o, w.object id = some o ∧ o ∈ w.objects ∧ o.id = id ∧ id ∈ w.table.ids ∧
      Assoc.get w.extra.subscriptions o.pair = some o.id := by
  obtain ⟨k, hk⟩ := hl
  obtain ⟨hids, o, ho, hid, hp, -⟩ := h.subs_object k id hk
  refine ⟨o, ?_, ho, hid, hids, by rw [hp, hid]; exact hk⟩
  rw [← hid]
  exact World.object_of_mem h.nodup ho

/-- **Resolving a fallback keeps the invariant**, and its update succeeds. -/
theorem link_inv (h : Inv t profileId w) (profiles : List Profile) {e : Profile × Profile}
    (hl : Linked w e.1.id) :
    ∃ w', JsonParser.link create profiles w e = (w', none) ∧ Inv t profileId w' ∧
      ∀ id, Linked w id → Linked w' id := by
  -- the target of the fallback
  obtain ⟨w₁, id, hw₁, h₁, hmono⟩ : ∃ w₁ id, JsonParser.target create profiles w e.2 = (w₁, id) ∧
      Inv t profileId w₁ ∧ ∀ id, Linked w id → Linked w₁ id := by
    unfold JsonParser.target
    cases profiles.find? (JsonParser.matching e.2) with
    | some m => exact ⟨w, m.id, rfl, h, fun _ hl => hl⟩
    | none =>
      obtain ⟨h₁, -, hmono⟩ := create_inv h e.2
      exact ⟨_, _, rfl, h₁, hmono⟩
  obtain ⟨o, hobj, ho, hoid, hids, hget⟩ := linked_object h₁ (hmono _ hl)
  have h₂ : Inv t profileId { w₁ with objects := replace w₁.objects (o.withFallback id) } :=
    replace_inv h₁ ho rfl rfl rfl
  have ho₂ : o.withFallback id ∈ replace w₁.objects (o.withFallback id) :=
    mem_replace.2 (Or.inr ⟨rfl, List.mem_map.2 ⟨o, ho, rfl⟩⟩)
  have h₃ := update_inv h₂ ho₂ hget
  refine ⟨_, ?_, h₃, hmono⟩
  unfold JsonParser.link
  rw [hw₁]
  simp only [hobj, Option.getD_some]
  unfold World.updateProfile
  rw [if_pos]
  · rfl
  · show o.id ∈ w₁.table.ids
    rw [hoid]
    exact hids

theorem linkAll_inv (profiles : List Profile) (es : List (Profile × Profile)) :
    ∀ {w : World Sync}, Inv t profileId w → (∀ e ∈ es, Linked w e.1.id) →
      ∃ w', JsonParser.linkAll create profiles es w = (w', none) ∧ Inv t profileId w' := by
  induction es with
  | nil =>
    intro w h _
    exact ⟨w, rfl, h⟩
  | cons e es ih =>
    intro w h hl
    obtain ⟨w', hstep, h', hmono⟩ := link_inv h profiles (hl e List.mem_cons_self)
    obtain ⟨w'', hrest, h''⟩ := ih h' (fun x hx => hmono _ (hl x (List.mem_cons_of_mem e hx)))
    refine ⟨w'', ?_, h''⟩
    rw [JsonParser.linkAll, hstep]
    exact hrest

/-- The keys of the map are profiles that are still to be created, or that were. -/
def Waiting (w : World Sync) (map : List (Profile × Profile)) (rest : List Profile) : Prop :=
  ∀ e ∈ map, e.1 ∈ rest ∨ Linked w e.1.id

theorem createNext_inv {map : List (Profile × Profile)} {p : Profile} {rest : List Profile}
    (h : Inv t profileId w) (hw : Waiting w map (p :: rest)) :
    Inv t profileId (JsonParser.createNext create (w, map) p).1 ∧
      Waiting (JsonParser.createNext create (w, map) p).1 (JsonParser.createNext create (w, map) p).2 rest := by
  obtain ⟨h', hlink, hmono⟩ := create_inv h p
  have hrest : Waiting (create w p).1 (Assoc.remove map p) rest := by
    intro e he
    unfold Assoc.remove at he
    rw [List.mem_filter] at he
    have hne : e.1 ≠ p := by simpa using he.2
    rcases hw e he.1 with hm | hl
    · rcases List.mem_cons.1 hm with hm | hm
      · exact absurd hm hne
      · exact Or.inl hm
    · exact Or.inr (hmono _ hl)
  unfold JsonParser.createNext
  simp only
  cases Assoc.get map p with
  | none => exact ⟨h', hrest⟩
  | some f =>
    refine ⟨h', ?_⟩
    obtain ⟨o, hobj, -, hoid, -, -⟩ := linked_object h' hlink
    intro e he
    rcases Assoc.mem_put he with he | rfl
    · exact hrest e he
    · right
      simp only [hobj, Option.getD_some, hoid]
      exact hlink

theorem createAll_inv (ps : List Profile) :
    ∀ {w : World Sync} {map : List (Profile × Profile)}, Inv t profileId w → Waiting w map ps →
      Inv t profileId (ps.foldl (JsonParser.createNext create) (w, map)).1 ∧
        ∀ e ∈ (ps.foldl (JsonParser.createNext create) (w, map)).2,
          Linked (ps.foldl (JsonParser.createNext create) (w, map)).1 e.1.id := by
  induction ps with
  | nil =>
    intro w map h hw
    refine ⟨h, ?_⟩
    intro e he
    rcases hw e he with hm | hl
    · cases hm
    · exact hl
  | cons p ps ih =>
    intro w map h hw
    obtain ⟨h', hw'⟩ := createNext_inv h hw
    exact ih h' hw'

/-- **A document keeps the invariant**, and does not make `updateProfile` fail. -/
theorem parseJson_inv (H : HashOrder) (feature : Option Profile) (json : Json) (h : Inv t profileId w) :
    Inv t profileId (JsonParser.parseJson create H feature json w).1 ∧
      (JsonParser.parseJson create H feature json w).2 ≠ some .check := by
  unfold JsonParser.parseJson
  rw [JsonParser.process_eq]
  cases hes : JsonParser.entries H feature json with
  | error f =>
    refine ⟨h, ?_⟩
    rw [JsonParser.entries_error H feature json hes]
    simp [JsonParser.collect, Except.map]
  | ok es =>
    have hw : Waiting w (es.foldl JsonParser.addEntry .new).fallbackMap
        (es.foldl JsonParser.addEntry .new).profiles := by
      intro e he
      left
      rw [JsonParser.profiles_foldl]
      exact List.mem_append_right _ (List.mem_map.2 ⟨_, JsonParser.mem_fallbackMap he, rfl⟩)
    obtain ⟨h', hl⟩ := createAll_inv _ h hw
    obtain ⟨w', hfin, h''⟩ := linkAll_inv _ _ h' hl
    simp only [JsonParser.collect, Except.map, JsonParser.finalize]
    rw [hfin]
    exact ⟨h'', by simp⟩

theorem readDocument_inv (H : HashOrder) (feature : Option Profile) (d : Document) {toasts : List Fault}
    (h : Inv t profileId w) (hc : Fault.check ∉ toasts) :
    Inv t profileId (readDocument H feature (w, toasts) d).1 ∧
      Fault.check ∉ (readDocument H feature (w, toasts) d).2 := by
  unfold readDocument
  cases hd : d.single with
  | error f =>
    have hf : f = .document := by
      unfold Document.single at hd
      split at hd
      · cases hd
      · cases hd
        rfl
    exact ⟨h, by simp [hc, hf]⟩
  | ok json =>
    obtain ⟨h', hne⟩ := parseJson_inv H feature json h
    cases hp : JsonParser.parseJson create H feature json w with
    | mk w' fault =>
      rw [hp] at h' hne
      simp only [hp]
      cases fault with
      | none => exact ⟨h', hc⟩
      | some f =>
        have hf : Fault.check ≠ f := fun heq => hne (by rw [heq])
        exact ⟨h', by simp [hc, hf]⟩

/-- **All documents keep the invariant.** -/
theorem readDocuments_inv (H : HashOrder) (feature : Option Profile) (ds : List Document) :
    ∀ {w : World Sync} {toasts : List Fault}, Inv t profileId w → Fault.check ∉ toasts →
      Inv t profileId (ds.foldl (readDocument H feature) (w, toasts)).1 ∧
        Fault.check ∉ (ds.foldl (readDocument H feature) (w, toasts)).2 := by
  induction ds with
  | nil => exact fun h hc => ⟨h, hc⟩
  | cons d ds ih =>
    intro w toasts h hc
    obtain ⟨h', hc'⟩ := readDocument_inv H feature d h hc
    exact ih h' hc'

end Sync

end BlackButton
