import BlackButton.Subscription.Moves

/-!
# What a subscription sync leaves

`sync_spec`: **for every table, every current profile and every list of documents**,
the user's profiles are untouched, the profiles of subscriptions have distinct pairs
and are active exactly if the documents yielded them, only duplicates are deleted, and
no check fails.
-/

namespace BlackButton

namespace Sync

variable {t : Table} {profileId : ℤ}

/-- Writing back: every row that is in `toUpdate` and was passed is as its object. -/
theorem writeBack_spec (ps : List Profile) :
    ∀ {w : World Sync} (done : List ℤ), Inv t profileId w →
      (∀ r ∈ w.table.rows, r.id ∈ w.extra.toUpdate → r.id ∈ done → r ∈ w.objects) →
      ∃ w', writeBack ps w = (w', none) ∧ Inv t profileId w' ∧ w'.objects = w.objects ∧
        w'.extra = w.extra ∧ w'.table.ids = w.table.ids ∧
        (∀ r ∈ w'.table.rows, r ∈ w.table.rows ∨ r ∈ w.objects) ∧
        ∀ r ∈ w'.table.rows, r.id ∈ w.extra.toUpdate → r.id ∈ done ++ ps.map Profile.id → r ∈ w.objects := by
  induction ps with
  | nil =>
    intro w done h hdone
    exact ⟨w, rfl, h, rfl, rfl, rfl, fun r hr => Or.inl hr, by simpa using hdone⟩
  | cons p ps ih =>
    intro w done h hdone
    have hsplit : done ++ (p :: ps).map Profile.id = (done ++ [p.id]) ++ ps.map Profile.id := by simp
    rw [hsplit, writeBack]
    by_cases hp : p.id ∈ w.extra.toUpdate
    · obtain ⟨-, k, hk⟩ := h.toUpdate p.id hp
      obtain ⟨o, hobj, ho, hoid, hids, hget⟩ := linked_object h ⟨k, hk⟩
      have hupd : w.updateProfile ((w.object p.id).getD p) = ({ w with table := w.table.update o }, none) := by
        rw [hobj, Option.getD_some, World.updateProfile, if_pos (by rw [hoid]; exact hids)]
      rw [if_pos hp, hupd]
      have hstep : ∀ r ∈ (w.table.update o).rows, r.id ∈ w.extra.toUpdate → r.id ∈ done ++ [p.id] →
          r ∈ w.objects := by
        intro r hr hru hrd
        rcases Table.mem_update.1 hr with ⟨hr, hne⟩ | ⟨rfl, -⟩
        · rcases List.mem_append.1 hrd with hrd | hrd
          · exact hdone r hr hru hrd
          · rw [List.mem_singleton, ← hoid] at hrd
            exact absurd hrd hne
        · exact ho
      obtain ⟨w', hwrite, h', hobjs, hextra, hids', hrows, hall⟩ := ih _ (update_inv h ho hget) hstep
      refine ⟨w', hwrite, h', hobjs, hextra, ?_, ?_, hall⟩
      · rw [hids', Table.ids_update]
      · intro r hr
        rcases hrows r hr with hr | hr
        · rcases Table.mem_update.1 hr with ⟨hr, -⟩ | ⟨rfl, -⟩
          · exact Or.inl hr
          · exact Or.inr ho
        · exact Or.inr hr
    · rw [if_neg hp]
      refine ih _ h ?_
      intro r hr hru hrd
      rcases List.mem_append.1 hrd with hrd | hrd
      · exact hdone r hr hru hrd
      · rw [List.mem_singleton] at hrd
        exact absurd (hrd ▸ hru) hp

/-- What a sync of the table `t` leaves. -/
structure Synced (t : Table) (profileId : ℤ) (cs : List Content) (r : Result) : Prop where
  -- the user's rows are untouched
  user : ∀ p ∈ t.rows, p.subscription = .userConfigured → p ∈ r.world.table.rows
  -- no two rows of subscriptions have the same pair
  unique : ∀ p ∈ r.world.table.rows, ∀ q ∈ r.world.table.rows, p.subscription ≠ .userConfigured →
    q.subscription ≠ .userConfigured → p.pair = q.pair → p = q
  -- a deleted row is of a subscription, and follows a row with its pair
  deleted : ∀ p ∈ t.rows, p.id ∉ r.world.table.ids → p.subscription ≠ .userConfigured ∧
    ∃ pre post, t.rows = pre ++ p :: post ∧
      ∃ q ∈ pre, q.subscription ≠ .userConfigured ∧ q.pair = p.pair
  -- the current profile, if it was deleted
  current : (∃ p ∈ t.rows, p.id = profileId ∧ p.id ∉ r.world.table.ids) → r.world.extra.profileId = 0
  other : (∀ p ∈ t.rows, p.id = profileId → p.id ∈ r.world.table.ids) → r.world.extra.profileId = profileId
  -- a row of a subscription is active if its pair was handed to the callback, else obsolete
  active : ∀ p ∈ r.world.table.rows, p.subscription ≠ .userConfigured →
    p.subscription = if p.pair ∈ r.world.extra.handed then .active else .obsolete
  -- all profiles of the documents were handed to it, and else only fallbacks of theirs
  handed : ∀ c ∈ cs, ∀ p ∈ c.mains, p.pair ∈ r.world.extra.handed
  yielded : ∀ k ∈ r.world.extra.handed, ∃ p, Yielded cs p ∧ p.pair = k
  -- no check fails, neither in a document nor outside
  checks : Fault.check ∉ r.toasts ∧ r.thrown = none

/-- A world in which all rows are written has what a sync leaves. -/
theorem Inv.synced {w : World Sync} {toasts : List Fault} (h : Inv t profileId w)
    (hw : ∀ r ∈ w.table.rows, ∀ o ∈ w.objects, o.id = r.id → o.subscription = r.subscription)
    (hc : Fault.check ∉ toasts) {cs : List Content} (hhanded : ∀ c ∈ cs, ∀ p ∈ c.mains, p.pair ∈ w.extra.handed)
    (hyielded : ∀ k ∈ w.extra.handed, ∃ p, Yielded cs p ∧ p.pair = k) :
    Synced t profileId cs ⟨w, toasts, none⟩ := by
  have hgone : ∀ p ∈ t.rows, p.id ∉ w.table.ids → p ∉ Sync.kept t.rows :=
    fun p hp hid hk => hid ((h.kept p hp).2 hk)
  refine ⟨?_, ?_, ?_, ?_, ?_, ?_, hhanded, hyielded, hc, rfl⟩
  · intro p hp hu
    exact (h.user p hu).2 hp
  · intro p hp q hq hps hqs hpair
    have h1 := h.row_subs p hp hps
    have h2 := h.row_subs q hq hqs
    rw [hpair, h2, Option.some.injEq] at h1
    exact Table.eq_of_id hp hq h1.symm
  · intro p hp hid
    exact dropped hp (hgone p hp hid)
  · rintro ⟨p, hp, hpid, hid⟩
    exact h.current ⟨p, hp, hpid, hgone p hp hid⟩
  · intro hids
    refine h.other ?_
    rintro ⟨p, hp, hpid, hk⟩
    exact hk ((h.kept p hp).1 (hids p hp hpid))
  · intro p hp hps
    obtain ⟨o, ho, hoid, hop, -⟩ := h.object p hp
    have hget : Assoc.get w.extra.subscriptions o.pair = some o.id := by
      rw [hop, hoid]
      exact h.row_subs p hp hps
    have hact := h.active o ho hget
    rw [hw p hp o ho hoid, hop] at hact
    by_cases hh : p.pair ∈ w.extra.handed
    · rw [if_pos hh]
      exact hact.2 hh
    · rw [if_neg hh]
      cases hst : p.subscription with
      | userConfigured => exact absurd hst hps
      | active => exact absurd (hact.1 hst) hh
      | obsolete => rfl

/-- The worlds of a sync: `w₀` after the preprocessing phase, `w₁` after the documents, `w₂` at the
end. -/
structure Ends (H : HashOrder) (t : Table) (profileId : ℤ) (jsons : List Document) (w₀ w₁ w₂ : World Sync)
    (toasts : List Fault) : Prop where
  preprocessed : Preprocessed t profileId t.rows [] w₀
  documents : jsons.foldl (readDocument H (featureOf t profileId)) (w₀, []) = (w₁, toasts)
  checks : Fault.check ∉ toasts
  inv : Inv t profileId w₁
  result : createProfilesFromSubscription H t profileId jsons = ⟨w₂, toasts, none⟩
  inv_end : Inv t profileId w₂
  objects : w₂.objects = w₁.objects
  extra : w₂.extra = w₁.extra
  ids : w₂.table.ids = w₁.table.ids
  rows : ∀ r ∈ w₂.table.rows, r ∈ w₁.table.rows ∨ r ∈ w₁.objects
  written : ∀ r ∈ w₂.table.rows, r.id ∈ w₁.extra.toUpdate → r ∈ w₁.objects

theorem sync_ends (H : HashOrder) (t : Table) (profileId : ℤ) (jsons : List Document) :
    ∃ w₀ w₁ w₂ toasts, Ends H t profileId jsons w₀ w₁ w₂ toasts := by
  obtain ⟨w₀, hpre, h₀⟩ := preprocessAll_spec t profileId
  obtain ⟨h₁, hc⟩ := readDocuments_inv H (featureOf t profileId) jsons h₀.inv List.not_mem_nil
  obtain ⟨w₂, hwrite, h₂, hobj, hextra, hids, hrows, hwritten⟩ := writeBack_spec t.rows [] h₁ (by simp)
  refine ⟨w₀, _, w₂, _, h₀, rfl, hc, h₁, ?_, h₂, hobj, hextra, hids, hrows, ?_⟩
  · unfold createProfilesFromSubscription
    rw [hpre]
    simp only
    rw [hwrite]
  · intro r hr hu
    refine hwritten r hr hu ?_
    rw [List.nil_append]
    exact (h₁.toUpdate r.id hu).1

theorem Ends.run {H : HashOrder} {ds : List Document} {w₀ w₁ w₂ : World Sync} {toasts : List Fault}
    (h : Ends H t profileId ds w₀ w₁ w₂ toasts) :
    (Content.ofDocuments H (featureOf t profileId) ds).foldl run w₀ = w₁ := by
  rw [← readDocuments_run H (featureOf t profileId) ds h.preprocessed.inv, h.documents]

/-- **What a subscription sync leaves**, for every table, current profile and list of documents. -/
theorem sync_spec (H : HashOrder) (t : Table) (profileId : ℤ) (jsons : List Document) :
    Synced t profileId (Content.ofDocuments H (featureOf t profileId) jsons)
      (createProfilesFromSubscription H t profileId jsons) := by
  obtain ⟨w₀, w₁, w₂, toasts, hend⟩ := sync_ends H t profileId jsons
  have h₂ := hend.inv_end
  have hall : ∀ r ∈ w₂.table.rows, ∀ o ∈ w₂.objects, o.id = r.id → o.subscription = r.subscription := by
    intro r hr o ho hid
    rcases h₂.written r hr o ho hid with hs | hu
    · exact hs
    · rw [hend.extra] at hu
      have hmem := hend.written r hr hu
      rw [h₂.object_eq ho (by rw [hend.objects]; exact hmem) hid]
  -- what the documents handed over
  obtain ⟨hhanded, hms⟩ := runs_handed (Content.ofDocuments H (featureOf t profileId) jsons) (fun _ hc => hc)
    Content.wellFormed_ofDocuments hend.preprocessed.inv hend.preprocessed.shape
  rw [hend.run] at hhanded hms
  have hyielded := hms.handed_only hend.preprocessed.inv
  rw [hend.result]
  refine h₂.synced hall hend.checks (by rw [hend.extra]; exact hhanded) ?_
  intro k hk
  rw [hend.extra] at hk
  rcases hyielded k hk with hk | hk
  · rw [hend.preprocessed.handed] at hk
    cases hk
  · exact hk

end Sync

end BlackButton
