import Mathlib.Logic.Relation
import BlackButton.Subscription.Content

/-!
# The moves of a subscription sync

While the documents are read, a world changes in two ways (`Move`): a profile is
handed to the callback, and an active object gets a fallback and is written.

* `Moves.inv`, `Moves.grows`: moves keep the invariant and only add rows; an active
  object keeps everything but its fallback.
* `Moves.shape`: which rows and objects are those of the beginning.
* `run_moves`: running a content is a sequence of moves.
-/

namespace BlackButton

open JsonParser

namespace Profile

/-- The profile without its fallback. -/
def unlinked (p : Profile) : Profile := { p with udpFallback := none }

section

variable (p : Profile) (i : ℤ)

@[simp] theorem id_unlinked : p.unlinked.id = p.id := rfl
@[simp] theorem pair_unlinked : p.unlinked.pair = p.pair := rfl
@[simp] theorem subscription_unlinked : p.unlinked.subscription = p.subscription := rfl
@[simp] theorem unlinked_withFallback : (p.withFallback i).unlinked = p.unlinked := rfl

end

theorem id_eq_of_unlinked {p q : Profile} (h : p.unlinked = q.unlinked) : p.id = q.id :=
  show p.unlinked.id = q.unlinked.id by rw [h]

theorem pair_eq_of_unlinked {p q : Profile} (h : p.unlinked = q.unlinked) : p.pair = q.pair :=
  show p.unlinked.pair = q.unlinked.pair by rw [h]

theorem status_eq_of_unlinked {p q : Profile} (h : p.unlinked = q.unlinked) :
    p.subscription = q.subscription :=
  show p.unlinked.subscription = q.unlinked.subscription by rw [h]

theorem eq_of_unlinked {p q : Profile} (h : p.unlinked = q.unlinked) (hf : p.udpFallback = q.udpFallback) : p = q := by
  have hp : p = { p.unlinked with udpFallback := p.udpFallback } := rfl
  rw [hp, h, hf]
  rfl

theorem matching_eq_of_unlinked {p q : Profile} (h : p.unlinked = q.unlinked) (f : Profile) :
    matching f p = matching f q :=
  show matching f p.unlinked = matching f q.unlinked by rw [h]

end Profile

namespace Sync

/-- A profile is handed to the callback (one that meets `ok` if its pair was not handed before), or an
active object is linked to a fallback. -/
inductive Move (ok : Profile → Prop) (w : World Sync) : World Sync → Prop
  | call (p : Profile) : (p.pair ∉ w.extra.handed → ok p) → Move ok w (hand w p)
  | write (o : Profile) (id : ℤ) : o ∈ w.objects → o.subscription = .active →
      Assoc.get w.extra.subscriptions o.pair = some o.id → Move ok w (relink w o id)

abbrev Moves (ok : Profile → Prop) : World Sync → World Sync → Prop := Relation.ReflTransGen (Move ok)

variable {ok : Profile → Prop} {t : Table} {profileId : ℤ} {w w' : World Sync}

theorem Move.inv (h : Inv t profileId w) (hm : Move ok w w') : Inv t profileId w' := by
  cases hm with
  | call p _ => exact (create_inv h p).1
  | write o id ho _ hget =>
    have h₁ : Inv t profileId { w with objects := replace w.objects (o.withFallback id) } :=
      replace_inv h ho rfl rfl rfl
    have hmem : o.id ∈ w.objects.map Profile.id := List.mem_map_of_mem ho
    exact update_inv h₁ (mem_replace.2 (Or.inr ⟨rfl, hmem⟩)) hget

theorem Moves.inv (h : Inv t profileId w) (hm : Moves ok w w') : Inv t profileId w' := by
  induction hm with
  | refl => exact h
  | tail _ hstep ih => exact hstep.inv ih

/-! ## What is kept -/

/-- Rows are added only, and active objects keep everything but their fallback. -/
structure Grows (w w' : World Sync) : Prop where
  ids : ∃ more, w'.table.ids = w.table.ids ++ more
  subs : ∀ k id, Assoc.get w.extra.subscriptions k = some id → Assoc.get w'.extra.subscriptions k = some id
  handed : ∀ k ∈ w.extra.handed, k ∈ w'.extra.handed
  objects : ∀ o ∈ w.objects, o.subscription = .active → ∃ o' ∈ w'.objects, o'.unlinked = o.unlinked

theorem Grows.refl (w : World Sync) : Grows w w :=
  ⟨⟨[], by simp⟩, fun _ _ h => h, fun _ h => h, fun o ho _ => ⟨o, ho, rfl⟩⟩

theorem Grows.trans {w w' w'' : World Sync} (h : Grows w w') (h' : Grows w' w'') : Grows w w'' := by
  obtain ⟨more, hmore⟩ := h.ids
  obtain ⟨more', hmore'⟩ := h'.ids
  refine ⟨⟨more ++ more', by rw [hmore', hmore, List.append_assoc]⟩, ?_, ?_, ?_⟩
  · exact fun k id hk => h'.subs k id (h.subs k id hk)
  · exact fun k hk => h'.handed k (h.handed k hk)
  · intro o ho ha
    obtain ⟨o', ho', heq⟩ := h.objects o ho ha
    have ha' : o'.subscription = .active := by rw [Profile.status_eq_of_unlinked heq, ha]
    obtain ⟨o'', ho'', heq'⟩ := h'.objects o' ho' ha'
    exact ⟨o'', ho'', heq'.trans heq⟩

theorem Move.grows (h : Inv t profileId w) (hm : Move ok w w') : Grows w w' := by
  cases hm with
  | call p _ =>
    have hobjects : ∀ o ∈ w.objects, o.subscription = .active →
        ∃ o' ∈ (hand w p).objects, o'.unlinked = o.unlinked :=
      fun o ho ha => ⟨o, (create_object h p).2 o ho ha, rfl⟩
    have hsubs : ∀ k id, Assoc.get w.extra.subscriptions k = some id →
        Assoc.get (hand w p).extra.subscriptions k = some id := fun _ _ hk => get_create h p hk
    refine ⟨?_, hsubs, ?_, hobjects⟩
    · unfold hand
      rcases create_cases h p with ⟨-, hc⟩ | ⟨o, -, -, -, hc⟩ | ⟨o, -, -, -, hc⟩
      · rw [hc]
        exact ⟨_, Table.ids_create _ _⟩
      · rw [hc]
        exact ⟨[], by simp⟩
      · rw [hc]
        exact ⟨[], by simp⟩
    · intro k hk
      unfold hand
      rcases create_cases h p with ⟨-, hc⟩ | ⟨o, -, -, -, hc⟩ | ⟨o, -, -, -, hc⟩ <;> rw [hc] <;>
        exact List.mem_cons_of_mem _ hk
  | write o id ho _ _ =>
    refine ⟨⟨[], ?_⟩, fun _ _ hk => hk, fun _ hk => hk, ?_⟩
    · rw [List.append_nil]
      exact Table.ids_update _ _
    · intro q hq _
      by_cases hid : q.id = o.id
      · have hmem : o.id ∈ w.objects.map Profile.id := List.mem_map_of_mem ho
        refine ⟨o.withFallback id, mem_replace.2 (Or.inr ⟨rfl, hmem⟩), ?_⟩
        rw [h.object_eq hq ho hid, Profile.unlinked_withFallback]
      · exact ⟨q, mem_replace.2 (Or.inl ⟨hq, hid⟩), rfl⟩

theorem Moves.grows (h : Inv t profileId w) (hm : Moves ok w w') : Grows w w' := by
  induction hm with
  | refl => exact Grows.refl w
  | tail hms hstep ih => exact ih.trans (hstep.grows (Moves.inv h hms))

/-! ## What is as in the beginning -/

/-- The rows and the objects, compared with the table at the beginning. -/
structure Shape (t : Table) (w : World Sync) : Prop where
  -- the rows that stay, and new ones
  ids : ∃ new, w.table.ids = (kept t.rows).map Profile.id ++ new ∧ ∀ i ∈ new, t.seq < i
  subs : ∀ r ∈ kept t.rows, r.subscription ≠ .userConfigured →
    Assoc.get w.extra.subscriptions r.pair = some r.id
  known : ∀ k ∈ w.extra.handed, ∃ id, Assoc.get w.extra.subscriptions k = some id
  -- a row is its object, or will be
  row : ∀ r ∈ w.table.rows, r ∈ w.objects ∨ r.id ∈ w.extra.toUpdate
  -- a row that is not as in the beginning is an active object, up to the fallback
  stale : ∀ r ∈ w.table.rows, r ∈ t.rows ∨ ∃ o ∈ w.objects, o.subscription = .active ∧ o.unlinked = r.unlinked
  idle : ∀ o ∈ w.objects, o.subscription ≠ .active → ∃ r ∈ t.rows, o = marked t.rows r
  features : ∀ o ∈ w.objects, ∀ r ∈ t.rows, r.id = o.id → o.copyFeatureSettingsTo = r.copyFeatureSettingsTo

theorem Preprocessed.shape (h : Preprocessed t profileId t.rows [] w) : Shape t w := by
  have hrows := h.kept_rows
  refine ⟨⟨[], ?_, by simp⟩, ?_, ?_, ?_, ?_, fun o ho _ => h.exists_row ho, ?_⟩
  · rw [List.append_nil, Table.ids, hrows]
  · exact fun r hr hs => (h.subs _ _).2 ⟨r, hr, hs, rfl, rfl⟩
  · rw [h.handed]
    simp
  · intro r hr
    rw [hrows] at hr
    by_cases ha : r.subscription = .active
    · exact Or.inr ((h.toUpdate _).2 ⟨r, hr, ha, rfl⟩)
    · left
      have hm := h.done r (mem_of_mem_kept hr)
      rw [marked_of_not_active ha] at hm
      exact hm
  · intro r hr
    rw [hrows] at hr
    exact Or.inl (mem_of_mem_kept hr)
  · intro o ho r hr hid
    obtain ⟨q, hq, rfl⟩ := h.exists_row ho
    rw [id_marked] at hid
    rw [Table.eq_of_id hr hq hid]
    unfold marked
    split <;> rfl

theorem handed_hand (h : Inv t profileId w) (p : Profile) :
    (hand w p).extra.handed = p.pair :: w.extra.handed := by
  unfold hand
  rcases create_cases h p with ⟨-, hc⟩ | ⟨o, -, -, -, hc⟩ | ⟨o, -, -, -, hc⟩
  · rw [hc]
  · rw [hc]
  · rw [hc]

/-- The pairs that were handed stay in the map, and so do the rows of the beginning. -/
theorem Move.shape_subs (h : Inv t profileId w) (hs : Shape t w) (hm : Move ok w w') :
    (∀ r ∈ kept t.rows, r.subscription ≠ .userConfigured → Assoc.get w'.extra.subscriptions r.pair = some r.id) ∧
      ∀ k ∈ w'.extra.handed, ∃ id, Assoc.get w'.extra.subscriptions k = some id := by
  have hgrow := hm.grows h
  refine ⟨fun r hr hr' => hgrow.subs _ _ (hs.subs r hr hr'), ?_⟩
  cases hm with
  | call p _ =>
    intro k hk
    rw [handed_hand h, List.mem_cons] at hk
    rcases hk with rfl | hk
    · obtain ⟨⟨o, -, -, -, -, hget, -⟩, -⟩ := create_object h p
      exact ⟨o.id, hget⟩
    · obtain ⟨id, hid⟩ := hs.known k hk
      exact ⟨id, hgrow.subs k id hid⟩
  | write o id _ _ _ => exact hs.known

/-- A new profile: its row is its object. -/
theorem Shape.append_stored (hs : Shape t w) (h : Inv t profileId w) (p : Profile) {sync : Sync}
    (hupdate : sync.toUpdate = w.extra.toUpdate)
    (hsubs : ∀ r ∈ kept t.rows, r.subscription ≠ .userConfigured →
      Assoc.get sync.subscriptions r.pair = some r.id)
    (hknown : ∀ k ∈ sync.handed, ∃ id, Assoc.get sync.subscriptions k = some id) :
    Shape t ⟨w.table.create (stored w p), w.objects ++ [stored w p], sync⟩ := by
  have hstored : (stored w p).withId (w.table.seq + 1) = stored w p := rfl
  have hle := h.seq_le
  obtain ⟨new, hnew, hlt⟩ := hs.ids
  refine ⟨⟨new ++ [w.table.seq + 1], ?_, ?_⟩, hsubs, hknown, ?_, ?_, ?_, ?_⟩
  · rw [Table.ids_create, hnew, List.append_assoc]
  · intro i hi
    rcases List.mem_append.1 hi with hi | hi
    · exact hlt i hi
    · rw [List.mem_singleton] at hi
      omega
  · intro r hr
    rcases Table.mem_create.1 hr with hr | rfl
    · rcases hs.row r hr with hr | hr
      · exact Or.inl (List.mem_append_left _ hr)
      · exact Or.inr (hupdate ▸ hr)
    · rw [hstored]
      exact Or.inl (List.mem_append_right _ List.mem_cons_self)
  · intro r hr
    rcases Table.mem_create.1 hr with hr | rfl
    · rcases hs.stale r hr with hr | ⟨o, ho, hrest⟩
      · exact Or.inl hr
      · exact Or.inr ⟨o, List.mem_append_left _ ho, hrest⟩
    · rw [hstored]
      exact Or.inr ⟨_, List.mem_append_right _ List.mem_cons_self, rfl, rfl⟩
  · intro o ho hne
    rcases List.mem_append.1 ho with ho | ho
    · exact hs.idle o ho hne
    · rw [List.mem_singleton] at ho
      exact absurd (by rw [ho]; rfl) hne
  · intro o ho r hr hid
    rcases List.mem_append.1 ho with ho | ho
    · exact hs.features o ho r hr hid
    · have hold := t.le_seq r hr
      have hoid : o.id = w.table.seq + 1 := by
        rw [List.mem_singleton.1 ho]
        rfl
      omega

/-- An obsolete object is refreshed: its row will be written. -/
theorem Shape.refresh (hs : Shape t w) (h : Inv t profileId w) {o : Profile} (p : Profile) (ho : o ∈ w.objects)
    (hst : o.subscription = .obsolete) {sync : Sync} (hupdate : sync.toUpdate = o.id :: w.extra.toUpdate)
    (hsubs : ∀ r ∈ kept t.rows, r.subscription ≠ .userConfigured →
      Assoc.get sync.subscriptions r.pair = some r.id)
    (hknown : ∀ k ∈ sync.handed, ∃ id, Assoc.get sync.subscriptions k = some id) :
    Shape t ⟨w.table, replace w.objects (o.refresh p), sync⟩ := by
  have hkeep : ∀ q ∈ w.objects, q.id ≠ o.id → q ∈ replace w.objects (o.refresh p) :=
    fun q hq hne => mem_replace.2 (Or.inl ⟨hq, hne⟩)
  refine ⟨hs.ids, hsubs, hknown, ?_, ?_, ?_, ?_⟩
  · intro r hr
    rw [hupdate]
    by_cases hid : r.id = o.id
    · right
      rw [hid]
      exact List.mem_cons_self
    · rcases hs.row r hr with hr | hr
      · exact Or.inl (hkeep r hr hid)
      · exact Or.inr (List.mem_cons_of_mem _ hr)
  · intro r hr
    rcases hs.stale r hr with hr | ⟨q, hq, hqa, hqr⟩
    · exact Or.inl hr
    · refine Or.inr ⟨q, hkeep q hq ?_, hqa, hqr⟩
      -- the object that is refreshed was not active
      intro hid
      rw [h.object_eq hq ho hid, hst] at hqa
      cases hqa
  · intro q hq hne
    rcases mem_replace.1 hq with ⟨hq, -⟩ | ⟨rfl, -⟩
    · exact hs.idle q hq hne
    · exact absurd rfl hne
  · intro q hq r hr hid
    rcases mem_replace.1 hq with ⟨hq, -⟩ | ⟨rfl, -⟩
    · exact hs.features q hq r hr hid
    · exact hs.features o ho r hr hid

/-- An active object is linked: its row is written at once. -/
theorem Shape.relink (hs : Shape t w) {o : Profile} (id : ℤ) (ho : o ∈ w.objects) (ha : o.subscription = .active) :
    Shape t (relink w o id) := by
  have hmem : o.withFallback id ∈ replace w.objects (o.withFallback id) := by
    have hid : o.id ∈ w.objects.map Profile.id := List.mem_map_of_mem ho
    exact mem_replace.2 (Or.inr ⟨rfl, hid⟩)
  obtain ⟨new, hnew, hlt⟩ := hs.ids
  refine ⟨⟨new, (Table.ids_update _ _).trans hnew, hlt⟩, hs.subs, hs.known, ?_, ?_, ?_, ?_⟩
  · intro r hr
    rcases Table.mem_update.1 hr with ⟨hr, hne⟩ | ⟨rfl, -⟩
    · rcases hs.row r hr with hr | hr
      · exact Or.inl (mem_replace.2 (Or.inl ⟨hr, hne⟩))
      · exact Or.inr hr
    · exact Or.inl hmem
  · intro r hr
    rcases Table.mem_update.1 hr with ⟨hr, hne⟩ | ⟨rfl, -⟩
    · rcases hs.stale r hr with hr | ⟨q, hq, hqa, hqr⟩
      · exact Or.inl hr
      · have hid : q.id ≠ o.id := by
          rw [Profile.id_eq_of_unlinked hqr]
          exact hne
        exact Or.inr ⟨q, mem_replace.2 (Or.inl ⟨hq, hid⟩), hqa, hqr⟩
    · exact Or.inr ⟨_, hmem, ha, rfl⟩
  · intro q hq hne
    rcases mem_replace.1 hq with ⟨hq, -⟩ | ⟨rfl, -⟩
    · exact hs.idle q hq hne
    · exact absurd ha hne
  · intro q hq r hr hid
    rcases mem_replace.1 hq with ⟨hq, -⟩ | ⟨rfl, -⟩
    · exact hs.features q hq r hr hid
    · exact hs.features o ho r hr hid

theorem Move.shape (h : Inv t profileId w) (hs : Shape t w) (hm : Move ok w w') : Shape t w' := by
  obtain ⟨hsubs, hknown⟩ := hm.shape_subs h hs
  cases hm with
  | call p _ =>
    unfold hand at hsubs hknown ⊢
    rcases create_cases h p with ⟨hget, hc⟩ | ⟨o, ho, hget, ha, hc⟩ | ⟨o, ho, hget, hst, hc⟩
    · rw [hc] at hsubs hknown ⊢
      exact hs.append_stored h p rfl hsubs hknown
    · rw [hc] at hsubs hknown ⊢
      exact ⟨hs.ids, hsubs, hknown, hs.row, hs.stale, hs.idle, hs.features⟩
    · rw [hc] at hsubs hknown ⊢
      exact hs.refresh h p ho hst rfl hsubs hknown
  | write o id ho ha _ => exact hs.relink id ho ha

theorem Moves.shape (h : Inv t profileId w) (hs : Shape t w) (hm : Moves ok w w') : Shape t w' := by
  induction hm with
  | refl => exact hs
  | tail hms hstep ih => exact hstep.shape (Moves.inv h hms) ih

/-! ## Running a content -/

/-- The profiles of a document are handed over; only the first of a pair has to meet `ok`. -/
theorem hands_moves (ps : List Profile) : ∀ {w : World Sync}, Inv t profileId w →
    (∀ a p b, ps = a ++ p :: b → (∀ q ∈ a, q.pair ≠ p.pair) → p.pair ∉ w.extra.handed → ok p) →
    Moves ok w (ps.foldl hand w) := by
  induction ps with
  | nil => exact fun _ _ => .refl
  | cons p ps ih =>
    intro w h hok
    have hmove : Move ok w (hand w p) := .call p (hok [] p ps rfl (by simp))
    refine .head hmove (ih (hmove.inv h) ?_)
    rintro a q b rfl hne hq
    rw [handed_hand h, List.mem_cons, not_or] at hq
    refine hok (p :: a) q b rfl ?_ hq.2
    intro x hx
    rcases List.mem_cons.1 hx with rfl | hx
    · exact Ne.symm hq.1
    · exact hne x hx

theorem mains_moves (h : Inv t profileId w) (ps : List Profile) : Moves (fun _ => True) w (ps.foldl hand w) :=
  hands_moves ps h (fun _ _ _ _ _ _ => trivial)

theorem handed_hands (ps : List Profile) : ∀ {w : World Sync}, Inv t profileId w →
    ∀ k, k ∈ (ps.foldl hand w).extra.handed ↔ k ∈ w.extra.handed ∨ ∃ p ∈ ps, p.pair = k := by
  induction ps with
  | nil => simp
  | cons p ps ih =>
    intro w h k
    have h' : Inv t profileId (hand w p) := (create_inv h p).1
    rw [List.foldl_cons, ih h', handed_hand h, List.mem_cons, List.exists_mem_cons_iff, eq_comm]
    tauto

theorem target_moves (rows : List Profile) (w : World Sync) (f : Profile)
    (hok : rows.find? (matching f) = none → f.pair ∉ w.extra.handed → ok f) :
    Moves ok w (target create rows w f).1 := by
  unfold target
  cases hfind : rows.find? (matching f) with
  | some m => exact .refl
  | none => exact .single (.call f (hok hfind))

/-- A fallback is resolved: the object of the profile is linked to the target. -/
theorem resolve_write (h : Inv t profileId w) (hs : Shape t w) (rows : List Profile) {l : Key × Profile}
    (hk : l.1 ∈ w.extra.handed) :
    ∃ o ∈ (target create rows w l.2).1.objects, o.subscription = .active ∧ o.pair = l.1 ∧
      Assoc.get (target create rows w l.2).1.extra.subscriptions l.1 = some o.id ∧
      resolve rows w l = relink (target create rows w l.2).1 o (target create rows w l.2).2 := by
  obtain ⟨id, hget⟩ := hs.known l.1 hk
  have hms : Moves (fun _ => True) w (target create rows w l.2).1 :=
    target_moves rows w l.2 (fun _ _ => trivial)
  obtain ⟨o, ho, hid, hp, -, -, hres⟩ := resolve_eq h rows hget
  have hget' : Assoc.get (target create rows w l.2).1.extra.subscriptions l.1 = some o.id := by
    rw [hid]
    exact (hms.grows h).subs _ _ hget
  refine ⟨o, ho, ?_, hp, hget', hres⟩
  rw [(hms.inv h).active o ho (by rw [hp]; exact hget'), hp]
  exact (hms.grows h).handed _ hk

theorem resolve_moves (h : Inv t profileId w) (hs : Shape t w) (rows : List Profile) {l : Key × Profile}
    (hk : l.1 ∈ w.extra.handed)
    (hok : rows.find? (matching l.2) = none → l.2.pair ∉ w.extra.handed → ok l.2) :
    Moves ok w (resolve rows w l) := by
  obtain ⟨o, ho, ha, hp, hget, hres⟩ := resolve_write h hs rows hk
  rw [hres]
  exact (target_moves rows w l.2 hok).tail (.write o _ ho ha (by rw [hp]; exact hget))

theorem resolves_moves (rows : List Profile) (ls : List (Key × Profile)) : ∀ {w : World Sync}, Inv t profileId w →
    Shape t w → (∀ l ∈ ls, l.1 ∈ w.extra.handed) →
    (∀ l ∈ ls, rows.find? (matching l.2) = none → l.2.pair ∉ w.extra.handed → ok l.2) →
    Moves ok w (ls.foldl (resolve rows) w) := by
  induction ls with
  | nil => exact fun _ _ _ _ => .refl
  | cons l ls ih =>
    intro w h hs hkeys hok
    have hms := resolve_moves h hs rows (hkeys l List.mem_cons_self) (hok l List.mem_cons_self)
    have hgrow := hms.grows h
    refine hms.trans (ih (hms.inv h) (hms.shape h hs) ?_ ?_)
    · exact fun x hx => hgrow.handed _ (hkeys x (List.mem_cons_of_mem l hx))
    · exact fun x hx hfind hx' => hok x (List.mem_cons_of_mem l hx) hfind (fun hh => hx' (hgrow.handed _ hh))

theorem links_handed (h : Inv t profileId w) {c : Content} (hc : c.WellFormed) :
    ∀ l ∈ c.links, l.1 ∈ (c.mains.foldl hand w).extra.handed := by
  intro l hl
  obtain ⟨-, p, hp, hpair⟩ := hc.links l hl
  exact (handed_hands c.mains h l.1).2 (Or.inr ⟨p, hp, hpair⟩)

theorem links_moves (h : Inv t profileId w) (hs : Shape t w) {c : Content} (hc : c.WellFormed)
    (hok : ∀ l ∈ c.links, (c.mains.foldl hand w).table.rows.find? (matching l.2) = none →
      l.2.pair ∉ (c.mains.foldl hand w).extra.handed → ok l.2) :
    Moves ok (c.mains.foldl hand w) (run w c) := by
  have hms : Moves (fun _ => True) w (c.mains.foldl hand w) :=
    mains_moves h c.mains
  exact resolves_moves _ _ (hms.inv h) (hms.shape h hs) (links_handed h hc) hok

/-! ## What is handed over -/

/-- A profile of the documents, or one of their fallbacks. -/
def Yielded (cs : List Content) (p : Profile) : Prop := ∃ c ∈ cs, p ∈ c.mains ∨ ∃ l ∈ c.links, l.2 = p

theorem Moves.handed_only (h : Inv t profileId w) (hm : Moves ok w w') :
    ∀ k ∈ w'.extra.handed, k ∈ w.extra.handed ∨ ∃ p, ok p ∧ p.pair = k := by
  induction hm with
  | refl => exact fun k hk => Or.inl hk
  | @tail v v' hms hstep ih =>
    intro k hk
    cases hstep with
    | call p hp =>
      rw [handed_hand (Moves.inv h hms), List.mem_cons] at hk
      rcases hk with rfl | hk
      · by_cases hv : p.pair ∈ v.extra.handed
        · exact ih _ hv
        · exact Or.inr ⟨p, hp hv, rfl⟩
      · exact ih k hk
    | write o id _ _ _ => exact ih k hk

theorem run_yielded {cs : List Content} (h : Inv t profileId w) (hs : Shape t w) {c : Content} (hc : c.WellFormed)
    (hcs : c ∈ cs) : Moves (Yielded cs) w (run w c) := by
  refine (hands_moves c.mains h ?_).trans (links_moves h hs hc ?_)
  · rintro a p b hsplit - -
    exact ⟨c, hcs, Or.inl (by rw [hsplit]; simp)⟩
  · intro l hl _ _
    exact ⟨c, hcs, Or.inr ⟨l, hl, rfl⟩⟩

/-- **Every profile of the documents is handed over**, and nothing but them and their fallbacks. -/
theorem runs_handed {cs : List Content} : ∀ (post : List Content) {w : World Sync}, (∀ c ∈ post, c ∈ cs) →
    (∀ c ∈ post, c.WellFormed) → Inv t profileId w → Shape t w →
    (∀ c ∈ post, ∀ p ∈ c.mains, p.pair ∈ (post.foldl run w).extra.handed) ∧
      Moves (Yielded cs) w (post.foldl run w)
  | [], _, _, _, _, _ => ⟨by simp, .refl⟩
  | c :: post, w, hcs, hwf, h, hs => by
    have hc := hwf c List.mem_cons_self
    have hms := run_yielded h hs hc (hcs c List.mem_cons_self)
    obtain ⟨hhanded, hrest⟩ := runs_handed post (fun x hx => hcs x (List.mem_cons_of_mem c hx))
      (fun x hx => hwf x (List.mem_cons_of_mem c hx)) (hms.inv h) (hms.shape h hs)
    refine ⟨?_, hms.trans hrest⟩
    intro x hx p hp
    rcases List.mem_cons.1 hx with rfl | hx
    · have hmains : p.pair ∈ (x.mains.foldl hand w).extra.handed :=
        (handed_hands x.mains h p.pair).2 (Or.inr ⟨p, hp, rfl⟩)
      have hhands := mains_moves h x.mains
      have hlinks : Moves (fun _ => True) (x.mains.foldl hand w) (run w x) :=
        links_moves h hs hc (fun _ _ _ _ => trivial)
      exact (hrest.grows (hms.inv h)).handed _ ((hlinks.grows (hhands.inv h)).handed _ hmains)
    · exact hhanded x hx p hp

/-- **Running a content is a sequence of moves.** -/
theorem run_moves (h : Inv t profileId w) (hs : Shape t w) {c : Content} (hc : c.WellFormed) :
    Moves (fun _ => True) w (run w c) :=
  (mains_moves h c.mains).trans
    (links_moves h hs hc (fun _ _ _ _ => trivial))

theorem runs_moves : ∀ (cs : List Content) {w : World Sync}, (∀ c ∈ cs, c.WellFormed) → Inv t profileId w →
    Shape t w → Moves (fun _ => True) w (cs.foldl run w)
  | [], _, _, _, _ => .refl
  | c :: cs, w, hcs, h, hs => by
    have hms := run_moves h hs (hcs c List.mem_cons_self)
    exact hms.trans (runs_moves cs (fun x hx => hcs x (List.mem_cons_of_mem c hx)) (hms.inv h) (hms.shape h hs))

end Sync

end BlackButton
