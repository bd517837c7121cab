import Mathlib.Data.List.Sort

/-!
# Sorted lists without duplicates, and folds that can fail

* `SortedList.add` is `androidx.recyclerview.widget.SortedList.add` for a
  comparator that agrees with `==`: an element that is already there is not added
  again, another one is inserted at its place. As a set, adding is inserting
  (`mem_add`, `mem_addAll`).
* `sorted_addAll`: for a total order that is consistent with equality, the list
  stays strictly increasing.
* `foldlM_inv`: what a step of a loop keeps when it does not throw, the loop
  keeps.
-/

namespace BlackButton

namespace SortedList

variable {α : Type} [DecidableEq α]

/-- Add an element to a sorted list without duplicates. -/
def add (le : α → α → Bool) (l : List α) (x : α) : List α :=
  if x ∈ l then l else l.orderedInsert (fun a b => le a b = true) x

/-- Add the elements of a list, one after the other. -/
def addAll (le : α → α → Bool) (l xs : List α) : List α := xs.foldl (add le) l

theorem mem_add {le : α → α → Bool} {l : List α} {x y : α} : y ∈ add le l x ↔ y ∈ l ∨ y = x := by
  unfold add
  split
  · rename_i h
    constructor
    · exact Or.inl
    · rintro (hy | rfl)
      · exact hy
      · exact h
  · rw [List.mem_orderedInsert, or_comm]

theorem mem_addAll {le : α → α → Bool} {xs : List α} {y : α} :
    ∀ {l : List α}, y ∈ addAll le l xs ↔ y ∈ l ∨ y ∈ xs := by
  induction xs with
  | nil => intro l; simp [addAll]
  | cons x xs ih =>
    intro l
    have := ih (l := add le l x)
    simp only [addAll, List.foldl_cons] at this ⊢
    rw [this, mem_add, List.mem_cons, or_assoc]

/-! ### The list is sorted -/

section Comparator

variable (cmp : α → α → Ordering) [Std.TransCmp cmp] [Std.LawfulEqCmp cmp]

/-- Strictly increasing; in particular without duplicates (`Sorted.nodup`). -/
def Sorted (l : List α) : Prop := l.Pairwise fun a b => cmp a b = .lt

variable {cmp}

omit [DecidableEq α] [Std.LawfulEqCmp cmp] in
theorem Sorted.nodup {l : List α} (h : Sorted cmp l) : l.Nodup := by
  apply h.imp
  rintro a b hab rfl
  exact absurd (hab.symm.trans Std.ReflCmp.compare_self) (by decide)

omit [DecidableEq α] in
/-- Inserting an element that is not there. -/
theorem sorted_orderedInsert {x : α} {l : List α} (hx : x ∉ l) (h : Sorted cmp l) :
    Sorted cmp (l.orderedInsert (fun a b => (cmp a b != .gt) = true) x) := by
  induction l with
  | nil => exact List.pairwise_singleton _ _
  | cons y l ih =>
    obtain ⟨hy, hl⟩ := List.pairwise_cons.1 h
    rw [List.mem_cons, not_or] at hx
    rw [List.orderedInsert_cons]
    split
    · rename_i hle
      have hlt : cmp x y = .lt := by
        cases hcmp : cmp x y with
        | lt => rfl
        | eq => exact absurd (Std.LawfulEqCmp.eq_of_compare hcmp) hx.1
        | gt => rw [hcmp] at hle; exact absurd hle (by decide)
      refine List.pairwise_cons.2 ⟨?_, h⟩
      intro z hz
      rcases List.mem_cons.1 hz with rfl | hz
      · exact hlt
      · exact Std.TransCmp.lt_trans hlt (hy z hz)
    · rename_i hgt
      have hlt : cmp y x = .lt := by
        apply Std.OrientedCmp.lt_of_gt
        simpa using hgt
      refine List.pairwise_cons.2 ⟨?_, ih hx.2 hl⟩
      intro z hz
      rcases (List.mem_orderedInsert _).1 hz with rfl | hz
      · exact hlt
      · exact hy z hz

theorem sorted_add {x : α} {l : List α} (h : Sorted cmp l) :
    Sorted cmp (add (fun a b => cmp a b != .gt) l x) := by
  unfold add
  split
  · exact h
  · rename_i hx
    exact sorted_orderedInsert hx h

/-- **The list stays sorted.** -/
theorem sorted_addAll {xs : List α} : ∀ {l : List α}, Sorted cmp l →
    Sorted cmp (addAll (fun a b => cmp a b != .gt) l xs) := by
  induction xs with
  | nil => exact fun h => h
  | cons x xs ih => exact fun h => ih (sorted_add h)

end Comparator

end SortedList

variable {ε σ α : Type}

/-- A computation that ends well went well in both parts. -/
theorem Except.bind_eq_ok {β : Type} {x : Except ε α} {f : α → Except ε β} {b : β} :
    (x >>= f) = .ok b ↔ ∃ a, x = .ok a ∧ f a = .ok b := by
  cases x with
  | error e => simp [bind, Except.bind]
  | ok a => simp [bind, Except.bind]

/-- **The loop rule.** What every step keeps, the loop keeps. -/
theorem foldlM_inv {f : σ → α → Except ε σ} {I : σ → Prop} {xs : List α}
    (hstep : ∀ s x s', x ∈ xs → I s → f s x = .ok s' → I s') :
    ∀ {s s' : σ}, I s → xs.foldlM f s = .ok s' → I s' := by
  induction xs with
  | nil =>
    intro s s' hI h
    cases h; exact hI
  | cons x xs ih =>
    intro s s' hI h
    rw [List.foldlM_cons, Except.bind_eq_ok] at h
    obtain ⟨s₁, h1, h2⟩ := h
    exact ih (fun t y t' hy => hstep t y t' (List.mem_cons_of_mem _ hy))
      (hstep s x s₁ List.mem_cons_self hI h1) h2

/-- A loop whose steps do not throw is a plain fold. -/
theorem foldlM_eq_foldl {f : σ → α → Except ε σ} {g : σ → α → σ} {I : σ → Prop} {xs : List α}
    (hI : ∀ s x, x ∈ xs → I s → I (g s x)) (hf : ∀ s x, x ∈ xs → I s → f s x = .ok (g s x)) :
    ∀ {s : σ}, I s → xs.foldlM f s = .ok (xs.foldl g s) := by
  induction xs with
  | nil => intro s _; rfl
  | cons x xs ih =>
    intro s hs
    rw [List.foldlM_cons, hf s x List.mem_cons_self hs]
    exact ih (fun t y hy => hI t y (List.mem_cons_of_mem _ hy))
      (fun t y hy => hf t y (List.mem_cons_of_mem _ hy)) (hI s x List.mem_cons_self hs)

end BlackButton
