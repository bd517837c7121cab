import Mathlib.Data.List.Basic
import Mathlib.Data.List.TakeDrop

/-!
# Remembering the newest items in two generations

A set of bounded size that has to forget can be kept as two generations: items go into
the current one; when it is full, the old one is emptied and becomes the current one.
Nothing is moved and no item has an age, yet the newest `N` items are always there.

* `Generations.Remembers.add`: what is there after one more item.
* `Generations.Remembers.take_subset`: **the newest `N` items of the history are there.**
* `current_le`, `old_le`: no generation is larger than `N`.
* `Spaced.cons`: a history into which only items go that are not there repeats itself only after at
  least `N` others.
-/

namespace BlackButton

/-- Two generations of at most `N` items, newest first; the old one is empty or full. -/
structure Generations (α : Type) (N : ℕ) where
  current : List α
  old : List α
  pos : 0 < N
  current_le : current.length ≤ N
  old_full : old = [] ∨ old.length = N

namespace Generations

variable {α : Type} {N : ℕ}

/-- Two empty generations. -/
def empty (pos : 0 < N) : Generations α N := ⟨[], [], pos, Nat.zero_le N, Or.inl rfl⟩

/-- The generations after one more item. -/
def add (g : Generations α N) (x : α) : Generations α N :=
  if h : N ≤ g.current.length then ⟨[x], g.current, g.pos, g.pos, Or.inr (Nat.le_antisymm g.current_le h)⟩
  else ⟨x :: g.current, g.old, g.pos, Nat.lt_of_not_le h, g.old_full⟩

/-- What is there, newest first. -/
def items (g : Generations α N) : List α := g.current ++ g.old

variable {g : Generations α N} {x : α} {history : List α}

theorem add_of_full (h : N ≤ g.current.length) : (g.add x).current = [x] ∧ (g.add x).old = g.current := by
  unfold add
  rw [dif_pos h]
  exact ⟨rfl, rfl⟩

theorem add_of_room (h : ¬N ≤ g.current.length) :
    (g.add x).current = x :: g.current ∧ (g.add x).old = g.old := by
  unfold add
  rw [dif_neg h]
  exact ⟨rfl, rfl⟩

/-- No generation is larger than `N`. -/
theorem old_le (g : Generations α N) : g.old.length ≤ N := by
  rcases g.old_full with h | h
  · rw [h]
    exact Nat.zero_le N
  · exact Nat.le_of_eq h

/-- What is there is the newest part of the history; if anything is forgotten, it is at least `N` items long. -/
def Remembers (g : Generations α N) (history : List α) : Prop :=
  ∃ forgotten, history = g.items ++ forgotten ∧ (forgotten = [] ∨ N ≤ g.items.length)

theorem remembers_empty (pos : 0 < N) : (empty pos : Generations α N).Remembers [] := ⟨[], rfl, Or.inl rfl⟩

theorem Remembers.add (h : g.Remembers history) (x : α) : (g.add x).Remembers (x :: history) := by
  obtain ⟨forgotten, rfl, hlong⟩ := h
  by_cases hfull : N ≤ g.current.length
  · obtain ⟨hcurrent, hold⟩ := add_of_full (x := x) hfull
    refine ⟨g.old ++ forgotten, ?_, Or.inr ?_⟩
    · unfold items
      rw [hcurrent, hold]
      simp
    · unfold items
      rw [hcurrent, hold, List.length_append]
      omega
  · obtain ⟨hcurrent, hold⟩ := add_of_room (x := x) hfull
    have hitems : (g.add x).items = x :: g.items := by
      unfold items
      rw [hcurrent, hold, List.cons_append]
    refine ⟨forgotten, by rw [hitems, List.cons_append], ?_⟩
    rw [hitems, List.length_cons]
    exact hlong.imp_right fun hN => by omega

/-- **The newest `N` items are there.** -/
theorem Remembers.take_subset (h : g.Remembers history) : history.take N ⊆ g.items := by
  obtain ⟨forgotten, rfl, hlong⟩ := h
  intro y hy
  rcases hlong with rfl | hN
  · rw [List.append_nil] at hy
    exact List.mem_of_mem_take hy
  · rw [List.take_append_of_le_length hN] at hy
    exact List.mem_of_mem_take hy

end Generations

/-- Between two equal items of the list there are at least `N` others. -/
def Spaced {α : Type} (N : ℕ) (xs : List α) : Prop :=
  ∀ i j x, i < j → xs[i]? = some x → xs[j]? = some x → N < j - i

variable {α : Type} {N : ℕ}

theorem spaced_nil : Spaced N ([] : List α) := by
  intro i j x _ hi
  cases hi

theorem Spaced.cons {xs : List α} (h : Spaced N xs) {x : α} (hx : x ∉ xs.take N) : Spaced N (x :: xs) := by
  intro i j y hij hi hj
  obtain ⟨j, rfl⟩ : ∃ k, j = k + 1 := ⟨j - 1, by omega⟩
  rw [List.getElem?_cons_succ] at hj
  cases i with
  | zero =>
    rw [List.getElem?_cons_zero] at hi
    cases hi
    by_contra hle
    have hlt : j < N := by omega
    refine hx (List.mem_of_getElem? (i := j) ?_)
    rw [List.getElem?_take_of_lt hlt]
    exact hj
  | succ i =>
    rw [List.getElem?_cons_succ] at hi
    have hdist := h i j y (by omega) hi hj
    omega

end BlackButton
