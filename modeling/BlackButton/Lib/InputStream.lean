import Mathlib.Data.List.Basic

/-!
# Input streams that deliver chunks

What arrives on a stream is cut into chunks that nobody chooses: a read returns as much
of the next chunk as it asked for, and less than it asked for if the chunk is shorter.

* `read_spec`: what one read returns, and what is left.
* `untilBoundary`: how far a read at some position can get.
-/

namespace BlackButton

/-- The chunks that a stream delivers before it ends. -/
structure InputStream (α : Type) where
  chunks : List (List α)
  ne_nil : ∀ c ∈ chunks, c ≠ []

namespace InputStream

variable {α : Type}

/-- Everything that arrives. -/
def bytes (s : InputStream α) : List α := s.chunks.flatten

/-- `InputStream.read` into an array of size `n`; `none` is the end of the stream. -/
def read (n : ℕ) (s : InputStream α) : Option (List α) × InputStream α :=
  match h : s.chunks with
  | [] => (none, s)
  | c :: cs =>
    have hcs : ∀ d ∈ cs, d ≠ [] := fun d hd => s.ne_nil d (by rw [h]; exact List.mem_cons_of_mem c hd)
    if hn : c.length ≤ n then (some c, ⟨cs, hcs⟩)
    else (some (c.take n), ⟨c.drop n :: cs, List.forall_mem_cons.2 ⟨by simpa using hn, hcs⟩⟩)

/-- How many elements the chunk has from a position on, if there is one. -/
def untilBoundary : ℕ → List (List α) → ℕ
  | _, [] => 0
  | i, c :: cs => if i < c.length then c.length - i else untilBoundary (i - c.length) cs

/-- **One read**: what it returns and what it leaves, by the chunk that is next. -/
theorem read_spec (n : ℕ) (s : InputStream α) :
    (read n s).1.getD [] = s.bytes.take (min n (untilBoundary 0 s.chunks)) ∧
      (read n s).2.bytes = s.bytes.drop (min n (untilBoundary 0 s.chunks)) ∧
      ((read n s).1 = none ↔ s.bytes = []) := by
  obtain ⟨chunks, hne⟩ := s
  cases chunks with
  | nil => exact ⟨by simp [read, bytes], by simp [read, bytes], by simp [read, bytes]⟩
  | cons c cs =>
    have hc : c ≠ [] := hne c List.mem_cons_self
    have hpos : 0 < c.length := List.length_pos_of_ne_nil hc
    have hboundary : untilBoundary 0 (c :: cs) = c.length := by
      unfold untilBoundary
      rw [if_pos hpos, Nat.sub_zero]
    have hbytes : bytes ⟨c :: cs, hne⟩ = c ++ cs.flatten := rfl
    rw [hboundary, hbytes]
    unfold read
    by_cases hn : c.length ≤ n
    · simp only [hn, dif_pos, Nat.min_eq_right hn, Option.getD_some, List.take_left, List.drop_left]
      exact ⟨trivial, rfl, by simp [hc]⟩
    · have hlt : n ≤ c.length := by omega
      simp only [hn, dif_neg, not_false_eq_true, Nat.min_eq_left hlt, Option.getD_some]
      exact ⟨(List.take_append_of_le_length hlt).symm, (List.drop_append_of_le_length hlt).symm, by simp [hc]⟩

/-- `InputStream.read()`: the next element. -/
def readOne (s : InputStream α) : Option α × InputStream α := ((read 1 s).1.bind List.head?, (read 1 s).2)

/-- The next element, and how the rest of its chunk gets shorter. -/
theorem readOne_spec (s : InputStream α) :
    (readOne s).1 = s.bytes.head? ∧ (readOne s).2.bytes = s.bytes.tail ∧
      ∀ i, untilBoundary i (readOne s).2.chunks = untilBoundary (i + 1) s.chunks := by
  obtain ⟨chunks, hne⟩ := s
  cases chunks with
  | nil => exact ⟨rfl, rfl, fun i => rfl⟩
  | cons c cs =>
    cases c with
    | nil => exact absurd rfl (hne [] List.mem_cons_self)
    | cons a c =>
      unfold readOne read
      cases c with
      | nil =>
        refine ⟨rfl, rfl, fun i => ?_⟩
        simp only [untilBoundary, List.length_singleton, Nat.add_sub_cancel]
        rfl
      | cons b c =>
        have hlen : ¬ (a :: b :: c).length ≤ 1 := by simp
        simp only [hlen, dif_neg, not_false_eq_true]
        refine ⟨rfl, rfl, fun i => ?_⟩
        simp only [untilBoundary, List.drop_succ_cons, List.drop_zero, List.length_cons]
        by_cases hi : i < c.length + 1
        · rw [if_pos hi, if_pos (by omega)]
          omega
        · rw [if_neg hi, if_neg (by omega)]
          congr 1
          omega

end InputStream

end BlackButton
