import Mathlib.Data.List.Dedup
import Mathlib.Data.List.Perm.Subperm
import BlackButton.Lib.Assoc

/-!
# Caches that forget what was used least recently

A cache with a capacity is what its operations are; `Lawful` says of them what a user may rely on, in
terms of the entries that its iterator shows, the most recently used first. That an entry expires is
an operation of the clock.

* `Newer`: what has been used since an entry was; `Newer.insert`: an entry with fewer than `capacity` of
  these before it **is not forgotten**.
* `LruCache.lists`: lists of entries are such a cache.
-/

namespace BlackButton

namespace Lru

variable {κ ν : Type} [DecidableEq κ]

/-- The entries when one that is there is used, and its value changed. -/
def touched (m : List (κ × ν)) (k : κ) (f : ν → ν) : List (κ × ν) :=
  match Assoc.get m k with
  | none => m
  | some v => (k, f v) :: Assoc.remove m k

/-- The entries when one is inserted: beyond the capacity, the least recently used goes. -/
def inserted (capacity : ℕ) (m : List (κ × ν)) (k : κ) (v : ν) : List (κ × ν) :=
  ((k, v) :: Assoc.remove m k).take capacity

end Lru

open Lru

/-- The operations of a cache of some capacity. `getMut` is given what it writes. -/
structure LruCache (κ ν : Type) where
  Cache : Type
  empty : Cache
  peekIter : Cache → List (κ × ν)
  get : Cache → κ → Option ν × Cache
  getMut : Cache → κ → (ν → ν) → Option ν × Cache
  insert : Cache → κ → ν → Cache
  remove : Cache → κ → Cache
  -- the clock: an entry has not been used for too long
  expire : Cache → κ → Cache

/-- **What a cache is relied on for.** -/
structure LruCache.Lawful {κ ν : Type} [DecidableEq κ] (C : LruCache κ ν) (capacity : ℕ) : Prop where
  empty : C.peekIter C.empty = []
  get_value : ∀ c k, (C.get c k).1 = Assoc.get (C.peekIter c) k
  get : ∀ c k, C.peekIter (C.get c k).2 = touched (C.peekIter c) k id
  getMut_value : ∀ c k f, (C.getMut c k f).1 = Assoc.get (C.peekIter c) k
  getMut : ∀ c k f, C.peekIter (C.getMut c k f).2 = touched (C.peekIter c) k f
  insert : ∀ c k v, C.peekIter (C.insert c k v) = inserted capacity (C.peekIter c) k v
  remove : ∀ c k, C.peekIter (C.remove c k) = Assoc.remove (C.peekIter c) k
  expire : ∀ c k, C.peekIter (C.expire c k) = Assoc.remove (C.peekIter c) k

/-- Lists of entries. -/
def LruCache.lists (κ ν : Type) [DecidableEq κ] (capacity : ℕ) : LruCache κ ν where
  Cache := List (κ × ν)
  empty := []
  peekIter m := m
  get m k := (Assoc.get m k, touched m k id)
  getMut m k f := (Assoc.get m k, touched m k f)
  insert m k v := inserted capacity m k v
  remove m k := Assoc.remove m k
  expire m k := Assoc.remove m k

theorem LruCache.lists_lawful (κ ν : Type) [DecidableEq κ] (capacity : ℕ) :
    (LruCache.lists κ ν capacity).Lawful capacity where
  empty := rfl
  get_value _ _ := rfl
  get _ _ := rfl
  getMut_value _ _ _ := rfl
  getMut _ _ _ := rfl
  insert _ _ _ := rfl
  remove _ _ := rfl
  expire _ _ := rfl

namespace Lru

variable {κ ν : Type} [DecidableEq κ] {capacity : ℕ} {m : List (κ × ν)} {k k' : κ} {v : ν} {us : List κ}

/-! ## The map -/

theorem get_touched (m : List (κ × ν)) (k k' : κ) (f : ν → ν) :
    Assoc.get (touched m k f) k' = if k = k' then (Assoc.get m k).map f else Assoc.get m k' := by
  unfold touched
  cases h : Assoc.get m k with
  | none =>
    by_cases hk : k = k'
    · rw [if_pos hk, ← hk, h, Option.map_none]
    · rw [if_neg hk]
  | some v =>
    by_cases hk : k = k'
    · rw [if_pos hk, Assoc.get_cons, if_pos hk, Option.map_some]
    · rw [if_neg hk, Assoc.get_cons, if_neg hk, Assoc.get_remove, if_neg hk]

theorem remove_of_get_none (h : Assoc.get m k = none) : Assoc.remove m k = m := by
  rw [Assoc.get_eq_none] at h
  refine List.filter_eq_self.2 ?_
  intro e he
  have hne : e.1 ≠ k := by
    rintro rfl
    exact h (List.mem_map_of_mem he)
  simpa using hne

theorem remove_touched (m : List (κ × ν)) (k : κ) (f : ν → ν) :
    Assoc.remove (touched m k f) k = Assoc.remove m k := by
  unfold touched
  cases Assoc.get m k with
  | none => rfl
  | some v => simp [Assoc.remove]

/-- The first entries of a list have what the list has, or nothing. -/
theorem get_take (m : List (κ × ν)) (n : ℕ) (k : κ) :
    Assoc.get (m.take n) k = none ∨ Assoc.get (m.take n) k = Assoc.get m k := by
  induction m generalizing n with
  | nil =>
    rw [List.take_nil]
    exact Or.inl rfl
  | cons e m ih =>
    cases n with
    | zero => exact Or.inl rfl
    | succ n =>
      rw [List.take_succ_cons, Assoc.get_cons, Assoc.get_cons]
      by_cases hk : e.1 = k
      · rw [if_pos hk, if_pos hk]
        exact Or.inr rfl
      · rw [if_neg hk, if_neg hk]
        exact ih n

/-- **An insertion**: the new entry is there, and each other one is as it was, or gone. -/
theorem get_inserted (hpos : 0 < capacity) (m : List (κ × ν)) (k : κ) (v : ν) :
    Assoc.get (inserted capacity m k v) k = some v ∧
      ∀ k', k' ≠ k → Assoc.get (inserted capacity m k v) k' = none ∨
        Assoc.get (inserted capacity m k v) k' = Assoc.get m k' := by
  obtain ⟨n, rfl⟩ := Nat.exists_eq_succ_of_ne_zero (Nat.pos_iff_ne_zero.1 hpos)
  unfold inserted
  rw [List.take_succ_cons]
  refine ⟨?_, ?_⟩
  · rw [Assoc.get_cons, if_pos rfl]
  · intro k' hk'
    have hne : k ≠ k' := fun h => hk' h.symm
    rw [Assoc.get_cons, if_neg hne]
    rcases get_take (Assoc.remove m k) n k' with h | h
    · exact Or.inl h
    · rw [h, Assoc.get_remove, if_neg hne]
      exact Or.inr rfl

/-! ## What is not forgotten -/

/-- The entry `(k, v)` is there, and every one that was used after it is one of `us`. -/
def Newer (m : List (κ × ν)) (k : κ) (v : ν) (us : List κ) : Prop :=
  ∃ newer older, m = newer ++ (k, v) :: older ∧ (k :: Assoc.keys newer).Nodup ∧ Assoc.keys newer ⊆ us

/-- What other entries have before it does not matter. -/
theorem get_append_cons {newer older : List (κ × ν)} (h : k ∉ Assoc.keys newer) :
    Assoc.get (newer ++ (k, v) :: older) k = some v := by
  induction newer with
  | nil => rw [List.nil_append, Assoc.get_cons, if_pos rfl]
  | cons e newer ih =>
    have hkeys : Assoc.keys (e :: newer) = e.1 :: Assoc.keys newer := rfl
    rw [hkeys, List.mem_cons, not_or] at h
    rw [List.cons_append, Assoc.get_cons, if_neg (Ne.symm h.1)]
    exact ih h.2

theorem Newer.get (h : Newer m k v us) : Assoc.get m k = some v := by
  obtain ⟨newer, older, rfl, hnodup, -⟩ := h
  exact get_append_cons (List.nodup_cons.1 hnodup).1

theorem not_mem_keys_remove (m : List (κ × ν)) (k : κ) : k ∉ Assoc.keys (Assoc.remove m k) := by
  rw [← Assoc.get_eq_none, Assoc.get_remove, if_pos rfl]

theorem keys_remove_sublist (m : List (κ × ν)) (k : κ) :
    (Assoc.keys (Assoc.remove m k)).Sublist (Assoc.keys m) := by
  unfold Assoc.keys Assoc.remove
  exact List.filter_sublist.map Prod.fst

/-- The entries around one that stays. -/
theorem remove_around {newer older : List (κ × ν)} (hk : k ≠ k') :
    Assoc.remove (newer ++ (k, v) :: older) k' = Assoc.remove newer k' ++ (k, v) :: Assoc.remove older k' := by
  unfold Assoc.remove
  rw [List.filter_append]
  congr 1
  exact List.filter_cons_of_pos (by simpa using hk)

theorem Newer.remove (h : Newer m k v us) (hk : k ≠ k') : Newer (Assoc.remove m k') k v us := by
  obtain ⟨newer, older, rfl, hnodup, hsub⟩ := h
  have hkeys := keys_remove_sublist newer k'
  exact ⟨Assoc.remove newer k', Assoc.remove older k', remove_around hk, hnodup.sublist (hkeys.cons_cons k),
    List.Subset.trans hkeys.subset hsub⟩

/-- Another entry that is used is used after this one. -/
theorem Newer.cons (h : Newer (Assoc.remove m k') k v us) (hk : k ≠ k') (hk' : k' ∈ us) (v' : ν) :
    Newer ((k', v') :: Assoc.remove m k') k v us := by
  obtain ⟨newer, older, heq, hnodup, hsub⟩ := h
  refine ⟨(k', v') :: newer, older, by rw [heq, List.cons_append], ?_, ?_⟩
  · have hnot : k' ∉ Assoc.keys newer := by
      intro hin
      have hmem : k' ∈ Assoc.keys (Assoc.remove m k') := by
        rw [heq, Assoc.keys_append]
        exact List.mem_append_left _ hin
      exact not_mem_keys_remove m k' hmem
    obtain ⟨hknot, hnewer⟩ := List.nodup_cons.1 hnodup
    have hkeys : Assoc.keys ((k', v') :: newer) = k' :: Assoc.keys newer := rfl
    rw [hkeys, List.nodup_cons, List.mem_cons, not_or]
    exact ⟨⟨hk, hknot⟩, List.nodup_cons.2 ⟨hnot, hnewer⟩⟩
  · intro x hx
    rcases List.mem_cons.1 hx with rfl | hx
    · exact hk'
    · exact hsub hx

theorem Newer.touched (h : Newer m k v us) (hk : k ≠ k') (hk' : k' ∈ us) (f : ν → ν) :
    Newer (touched m k' f) k v us := by
  unfold Lru.touched
  cases Assoc.get m k' with
  | none => exact h
  | some v' => exact (h.remove hk).cons hk hk' (f v')

omit [DecidableEq κ] in
/-- The entry that is used is the newest. -/
theorem newer_cons (m : List (κ × ν)) (k : κ) (v : ν) (us : List κ) : Newer ((k, v) :: m) k v us :=
  ⟨[], m, rfl, List.nodup_singleton k, List.nil_subset us⟩

theorem newer_touched (h : Assoc.get m k = some v) (f : ν → ν) : Newer (touched m k f) k (f v) us := by
  unfold touched
  rw [h]
  exact newer_cons _ k (f v) us

theorem newer_inserted (hpos : 0 < capacity) (m : List (κ × ν)) (k : κ) (v : ν) (us : List κ) :
    Newer (inserted capacity m k v) k v us := by
  obtain ⟨n, rfl⟩ := Nat.exists_eq_succ_of_ne_zero (Nat.pos_iff_ne_zero.1 hpos)
  exact newer_cons _ k v us

/-- **An entry is not forgotten** while fewer than `capacity` others have been used after it. -/
theorem Newer.inserted (h : Newer m k v us) (hk : k ≠ k') (hk' : k' ∈ us) (hus : us.dedup.length < capacity) (v' : ν) :
    Newer (inserted capacity m k' v') k v us := by
  obtain ⟨newer, older, heq, hnodup, hsub⟩ := (h.remove hk).cons hk hk' v'
  -- the newer entries are different ones of the used
  have hle := ((List.nodup_cons.1 hnodup).2.subperm (List.Subset.trans hsub (List.subset_dedup us))).length_le
  rw [Assoc.keys, List.length_map] at hle
  obtain ⟨n, hn⟩ : ∃ n, capacity - newer.length = n + 1 := ⟨capacity - newer.length - 1, by omega⟩
  refine ⟨newer, older.take n, ?_, hnodup, hsub⟩
  unfold Lru.inserted
  have hall : newer.length ≤ capacity := by omega
  rw [heq, List.take_append, List.take_of_length_le hall, hn, List.take_succ_cons]

end Lru

end BlackButton
