import BlackButton.Acl.Model
import BlackButton.Lib.Encoding

/-!
# The order of subnets (`net/Subnet.kt`, `acl/Acl.kt`)

`Subnet.compareTo` compares three keys, one after the other, and leaves early:
the address length, the bytes, the prefix size.

* `compareBytes_eq`: on addresses of one length the loop over the bytes compares
  the unsigned numbers that the bytes write, the highest byte first.
* `compareTo_eq`: so the comparison is a lexicographic one of numbers, and the
  laws of a total order are the library's.
* `compareTo_total`: the order, `equals` and `hashCode` fit together, and a
  `SortedList` of subnets stays sorted.
-/

namespace BlackButton

namespace Subnet

/-- `Subnet.equals`; `none` is what is no `Subnet`. -/
def equals (a : Subnet) (other : Option Subnet) : Bool :=
  match other with
  | none => false
  | some that => a.address == that.address && a.prefixSize == that.prefixSize

/-- `Subnet.hashCode`: `Objects.hash(address, prefixSize)`; `addressHash` is `InetAddress.hashCode`. -/
def hashCode (addressHash : List UInt8 → UInt32) (s : Subnet) : UInt32 :=
  31 * (31 * 1 + addressHash s.address) + UInt32.ofNat s.prefixSize

theorem equals_iff {a b : Subnet} : a.equals (some b) = true ↔ a = b := by
  cases a
  cases b
  simp [equals]

/-! ## The bytes as a number -/

/-- Two numbers with a first digit and a rest below the base. -/
theorem compare_digits {m n x y w : ℕ} (hx : x < w) (hy : y < w) :
    compare (m * w + x) (n * w + y) = (compare m n).then (compare x y) := by
  rcases Nat.lt_trichotomy m n with h | rfl | h
  · have hmul : (m + 1) * w ≤ n * w := Nat.mul_le_mul_right w h
    have hlt : m * w + x < n * w + y := by
      rw [Nat.succ_mul] at hmul
      omega
    rw [Nat.compare_eq_lt.2 h, Nat.compare_eq_lt.2 hlt]
    rfl
  · rw [Nat.compare_eq_eq.2 (Eq.refl m)]
    rcases Nat.lt_trichotomy x y with h | rfl | h
    · rw [Nat.compare_eq_lt.2 h, Nat.compare_eq_lt.2 (by omega)]
      rfl
    · rw [Nat.compare_eq_eq.2 (Eq.refl x), Nat.compare_eq_eq.2 (Eq.refl _)]
      rfl
    · rw [Nat.compare_eq_gt.2 h, Nat.compare_eq_gt.2 (by omega)]
      rfl
  · have hmul : (n + 1) * w ≤ m * w := Nat.mul_le_mul_right w h
    have hlt : n * w + y < m * w + x := by
      rw [Nat.succ_mul] at hmul
      omega
    rw [Nat.compare_eq_gt.2 h, Nat.compare_eq_gt.2 hlt]
    rfl

/-- **The loop over the bytes** compares unsigned big-endian numbers. -/
theorem compareBytes_eq {as bs : List UInt8} (h : as.length = bs.length) :
    compareBytes as bs = compare (ofBigEndian as) (ofBigEndian bs) := by
  induction as generalizing bs with
  | nil =>
    have hbs : bs = [] := List.eq_nil_of_length_eq_zero h.symm
    rw [hbs]
    rfl
  | cons a as ih =>
    match bs, h with
    | b :: bs, h =>
      have hlen : as.length = bs.length := Nat.succ.inj h
      have hlt := ofBigEndian_lt as
      rw [hlen] at hlt
      rw [compareBytes, ih hlen, ofBigEndian_cons, ofBigEndian_cons, hlen,
        compare_digits hlt (ofBigEndian_lt bs)]

/-! ## A total order -/

/-- **The comparison is lexicographic**: by length, by value, by prefix size. -/
theorem compareTo_eq : compareTo =
    compareLex (compareOn fun s => s.address.length)
      (compareLex (compareOn fun s => ofBigEndian s.address) (compareOn fun s => s.prefixSize)) := by
  funext a b
  simp only [compareTo, compareLex, compareOn]
  cases hlen : compare a.address.length b.address.length with
  | eq => rw [compareBytes_eq (Nat.compare_eq_eq.1 hlen)]
  | lt => rfl
  | gt => rfl

instance : Std.TransCmp compareTo := by
  rw [compareTo_eq]
  infer_instance

/-- Subnets that compare as equal have equal fields. -/
theorem eq_of_compareTo {a b : Subnet} (h : a.compareTo b = .eq) : a = b := by
  rw [compareTo, Ordering.then_eq_eq, Ordering.then_eq_eq] at h
  obtain ⟨hlen, hbytes, hprefix⟩ := h
  have hlen : a.address.length = b.address.length := Nat.compare_eq_eq.1 hlen
  rw [compareBytes_eq hlen] at hbytes
  have hvalue : ofBigEndian a.address = ofBigEndian b.address := Nat.compare_eq_eq.1 hbytes
  have haddress : a.address = b.address := by
    rw [← bigEndian_ofBigEndian a.address, hlen, hvalue, bigEndian_ofBigEndian]
  apply equals_iff.1
  simp [equals, haddress, Nat.compare_eq_eq.1 hprefix]

instance : Std.LawfulEqCmp compareTo where
  eq_of_compare := eq_of_compareTo

/-- The list of an ACL's subnets, whatever is added to it, in any order. -/
theorem sorted_subnets (xs : List Subnet) :
    SortedList.Sorted compareTo (SortedList.addAll subnetLe [] xs) :=
  SortedList.sorted_addAll List.Pairwise.nil

/-- **Subnets are totally ordered**, consistently with `equals` and `hashCode`, so that the sorted
list of subnets is strictly increasing and holds every subnet that was added, once. -/
theorem compareTo_total (addressHash : List UInt8 → UInt32) :
    (∀ a b : Subnet, b.compareTo a = (a.compareTo b).swap) ∧
    (∀ a b c : Subnet, (a.compareTo b).isLE → (b.compareTo c).isLE → (a.compareTo c).isLE) ∧
    (∀ (a b c : Subnet) (o : Ordering), a.compareTo b = o → b.compareTo c = o → a.compareTo c = o) ∧
    (∀ a b : Subnet, a.compareTo b = .eq ↔ a.equals (some b) = true) ∧
    (∀ a b : Subnet, a.equals (some b) = true → a.hashCode addressHash = b.hashCode addressHash) ∧
    (∀ a b : Subnet, a.address.length = b.address.length →
      a.compareTo b = (compare (ofBigEndian a.address) (ofBigEndian b.address)).then
        (compare a.prefixSize b.prefixSize)) ∧
    (∀ xs : List Subnet, (SortedList.addAll subnetLe [] xs).Pairwise (fun a b => a.compareTo b = .lt) ∧
      (SortedList.addAll subnetLe [] xs).Nodup ∧
      ∀ s, s ∈ SortedList.addAll subnetLe [] xs ↔ s ∈ xs) := by
  refine ⟨fun a b => Std.OrientedCmp.eq_swap, fun a b c => Std.TransCmp.isLE_trans, ?_, ?_, ?_, ?_, ?_⟩
  · intro a b c o hab hbc
    cases o with
    | lt => exact Std.TransCmp.lt_trans hab hbc
    | eq => exact Std.TransCmp.eq_trans hab hbc
    | gt => exact Std.TransCmp.gt_trans hab hbc
  · intro a b
    rw [equals_iff]
    exact Std.LawfulEqCmp.compare_eq_iff_eq
  · intro a b h
    rw [equals_iff.1 h]
  · intro a b hlen
    rw [compareTo, compareBytes_eq hlen, Nat.compare_eq_eq.2 hlen]
    rfl
  · intro xs
    have hsorted := sorted_subnets xs
    refine ⟨hsorted, hsorted.nodup, fun s => ?_⟩
    rw [SortedList.mem_addAll]
    simp

end Subnet

end BlackButton
