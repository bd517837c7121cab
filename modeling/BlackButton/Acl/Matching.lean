import BlackButton.Acl.Subnet

/-!
# Subnet matching (`Subnet.Immutable`, `Subnet.toImmutable`)

Bytes are signed on the JVM: a byte is sign-extended to an `Int`, masked there and cut
back to a byte (`masked`). Reading past the end of an array is `none`.

`matchesBytes_toImmutable`: matching is comparing the first `prefixSize` bits.
-/

namespace BlackButton.Subnet

/-- `(b.toInt() and -(1 shl shift)).toByte()`. -/
def masked (b : UInt8) (shift : ℕ) : UInt8 :=
  (b.toInt8.toInt32 &&& -((1 : Int32) <<< Int32.ofNat shift)).toInt8.toUInt8

/-- `Subnet.Immutable`. -/
structure Immutable where
  a : List UInt8
  prefixSize : ℕ
  deriving DecidableEq

/-- The loop of `toImmutable`: `n` more bytes are cleared. -/
def clear : ℕ → List UInt8 → ℕ → List UInt8
  | 0, it, _ => it
  | n + 1, it, i => clear n (it.set i 0) (i + 1)

/-- `toImmutable`. -/
def toImmutable (s : Subnet) : Option Immutable :=
  let i := s.prefixSize / 8
  if s.prefixSize % 8 > 0 then
    s.address[i]?.map fun byte =>
      let it := s.address.set i (masked byte (i * 8 + 8 - s.prefixSize))
      ⟨clear (it.length - (i + 1)) it (i + 1), s.prefixSize⟩
  else some ⟨clear (s.address.length - i) s.address i, s.prefixSize⟩

namespace Immutable

/-- The loop of `matches` and what follows it, from the `i`-th byte. -/
def matchFrom (m : Immutable) (b : List UInt8) (i : ℕ) : Option Bool :=
  if i * 8 < m.prefixSize ∧ i * 8 + 8 ≤ m.prefixSize then
    m.a[i]?.bind fun x => b[i]?.bind fun y => if x ≠ y then some false else matchFrom m b (i + 1)
  else if i * 8 = m.prefixSize then some true
  else m.a[i]?.bind fun x => b[i]?.map fun y => x == masked y (i * 8 + 8 - m.prefixSize)
termination_by m.prefixSize - i * 8

/-- `matches`. -/
def matchesBytes (m : Immutable) (b : List UInt8) : Option Bool :=
  if m.a.length ≠ b.length then some false else matchFrom m b 0

end Immutable

/-! ## Bits -/

/-- The bits of a byte, the most significant one first. -/
def byteBits (b : UInt8) : List Bool := (List.range 8).map fun j => b.toNat.testBit (7 - j)

/-- The bits of an address. -/
def bits (bytes : List UInt8) : List Bool := bytes.flatMap byteBits

theorem eq_of_testBit {x y : UInt8} (h : ∀ i < 8, x.toNat.testBit i = y.toNat.testBit i) : x = y := by
  apply UInt8.eq_of_toBitVec_eq
  apply BitVec.eq_of_getLsbD_eq
  exact h

/-- Masking clears the last bits and keeps the others. -/
theorem testBit_masked {k i : ℕ} (hk : k < 8) (hi : i < 8) (b : UInt8) :
    (masked b k).toNat.testBit i = (b.toNat.testBit i && decide (k ≤ i)) := by
  have hmask : ∀ k < 8, ∀ i < 8, (-((1 : Int32) <<< Int32.ofNat k)).toBitVec.getLsbD i = decide (k ≤ i) := by
    decide +kernel
  have hbits : (masked b k).toBitVec =
      (b.toBitVec.signExtend 32 &&& (-((1 : Int32) <<< Int32.ofNat k)).toBitVec).signExtend 8 := rfl
  have hbit : ∀ c : UInt8, c.toNat.testBit i = c.toBitVec.getLsbD i := fun c => rfl
  have hwide : i < 32 := by omega
  rw [hbit, hbit, hbits, BitVec.getLsbD_signExtend, BitVec.getLsbD_and, BitVec.getLsbD_signExtend, hmask k hk i hi]
  simp [hi, hwide]

theorem take_byteBits_eq_iff {r : ℕ} (hr : r ≤ 8) (x y : UInt8) :
    (byteBits x).take r = (byteBits y).take r ↔
      ∀ i, 8 - r ≤ i → i < 8 → x.toNat.testBit i = y.toNat.testBit i := by
  unfold byteBits
  rw [← List.map_take, ← List.map_take, List.take_range, Nat.min_eq_left hr, List.map_inj_left]
  constructor
  · intro h i hle hlt
    have hplace : 7 - (7 - i) = i := by omega
    have hbit := h (7 - i) (List.mem_range.2 (by omega))
    rwa [hplace] at hbit
  · intro h j hj
    have hlt := List.mem_range.1 hj
    exact h (7 - j) (by omega) (by omega)

theorem byteBits_inj {x y : UInt8} (h : byteBits x = byteBits y) : x = y := by
  have hbits := (take_byteBits_eq_iff (Nat.le_refl 8) x y).1 (by rw [h])
  apply eq_of_testBit
  intro i hi
  exact hbits i (by omega) hi

theorem masked_eq_iff {r : ℕ} (hr : r < 8) (hpos : 0 < r) (x y : UInt8) :
    masked x (8 - r) = masked y (8 - r) ↔ (byteBits x).take r = (byteBits y).take r := by
  have hshift : 8 - r < 8 := by omega
  rw [take_byteBits_eq_iff (by omega)]
  constructor
  · intro h i hle hlt
    have hx := testBit_masked hshift hlt x
    have hy := testBit_masked hshift hlt y
    rw [h, hy] at hx
    simpa [hle] using hx.symm
  · intro h
    apply eq_of_testBit
    intro i hi
    rw [testBit_masked hshift hi, testBit_masked hshift hi]
    by_cases hle : 8 - r ≤ i
    · rw [h i hle hi]
    · simp [hle]

theorem length_byteBits (b : UInt8) : (byteBits b).length = 8 := by simp [byteBits]

theorem bits_injective {as bs : List UInt8} (hlen : as.length = bs.length) : bits as = bits bs ↔ as = bs := by
  constructor
  · intro h
    induction as generalizing bs with
    | nil => exact (List.length_eq_zero_iff.1 hlen.symm).symm
    | cons a as ih =>
      cases bs with
      | nil => cases hlen
      | cons b bs =>
        have hsplit : byteBits a ++ bits as = byteBits b ++ bits bs := h
        obtain ⟨hab, hrest⟩ := List.append_inj hsplit (by rw [length_byteBits, length_byteBits])
        have hbyte : a = b := byteBits_inj hab
        rw [hbyte, ih (Nat.succ.inj hlen) hrest]
  · rintro rfl
    rfl

theorem length_bits (l : List UInt8) : (bits l).length = 8 * l.length := by
  induction l with
  | nil => rfl
  | cons x l ih =>
    have hcons : bits (x :: l) = byteBits x ++ bits l := rfl
    rw [hcons, List.length_append, length_byteBits, ih, List.length_cons]
    omega

/-- The first bits are whole bytes and a part of the next one. -/
theorem take_bits (l : List UInt8) (q r : ℕ) (hr : r < 8) :
    (bits l).take (8 * q + r) = bits (l.take q) ++ l[q]?.elim [] fun x => (byteBits x).take r := by
  induction q generalizing l with
  | zero =>
    cases l with
    | nil => simp [bits]
    | cons x l =>
      have hle : r ≤ (byteBits x).length := by rw [length_byteBits]; omega
      have hcons : bits (x :: l) = byteBits x ++ bits l := rfl
      rw [hcons, Nat.mul_zero, Nat.zero_add, List.take_append_of_le_length hle]
      simp [bits]
  | succ q ih =>
    cases l with
    | nil => simp [bits]
    | cons x l =>
      have hcons : ∀ l, bits (x :: l) = byteBits x ++ bits l := fun _ => rfl
      have hsum : 8 * (q + 1) + r = (byteBits x).length + (8 * q + r) := by rw [length_byteBits]; omega
      rw [hcons, hsum, List.take_length_add_append, ih, List.take_succ_cons, hcons, List.append_assoc,
        List.getElem?_cons_succ]

/-! ## The arrays -/

theorem length_clear (n : ℕ) (it : List UInt8) (i : ℕ) : (clear n it i).length = it.length := by
  induction n generalizing it i with
  | zero => rfl
  | succ n ih => rw [clear, ih, List.length_set]

theorem getElem?_clear (n : ℕ) (it : List UInt8) {i j : ℕ} (hj : j < i) : (clear n it i)[j]? = it[j]? := by
  induction n generalizing it i with
  | zero => rfl
  | succ n ih => rw [clear, ih _ (by omega), List.getElem?_set_ne (by omega)]

/-- The array of a subnet: its whole bytes, and the masked one. -/
theorem toImmutable_spec (s : Subnet) :
    ∃ m, s.toImmutable = some m ∧ m.prefixSize = s.prefixSize ∧ m.a.length = s.address.length ∧
      (∀ j < s.prefixSize / 8, m.a[j]? = s.address[j]?) ∧
      (0 < s.prefixSize % 8 →
        m.a[s.prefixSize / 8]? = s.address[s.prefixSize / 8]?.map (masked · (8 - s.prefixSize % 8))) := by
  have hle := s.le
  unfold toImmutable
  by_cases hr : s.prefixSize % 8 > 0
  · have hlt : s.prefixSize / 8 < s.address.length := by omega
    have hshift : s.prefixSize / 8 * 8 + 8 - s.prefixSize = 8 - s.prefixSize % 8 := by omega
    simp only [hr, if_true, List.getElem?_eq_getElem hlt, Option.map_some]
    refine ⟨_, rfl, rfl, ?_, ?_, ?_⟩
    · rw [length_clear, List.length_set]
    · intro j hj
      rw [getElem?_clear _ _ (by omega), List.getElem?_set_ne (by omega)]
    · intro _
      rw [getElem?_clear _ _ (by omega), List.getElem?_set_self hlt, hshift]
  · simp only [hr, if_false]
    refine ⟨_, rfl, rfl, ?_, ?_, ?_⟩
    · exact length_clear _ _ _
    · intro j hj
      exact getElem?_clear _ _ hj
    · intro h
      exact h.elim

/-- **The loop of `matches`** compares the whole bytes, and then the masked one. -/
theorem matchFrom_spec (m : Immutable) (b : List UInt8) (hlen : m.a.length = b.length)
    (hle : m.prefixSize ≤ 8 * b.length) : ∀ k i, i + k = m.prefixSize / 8 →
    ∃ r, m.matchFrom b i = some r ∧ (r = true ↔
      (∀ j, i ≤ j → j < m.prefixSize / 8 → m.a[j]? = b[j]?) ∧
      (0 < m.prefixSize % 8 →
        m.a[m.prefixSize / 8]? = b[m.prefixSize / 8]?.map (masked · (8 - m.prefixSize % 8)))) := by
  intro k
  induction k with
  | zero =>
    intro i hi
    have hi' : i = m.prefixSize / 8 := by omega
    have hloop : ¬(i * 8 < m.prefixSize ∧ i * 8 + 8 ≤ m.prefixSize) := by omega
    rw [Immutable.matchFrom, if_neg hloop]
    by_cases hr : i * 8 = m.prefixSize
    · rw [if_pos hr]
      refine ⟨true, rfl, ?_⟩
      simp only [true_iff]
      refine ⟨fun j h1 h2 => absurd h2 (by omega), fun h => absurd h (by omega)⟩
    · have hlt : i < b.length := by omega
      have hshift : i * 8 + 8 - m.prefixSize = 8 - m.prefixSize % 8 := by omega
      rw [if_neg hr, List.getElem?_eq_getElem (by omega : i < m.a.length), List.getElem?_eq_getElem hlt, ← hi',
        List.getElem?_eq_getElem (by omega : i < m.a.length), List.getElem?_eq_getElem hlt, hshift]
      refine ⟨_, rfl, ?_⟩
      simp only [beq_iff_eq, Option.map_some, Option.some.injEq]
      constructor
      · intro h
        exact ⟨fun j h1 h2 => absurd h2 (by omega), fun _ => h⟩
      · intro h
        exact h.2 (by omega)
  | succ k ih =>
    intro i hi
    have hloop : i * 8 < m.prefixSize ∧ i * 8 + 8 ≤ m.prefixSize := by omega
    have hlt : i < b.length := by omega
    have hlt' : i < m.a.length := by omega
    obtain ⟨r, hr, hiff⟩ := ih (i + 1) (by omega)
    rw [Immutable.matchFrom, if_pos hloop, List.getElem?_eq_getElem hlt, List.getElem?_eq_getElem hlt']
    simp only [Option.bind_some]
    by_cases hne : m.a[i] ≠ b[i]
    · rw [if_pos hne]
      refine ⟨false, rfl, ?_⟩
      simp only [Bool.false_eq_true, false_iff, not_and]
      intro hall
      have := hall i (le_refl i) (by omega)
      rw [List.getElem?_eq_getElem hlt, List.getElem?_eq_getElem hlt', Option.some.injEq] at this
      exact absurd this hne
    · rw [if_neg hne]
      refine ⟨r, hr, ?_⟩
      rw [hiff]
      constructor
      · rintro ⟨hall, hlast⟩
        refine ⟨?_, hlast⟩
        intro j h1 h2
        rcases Nat.eq_or_lt_of_le h1 with rfl | h1
        · rw [List.getElem?_eq_getElem hlt, List.getElem?_eq_getElem hlt']
          exact congrArg some (not_not.1 hne)
        · exact hall j h1 h2
      · rintro ⟨hall, hlast⟩
        exact ⟨fun j h1 h2 => hall j (by omega) h2, hlast⟩

theorem take_eq_take_iff {as bs : List UInt8} {q : ℕ} :
    as.take q = bs.take q ↔ ∀ j < q, as[j]? = bs[j]? := by
  constructor
  · intro h j hj
    have := congrArg (·[j]?) h
    simpa [List.getElem?_take, hj] using this
  · intro h
    apply List.ext_getElem?
    intro j
    rw [List.getElem?_take, List.getElem?_take]
    by_cases hj : j < q
    · rw [if_pos hj, if_pos hj, h j hj]
    · rw [if_neg hj, if_neg hj]

/-- The first `p` bits are the same if the whole bytes and the masked ones are. -/
theorem take_bits_eq_iff {as bs : List UInt8} {p : ℕ} (hlen : as.length = bs.length) (hle : p ≤ 8 * as.length) :
    (bits as).take p = (bits bs).take p ↔ (∀ j < p / 8, as[j]? = bs[j]?) ∧
      (0 < p % 8 → as[p / 8]?.map (masked · (8 - p % 8)) = bs[p / 8]?.map (masked · (8 - p % 8))) := by
  have hsplit : p = 8 * (p / 8) + p % 8 := by omega
  have hlast : (as[p / 8]?.elim [] fun x => (byteBits x).take (p % 8)) =
      (bs[p / 8]?.elim [] fun x => (byteBits x).take (p % 8)) ↔
      (0 < p % 8 → as[p / 8]?.map (masked · (8 - p % 8)) = bs[p / 8]?.map (masked · (8 - p % 8))) := by
    by_cases hr : 0 < p % 8
    · rw [List.getElem?_eq_getElem (by omega : p / 8 < as.length),
        List.getElem?_eq_getElem (by omega : p / 8 < bs.length)]
      simp only [Option.elim_some, Option.map_some, Option.some.injEq, hr, forall_true_left]
      exact (masked_eq_iff (Nat.mod_lt _ (by omega)) hr _ _).symm
    · have hzero : p % 8 = 0 := by omega
      have hnil : ∀ o : Option UInt8, (o.elim [] fun x => (byteBits x).take (p % 8)) = [] := by
        intro o
        cases o with
        | none => rfl
        | some x => simp [hzero]
      rw [hnil, hnil]
      exact ⟨fun _ h => absurd h hr, fun _ => rfl⟩
  have htake : (as.take (p / 8)).length = (bs.take (p / 8)).length := by
    rw [List.length_take, List.length_take, hlen]
  have hbits : (bits (as.take (p / 8))).length = (bits (bs.take (p / 8))).length := by
    rw [length_bits, length_bits, htake]
  rw [← hlast, ← take_eq_take_iff, ← bits_injective htake]
  conv_lhs => rw [hsplit, take_bits _ _ _ (by omega), take_bits _ _ _ (by omega)]
  constructor
  · intro h
    exact List.append_inj h hbits
  · rintro ⟨h1, h2⟩
    rw [h1, h2]

/-- **Subnet matching is prefix matching**: it reads no byte past the end, and says whether the address has
as many bytes and the same first `prefixSize` bits. -/
theorem matchesBytes_toImmutable (s : Subnet) (b : List UInt8) :
    ∃ m r, s.toImmutable = some m ∧ m.matchesBytes b = some r ∧
      (r = true ↔ b.length = s.address.length ∧ (bits b).take s.prefixSize = (bits s.address).take s.prefixSize) := by
  obtain ⟨m, hm, hp, hlen, hbytes, hmask⟩ := s.toImmutable_spec
  have hle := s.le
  by_cases hb : m.a.length = b.length
  · obtain ⟨r, hr, hiff⟩ := matchFrom_spec m b hb (by omega) (m.prefixSize / 8) 0 (by omega)
    refine ⟨m, r, hm, ?_, ?_⟩
    · unfold Immutable.matchesBytes
      rw [if_neg (not_not.2 hb), hr]
    · have hsame : b.length = s.address.length := by omega
      rw [hiff, take_bits_eq_iff hsame (by omega), hp]
      constructor
      · rintro ⟨hwhole, hpart⟩
        refine ⟨hsame, fun j hj => ?_, fun hpos => ?_⟩
        · rw [← hwhole j (Nat.zero_le j) hj, hbytes j hj]
        · rw [← hpart hpos, hmask hpos]
      · rintro ⟨-, hwhole, hpart⟩
        refine ⟨fun j _ hj => ?_, fun hpos => ?_⟩
        · rw [hbytes j hj, hwhole j hj]
        · rw [hmask hpos, hpart hpos]
  · refine ⟨m, false, hm, ?_, ?_⟩
    · unfold Immutable.matchesBytes
      rw [if_pos hb]
    · simp only [Bool.false_eq_true, false_iff, not_and]
      intro h
      omega

end BlackButton.Subnet
