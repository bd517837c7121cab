import Mathlib.Data.Finset.Dedup
import Mathlib.Data.Finset.Lattice.Lemmas
import Mathlib.Data.List.Perm.Subperm
import Mathlib.Algebra.Order.BigOperators.Group.List
import Mathlib.Algebra.Order.Ring.Nat
import BlackButton.Lib.Encoding

/-!
# Stored values (`database/KeyValuePair.kt`)

A value is kept as bytes with a tag that says what they are. A set of strings is written
as one record per string: four bytes with its length, then its text in UTF-8.

* `putAndGet`: single values are read back.
* `stringSet_put`: a set of strings is read back if all of them are ASCII. The length in
  a record is that of the string in UTF-16 code units, while the reader takes it as a
  number of bytes, so that a longer text is cut off and the rest is read as records.
-/

namespace BlackButton

/-- `valueType`. -/
inductive ValueType
  | uninitialized
  | boolean
  | float
  | int
  | long
  | string
  | stringSet
  deriving DecidableEq, Repr

structure KeyValuePair where
  key : Str := []
  valueType : ValueType := .uninitialized
  value : List UInt8 := []

/-- What reading a buffer can throw. -/
inductive Failure
  | bufferUnderflow
  | negativeArraySize
  deriving DecidableEq, Repr

/-- `String(ByteArray)`: what malformed bytes are read as is not specified, but the text then has a
replacement character. -/
structure Charset where
  malformed : List UInt8 → Str
  mem_malformed : ∀ bs, utf8Decode bs = none → '\uFFFD' ∈ malformed bs

instance : Inhabited Charset := ⟨⟨fun _ => ['\uFFFD'], fun _ _ => List.mem_singleton_self _⟩⟩

def Charset.text (charset : Charset) (bs : List UInt8) : Str := (utf8Decode bs).getD (charset.malformed bs)

/-- A set of strings, in the order it is iterated. No string of the JVM has `2^31` code units. -/
structure StringSet where
  strings : List Str
  nodup : strings.Nodup
  length_lt : ∀ s ∈ strings, utf16Length s < 2 ^ 31

namespace KeyValuePair

/-! ## Writing -/

def putBoolean (p : KeyValuePair) (value : Bool) : KeyValuePair :=
  { p with valueType := .boolean, value := [if value then 1 else 0] }

def putInt (p : KeyValuePair) (value : BitVec 32) : KeyValuePair :=
  { p with valueType := .int, value := bigEndian 4 value.toNat }

def putLong (p : KeyValuePair) (value : BitVec 64) : KeyValuePair :=
  { p with valueType := .long, value := bigEndian 8 value.toNat }

def putString (p : KeyValuePair) (value : Str) : KeyValuePair :=
  { p with valueType := .string, value := utf8 value }

/-- What is written for one string: `putInt(v.length)`, then its bytes. -/
def encodeString (v : Str) : List UInt8 := bigEndian 4 (utf16Length v) ++ utf8 v

def putStringSet (p : KeyValuePair) (value : StringSet) : KeyValuePair :=
  { p with valueType := .stringSet, value := value.strings.flatMap encodeString }

/-! ## Reading -/

/-- `ByteBuffer.getInt` and `getLong`, with the rest of the buffer. -/
def get (w : ℕ) (buffer : List UInt8) : Except Failure (ℕ × List UInt8) :=
  if buffer.length < w then .error .bufferUnderflow else .ok (ofBigEndian (buffer.take w), buffer.drop w)

def boolean (p : KeyValuePair) : Except Failure (Option Bool) :=
  if p.valueType = .boolean then
    match p.value with
    | [] => .error .bufferUnderflow
    | b :: _ => .ok (some (b != 0))
  else .ok none

def int (p : KeyValuePair) : Except Failure (Option (BitVec 32)) :=
  if p.valueType = .int then (get 4 p.value).map fun r => some (.ofNat 32 r.1) else .ok none

def long (p : KeyValuePair) : Except Failure (Option (BitVec 64)) :=
  match p.valueType with
  | .int => (get 4 p.value).map fun r => some ((BitVec.ofNat 32 r.1).signExtend 64)
  | .long => (get 8 p.value).map fun r => some (.ofNat 64 r.1)
  | _ => .ok none

def string (charset : Charset) (p : KeyValuePair) : Option Str :=
  if p.valueType = .string then some (charset.text p.value) else none

theorem eq_of_get {w : ℕ} {buffer rest : List UInt8} {n : ℕ} (h : get w buffer = .ok (n, rest)) :
    buffer = bigEndian w n ++ rest := by
  unfold get at h
  by_cases hlen : buffer.length < w
  · simp [hlen] at h
  · rw [if_neg hlen] at h
    cases h
    have hw : (buffer.take w).length = w := List.length_take_of_le (by omega)
    have htake := bigEndian_ofBigEndian (buffer.take w)
    rw [hw] at htake
    rw [htake, List.take_append_drop]

theorem length_of_get {w : ℕ} {buffer rest : List UInt8} {n : ℕ} (h : get w buffer = .ok (n, rest)) :
    rest.length + w = buffer.length := by
  rw [eq_of_get h, List.length_append, length_bigEndian]
  omega

/-- The loop of `stringSet`. A length whose highest bit is set is negative. -/
def readStrings (charset : Charset) (buffer : List UInt8) (result : Finset Str) :
    Except Failure (Finset Str) :=
  if buffer = [] then .ok result
  else
    match h : get 4 buffer with
    | .error e => .error e
    | .ok (size, rest) =>
      if 2 ^ 31 ≤ size then .error .negativeArraySize
      else if rest.length < size then .error .bufferUnderflow
      else readStrings charset (rest.drop size) (insert (charset.text (rest.take size)) result)
  termination_by buffer.length
  decreasing_by
    have := length_of_get h
    rw [List.length_drop]
    omega

def stringSet (charset : Charset) (p : KeyValuePair) : Except Failure (Option (Finset Str)) :=
  if p.valueType = .stringSet then (readStrings charset p.value ∅).map some else .ok none

/-! ## What is read -/

theorem get_append (w n : ℕ) (rest : List UInt8) : get w (bigEndian w n ++ rest) = .ok (n % 256 ^ w, rest) := by
  have hlen : ¬ (bigEndian w n ++ rest).length < w := by
    rw [List.length_append, length_bigEndian]
    omega
  unfold get
  rw [if_neg hlen, List.take_left' (length_bigEndian w n), List.drop_left' (length_bigEndian w n),
    ofBigEndian_bigEndian]

theorem get_bigEndian {w n : ℕ} (h : n < 256 ^ w) : get w (bigEndian w n) = .ok (n, []) := by
  have := get_append w n []
  rwa [List.append_nil, Nat.mod_eq_of_lt h] at this

theorem text_utf8 (charset : Charset) (s : Str) : charset.text (utf8 s) = s := by
  unfold Charset.text
  rw [utf8Decode_utf8, Option.getD_some]

/-- **Single values are read back**, an `Int` also as the `Long` it stands for. -/
theorem putAndGet (charset : Charset) (p : KeyValuePair) :
    (∀ b, (p.putBoolean b).boolean = .ok (some b)) ∧
      (∀ i, (p.putInt i).int = .ok (some i) ∧ (p.putInt i).long = .ok (some (i.signExtend 64))) ∧
      (∀ l, (p.putLong l).long = .ok (some l)) ∧
      ∀ s, (p.putString s).string charset = some s := by
  have hint : ∀ i : BitVec 32, get 4 (p.putInt i).value = .ok (i.toNat, []) :=
    fun i => get_bigEndian i.isLt
  have hlong : ∀ l : BitVec 64, get 8 (p.putLong l).value = .ok (l.toNat, []) :=
    fun l => get_bigEndian l.isLt
  refine ⟨?_, fun i => ⟨?_, ?_⟩, fun l => ?_, fun s => ?_⟩
  · rintro (_ | _) <;> rfl
  · unfold int
    rw [hint, if_pos (show (p.putInt i).valueType = .int from rfl), Except.map, BitVec.ofNat_toNat,
      BitVec.setWidth_eq]
  · have htype : (p.putInt i).valueType = .int := rfl
    simp only [long, htype, hint, Except.map, BitVec.ofNat_toNat, BitVec.setWidth_eq]
  · have htype : (p.putLong l).valueType = .long := rfl
    simp only [long, htype, hlong, Except.map, BitVec.ofNat_toNat, BitVec.setWidth_eq]
  · exact congrArg some (text_utf8 charset s)

/-- A record as the reader takes it: the number of bytes, then the bytes. -/
def record (bytes : List UInt8) : List UInt8 := bigEndian 4 bytes.length ++ bytes

theorem readStrings_record (charset : Charset) {bytes : List UInt8} (h : bytes.length < 2 ^ 31)
    (rest : List UInt8) (result : Finset Str) :
    readStrings charset (record bytes ++ rest) result =
      readStrings charset rest (insert (charset.text bytes) result) := by
  have hget : get 4 (record bytes ++ rest) = .ok (bytes.length, bytes ++ rest) := by
    unfold record
    rw [List.append_assoc, get_append, Nat.mod_eq_of_lt (by omega)]
  have hne : record bytes ++ rest ≠ [] := by
    intro hnil
    have := length_of_get hget
    rw [hnil, List.length_nil] at this
    omega
  rw [readStrings, if_neg hne]
  split
  next e he =>
    rw [hget] at he
    cases he
  next size tail hok =>
    rw [hget] at hok
    cases hok
    rw [if_neg (by omega), if_neg (by rw [List.length_append]; omega), List.drop_left, List.take_left]

theorem insert_union_toFinset (a : Str) (l : List Str) (result : Finset Str) :
    insert a result ∪ l.toFinset = result ∪ (a :: l).toFinset := by
  ext s
  rw [List.toFinset_cons, Finset.mem_union, Finset.mem_union, Finset.mem_insert, Finset.mem_insert]
  tauto

/-- **Records are read back** as the texts of their bytes. -/
theorem readStrings_records (charset : Charset) {l : List (List UInt8)} (h : ∀ bytes ∈ l, bytes.length < 2 ^ 31)
    (result : Finset Str) :
    readStrings charset (l.flatMap record) result = .ok (result ∪ (l.map charset.text).toFinset) := by
  induction l generalizing result with
  | nil =>
    rw [readStrings]
    simp
  | cons bytes l ih =>
    rw [List.forall_mem_cons] at h
    rw [List.flatMap_cons, readStrings_record charset h.1, ih h.2]
    rw [List.map_cons, insert_union_toFinset]

/-- **Only records are read.** -/
theorem records_of_readStrings {charset : Charset} {buffer : List UInt8} {result r : Finset Str}
    (h : readStrings charset buffer result = .ok r) :
    ∃ l : List (List UInt8), buffer = l.flatMap record ∧ r = result ∪ (l.map charset.text).toFinset := by
  induction hn : buffer.length using Nat.strong_induction_on generalizing buffer result with
  | _ n ih =>
  subst hn
  rw [readStrings] at h
  by_cases hnil : buffer = []
  · rw [if_pos hnil] at h
    cases h
    exact ⟨[], hnil, by simp⟩
  rw [if_neg hnil] at h
  split at h
  next e he => cases h
  next size rest hget =>
    by_cases hneg : 2 ^ 31 ≤ size
    · rw [if_pos hneg] at h
      cases h
    rw [if_neg hneg] at h
    by_cases hshort : rest.length < size
    · rw [if_pos hshort] at h
      cases h
    rw [if_neg hshort] at h
    have hlen := length_of_get hget
    obtain ⟨l, hbuffer, hr⟩ := ih _ (by rw [List.length_drop]; omega) h rfl
    have htake : (rest.take size).length = size := List.length_take_of_le (by omega)
    refine ⟨rest.take size :: l, ?_, ?_⟩
    · rw [List.flatMap_cons, ← hbuffer, record, htake, List.append_assoc, List.take_append_drop]
      exact eq_of_get hget
    · rw [hr, List.map_cons, insert_union_toFinset]

/-! ## The strings of a set -/

/-- A text without replacement characters is read from its own bytes only. -/
theorem utf8_text {charset : Charset} {bs : List UInt8} (h : '\uFFFD' ∉ charset.text bs) :
    utf8 (charset.text bs) = bs := by
  unfold Charset.text at h ⊢
  cases hdecode : utf8Decode bs with
  | none =>
    rw [hdecode, Option.getD_none] at h
    exact absurd (charset.mem_malformed bs hdecode) h
  | some s => exact utf8_of_decode hdecode

/-- Records of ASCII strings have the length the reader expects. -/
theorem encodeString_of_isAscii {s : Str} (h : IsAscii s) : encodeString s = record (utf8 s) := by
  unfold encodeString record
  rw [(utf16Length_eq_iff s).2.2 h]

theorem stringSet_putStringSet (charset : Charset) (p : KeyValuePair) (S : StringSet) :
    (p.putStringSet S).stringSet charset =
      (readStrings charset (S.strings.flatMap encodeString) ∅).map some := if_pos rfl

/-- The set is read back. -/
def ReadBack (charset : Charset) (p : KeyValuePair) (S : StringSet) : Prop :=
  (p.putStringSet S).stringSet charset = .ok (some S.strings.toFinset)

theorem readBack_iff {charset : Charset} {p : KeyValuePair} {S : StringSet} :
    ReadBack charset p S ↔
      readStrings charset (S.strings.flatMap encodeString) ∅ = .ok S.strings.toFinset := by
  unfold ReadBack
  rw [stringSet_putStringSet]
  cases readStrings charset (S.strings.flatMap encodeString) ∅ with
  | error e => simp [Except.map]
  | ok r => simp [Except.map]

theorem readBack_of_ascii (charset : Charset) (p : KeyValuePair) {S : StringSet} (h : ∀ s ∈ S.strings, IsAscii s) :
    ReadBack charset p S := by
  have hrecords : S.strings.flatMap encodeString = (S.strings.map utf8).flatMap record := by
    rw [List.flatMap_map]
    exact List.flatMap_congr fun s hs => encodeString_of_isAscii (h s hs)
  have hlen : ∀ bytes ∈ S.strings.map utf8, bytes.length < 2 ^ 31 := by
    rw [List.forall_mem_map]
    intro s hs
    rw [← (utf16Length_eq_iff s).2.2 (h s hs)]
    exact S.length_lt s hs
  have htext : (S.strings.map utf8).map charset.text = S.strings := by
    rw [List.map_map]
    exact (List.map_congr_left fun s _ => text_utf8 charset s).trans (List.map_id _)
  rw [readBack_iff, hrecords, readStrings_records charset hlen, htext, Finset.empty_union]

def byteSum (bs : List UInt8) : ℕ := (bs.map UInt8.toNat).sum

theorem byteSum_append (as bs : List UInt8) : byteSum (as ++ bs) = byteSum as + byteSum bs := by
  unfold byteSum
  rw [List.map_append, List.sum_append]

theorem byteSum_flatMap {α : Type} (f : α → List UInt8) (l : List α) :
    byteSum (l.flatMap f) = (l.map fun a => byteSum (f a)).sum := by
  induction l with
  | nil => rfl
  | cons a l ih => rw [List.flatMap_cons, byteSum_append, ih, List.map_cons, List.sum_cons]

theorem byteSum_bigEndian {n : ℕ} (h : n < 256) : byteSum (bigEndian 4 n) = n := by
  simp only [bigEndian, byteSum, List.map_cons, List.map_nil, List.sum_cons, List.sum_nil, UInt8.toNat_ofNat']
  omega

/-- What is read back in short strings: as many records as strings, with the same texts. The bytes of the
lengths then add up to what the reader counts, which is more than was written unless all strings
are ASCII. -/
theorem ascii_of_readBack {charset : Charset} {p : KeyValuePair} {S : StringSet}
    (hshort : ∀ s ∈ S.strings, (utf8 s).length < 256 ∧ '\uFFFD' ∉ s) (h : ReadBack charset p S) :
    ∀ s ∈ S.strings, IsAscii s := by
  obtain ⟨l, hbuffer, hset⟩ := records_of_readStrings (readBack_iff.1 h)
  rw [Finset.empty_union] at hset
  have hmem : ∀ s, s ∈ S.strings ↔ s ∈ l.map charset.text := by
    intro s
    rw [← List.mem_toFinset, hset, List.mem_toFinset]
  -- each record is the text of a string of the set, byte for byte
  have hl : l = (l.map charset.text).map utf8 := by
    rw [List.map_map]
    refine (List.map_id l).symm.trans (List.map_congr_left fun bs hbs => ?_)
    exact (utf8_text (hshort _ ((hmem _).2 (List.mem_map_of_mem hbs))).2).symm
  have hsub : S.strings.Subperm (l.map charset.text) := S.nodup.subperm fun s hs => (hmem s).1 hs
  have hsum : (S.strings.map fun s => byteSum (encodeString s)).sum =
      ((l.map charset.text).map fun s => byteSum (record (utf8 s))).sum := by
    rw [← byteSum_flatMap, hbuffer, byteSum_flatMap]
    conv_lhs => rw [hl]
    rw [List.map_map]
    rfl
  have hle : (S.strings.map fun s => byteSum (record (utf8 s))).sum ≤
      ((l.map charset.text).map fun s => byteSum (record (utf8 s))).sum := by
    obtain ⟨l', hperm, hsublist⟩ := hsub
    rw [← (hperm.map _).sum_eq]
    exact (hsublist.map _).sum_le_sum fun a _ => Nat.zero_le a
  have hbytes : ∀ s ∈ S.strings, byteSum (encodeString s) = utf16Length s + byteSum (utf8 s) ∧
      byteSum (record (utf8 s)) = (utf8 s).length + byteSum (utf8 s) := by
    intro s hs
    have hlen := (hshort s hs).1
    have hle := (utf16Length_eq_iff s).1
    unfold encodeString record
    rw [byteSum_append, byteSum_append, byteSum_bigEndian hlen, byteSum_bigEndian (by omega)]
    exact ⟨rfl, rfl⟩
  intro s hs
  by_contra hnot
  have hlt : (S.strings.map fun s => byteSum (encodeString s)).sum <
      (S.strings.map fun s => byteSum (record (utf8 s))).sum := by
    refine List.sum_lt_sum _ _ (fun t ht => ?_) ⟨s, hs, ?_⟩
    · have := (utf16Length_eq_iff t).1
      rw [(hbytes t ht).1, (hbytes t ht).2]
      omega
    · have := utf16Length_eq_iff s
      rw [(hbytes s hs).1, (hbytes s hs).2]
      have : utf16Length s ≠ (utf8 s).length := fun h => hnot (this.2.1 h)
      omega
  omega

/-- **A set of strings is read back if all of them are ASCII**; when no string has more than 255 bytes or a
replacement character, only then. -/
theorem stringSet_put (charset : Charset) (p : KeyValuePair) (S : StringSet) :
    ((∀ s ∈ S.strings, IsAscii s) → ReadBack charset p S) ∧
      ((∀ s ∈ S.strings, (utf8 s).length < 256 ∧ '\uFFFD' ∉ s) →
        (ReadBack charset p S ↔ ∀ s ∈ S.strings, IsAscii s)) :=
  ⟨readBack_of_ascii charset p, fun hshort => ⟨ascii_of_readBack hshort, readBack_of_ascii charset p⟩⟩

/-- The set of `"é"`: one code unit, two bytes. -/
def accented : StringSet where
  strings := [['é']]
  nodup := List.nodup_singleton _
  length_lt := by decide

/-- The second byte is taken as the length of another string. -/
theorem stringSet_put_accented :
    (∀ charset p, (putStringSet p accented).stringSet charset = .error .bufferUnderflow) ∧
      ¬ ∀ charset p S, ReadBack charset p S := by
  have hbytes : accented.strings.flatMap encodeString = record [0xC3] ++ [0xA9] := by decide
  have hread : ∀ charset, readStrings charset (accented.strings.flatMap encodeString) ∅ =
      .error .bufferUnderflow := by
    intro charset
    rw [hbytes, readStrings_record charset (by decide), readStrings]
    simp [get]
  refine ⟨fun charset p => ?_, fun h => ?_⟩
  · rw [stringSet_putStringSet, hread]
    rfl
  · have := readBack_iff.1 (h default {} accented)
    rw [hread] at this
    cases this

end KeyValuePair

end BlackButton
