import Mathlib.Algebra.GroupWithZero.Nat
import BlackButton.Lib.Text

/-!
# Encodings: UTF-8, big-endian numbers, Base64, percent-encoding

* `utf8Decode_utf8`: text is read back from its bytes, and only from them (`utf8_of_decode`).
* `utf16Length_eq_iff`: a text has as many UTF-16 code units as UTF-8 bytes if and only if it
  is ASCII.
* `ofBigEndian_bigEndian`: numbers are read back from their bytes; `ofBigEndian_cons`: the
  first byte counts most.
* `Base64.decode_encode`: bytes are read back from their Base64 text, for any
  alphabet. `decode` is the decoder of `android.util.Base64`: characters that are not
  in the alphabet are skipped, padding is optional.
* `percentBytes_encode`: bytes are read back from percent-encoded text.
-/

namespace BlackButton

/-! ## UTF-8 -/

/-- `String.toByteArray()`. -/
def utf8 (s : Str) : List UInt8 := s.flatMap String.utf8EncodeChar

/-- The text of well-formed bytes. -/
def utf8Decode (bs : List UInt8) : Option Str := bs.toByteArray.utf8Decode?.map Array.toList

/-- **UTF-8 is read back.** -/
theorem utf8Decode_utf8 (s : Str) : utf8Decode (utf8 s) = some s := by
  have h : (utf8 s).toByteArray = s.utf8Encode := rfl
  unfold utf8Decode
  rw [h, List.utf8Decode?_utf8Encode]
  rfl

theorem utf8_of_decode {bs : List UInt8} {s : Str} (h : utf8Decode bs = some s) : utf8 s = bs := by
  unfold utf8Decode at h
  obtain ⟨cs, hcs, rfl⟩ := Option.map_eq_some_iff.1 h
  have hsome : bs.toByteArray.utf8Decode?.isSome = true := by rw [hcs]; rfl
  have hget := ByteArray.utf8Encode_get_utf8Decode? (h := hsome)
  have hcs' : bs.toByteArray.utf8Decode?.get hsome = cs := by simp [hcs]
  rw [hcs'] at hget
  have hl : (utf8 cs.toList).toByteArray = bs.toByteArray := hget
  have := congrArg (fun b : ByteArray => b.data.toList) hl
  simpa using this

/-- Bytes that are cut off between two characters. -/
theorem utf8_prefix_iff {t s : Str} : utf8 t <+: utf8 s ↔ t <+: s := by
  constructor
  · rintro ⟨bs, h⟩
    apply List.isPrefix_of_utf8Encode_append_eq_utf8Encode bs.toByteArray
    have h := congrArg List.toByteArray h
    rwa [List.toByteArray_append] at h
  · rintro ⟨r, rfl⟩
    unfold utf8
    rw [List.flatMap_append]
    exact List.prefix_append _ _

/-- `Char.isSurrogate` pairs count twice: the code units of a character. -/
def utf16Size (c : Char) : ℕ := if c.toNat < 0x10000 then 1 else 2

/-- `String.length`. -/
def utf16Length (s : Str) : ℕ := (s.map utf16Size).sum

/-- Characters of one byte. -/
def IsAscii (s : Str) : Prop := ∀ c ∈ s, c.toNat < 0x80

instance (s : Str) : Decidable (IsAscii s) := inferInstanceAs (Decidable (∀ c ∈ s, c.toNat < 0x80))

theorem utf16Size_le (c : Char) :
    utf16Size c ≤ c.utf8Size ∧ (utf16Size c = c.utf8Size ↔ c.toNat < 0x80) := by
  have hone : c.utf8Size = 1 ↔ c.toNat < 0x80 := by
    rw [Char.utf8Size_eq_one_iff, UInt32.le_iff_toNat_le]
    exact Nat.lt_succ_iff.symm
  have hfour : c.utf8Size = 4 ↔ 0xffff < c.toNat := by
    rw [Char.utf8Size_eq_four_iff, UInt32.lt_iff_toNat_lt]
    rfl
  have hpos := c.utf8Size_pos
  unfold utf16Size
  split_ifs <;> omega

theorem length_utf8_cons (c : Char) (s : Str) : (utf8 (c :: s)).length = c.utf8Size + (utf8 s).length := by
  unfold utf8
  rw [List.flatMap_cons, List.length_append, String.length_utf8EncodeChar]

/-- **UTF-16 is never longer than UTF-8**, and as long only for ASCII text. -/
theorem utf16Length_eq_iff (s : Str) :
    utf16Length s ≤ (utf8 s).length ∧ (utf16Length s = (utf8 s).length ↔ IsAscii s) := by
  induction s with
  | nil => exact ⟨Nat.le_refl 0, fun _ c hc => absurd hc List.not_mem_nil, fun _ => rfl⟩
  | cons c s ih =>
    obtain ⟨hle, hiff⟩ := ih
    obtain ⟨hcle, hciff⟩ := utf16Size_le c
    have hsum : utf16Length (c :: s) = utf16Size c + utf16Length s := rfl
    have hascii : IsAscii (c :: s) ↔ c.toNat < 0x80 ∧ IsAscii s := List.forall_mem_cons
    rw [hsum, length_utf8_cons, hascii, ← hiff, ← hciff]
    omega

/-! ## Big-endian numbers -/

/-- The lowest `w` bytes of a number, the highest first. -/
def bigEndian : ℕ → ℕ → List UInt8
  | 0, _ => []
  | w + 1, n => .ofNat (n / 256 ^ w) :: bigEndian w n

def ofBigEndian (bs : List UInt8) : ℕ := bs.foldl (fun n b => n * 256 + b.toNat) 0

theorem length_bigEndian (w n : ℕ) : (bigEndian w n).length = w := by
  induction w with
  | zero => rfl
  | succ w ih => rw [bigEndian, List.length_cons, ih]

theorem foldl_bigEndian (w n a : ℕ) :
    (bigEndian w n).foldl (fun n b => n * 256 + b.toNat) a = a * 256 ^ w + n % 256 ^ w := by
  induction w generalizing a with
  | zero => simp [bigEndian, Nat.mod_one]
  | succ w ih =>
    have hmod : n % 256 ^ (w + 1) = n % 256 ^ w + 256 ^ w * (n / 256 ^ w % 256) := by
      rw [Nat.pow_succ, Nat.mod_mul]
    have hbyte : (UInt8.ofNat (n / 256 ^ w)).toNat = n / 256 ^ w % 256 := UInt8.toNat_ofNat'
    rw [bigEndian, List.foldl_cons, ih, hbyte, hmod, Nat.pow_succ, Nat.add_mul, Nat.mul_assoc a 256,
      Nat.mul_comm 256 (256 ^ w), Nat.mul_comm (n / 256 ^ w % 256)]
    omega

/-- **Numbers are read back**, as far as the bytes hold them. -/
theorem ofBigEndian_bigEndian (w n : ℕ) : ofBigEndian (bigEndian w n) = n % 256 ^ w := by
  unfold ofBigEndian
  rw [foldl_bigEndian, Nat.zero_mul, Nat.zero_add]

theorem foldl_div (bs : List UInt8) (a : ℕ) :
    bs.foldl (fun n b => n * 256 + b.toNat) a / 256 ^ bs.length = a := by
  induction bs generalizing a with
  | nil => simp
  | cons b bs ih =>
    have hlt := b.toNat_lt
    rw [List.foldl_cons, List.length_cons, Nat.pow_succ, ← Nat.div_div_eq_div_mul, ih]
    omega

/-- **Bytes are the bytes of the number they stand for.** -/
theorem bigEndian_ofBigEndian (bs : List UInt8) : bigEndian bs.length (ofBigEndian bs) = bs := by
  have hall : ∀ a, bigEndian bs.length (bs.foldl (fun n b => n * 256 + b.toNat) a) = bs := by
    induction bs with
    | nil => intro a; rfl
    | cons b bs ih =>
      intro a
      have hb : UInt8.ofNat (a * 256 + b.toNat) = b := by
        rw [← UInt8.toNat_inj, UInt8.toNat_ofNat']
        have hlt := b.toNat_lt
        omega
      rw [List.length_cons, bigEndian, List.foldl_cons, foldl_div, hb, ih]
  exact hall 0

theorem ofBigEndian_lt (bs : List UInt8) : ofBigEndian bs < 256 ^ bs.length := by
  have h := ofBigEndian_bigEndian bs.length (ofBigEndian bs)
  rw [bigEndian_ofBigEndian] at h
  rw [h]
  exact Nat.mod_lt _ (Nat.pow_pos (by decide))

/-- The first byte counts most. -/
theorem ofBigEndian_cons (b : UInt8) (bs : List UInt8) :
    ofBigEndian (b :: bs) = b.toNat * 256 ^ bs.length + ofBigEndian bs := by
  have h := foldl_bigEndian bs.length (ofBigEndian bs) b.toNat
  rw [bigEndian_ofBigEndian, Nat.mod_eq_of_lt (ofBigEndian_lt bs)] at h
  unfold ofBigEndian at h ⊢
  rw [List.foldl_cons, Nat.zero_mul, Nat.zero_add, h]

/-! ## Base64 -/

namespace Base64

/-- The 64 characters and their values. -/
structure Alphabet where
  char : ℕ → Char
  value : Char → Option ℕ
  value_char : ∀ n < 64, value (char n) = some n
  char_ne : ∀ n < 64, char n ≠ '='

/-- The values of the characters of an unpadded text: six bits each. -/
def sextets : List UInt8 → List ℕ
  | [] => []
  | [a] => [a.toNat / 4, a.toNat % 4 * 16]
  | [a, b] => [a.toNat / 4, a.toNat % 4 * 16 + b.toNat / 16, b.toNat % 16 * 4]
  | a :: b :: c :: bs =>
    a.toNat / 4 :: (a.toNat % 4 * 16 + b.toNat / 16) :: (b.toNat % 16 * 4 + c.toNat / 64) :: c.toNat % 64 ::
      sextets bs

/-- `encodeToString` with `NO_WRAP` and `NO_PADDING`. -/
def encode (A : Alphabet) (bs : List UInt8) : Str := (sextets bs).map A.char

/-- The data characters and the padding of a text (`none`); other characters are skipped. -/
def symbols (A : Alphabet) (s : Str) : List (Option ℕ) :=
  s.filterMap fun c => if c = '=' then some none else (A.value c).map some

/-- The decoder, on symbols. A single character at the end, padding at a wrong place and anything after
the padding are errors. -/
def bytes : List (Option ℕ) → Option (List UInt8)
  | [] => some []
  | [some s, some t] => some [.ofNat (s * 4 + t / 16)]
  | [some s, some t, none, none] => some [.ofNat (s * 4 + t / 16)]
  | [some s, some t, some u] => some [.ofNat (s * 4 + t / 16), .ofNat (t % 16 * 16 + u / 4)]
  | [some s, some t, some u, none] => some [.ofNat (s * 4 + t / 16), .ofNat (t % 16 * 16 + u / 4)]
  | some s :: some t :: some u :: some v :: rest =>
    (bytes rest).map fun bs =>
      .ofNat (s * 4 + t / 16) :: .ofNat (t % 16 * 16 + u / 4) :: .ofNat (u % 4 * 64 + v) :: bs
  | _ => none

/-- `decode`; `none` is `IllegalArgumentException`. -/
def decode (A : Alphabet) (s : Str) : Option (List UInt8) := bytes (symbols A s)

theorem sextets_lt (bs : List UInt8) : ∀ n ∈ sextets bs, n < 64 := by
  have hlt : ∀ a : UInt8, a.toNat < 256 := fun a => a.toNat_lt
  induction bs using sextets.induct with
  | case1 => simp [sextets]
  | case2 a =>
    have := hlt a
    simp only [sextets, List.mem_cons, List.not_mem_nil, or_false]
    omega
  | case3 a b =>
    have := hlt a
    have := hlt b
    simp only [sextets, List.mem_cons, List.not_mem_nil, or_false]
    omega
  | case4 a b c bs ih =>
    have := hlt a
    have := hlt b
    have := hlt c
    simp only [sextets, List.mem_cons]
    rintro n (h | h | h | h | h)
    · omega
    · omega
    · omega
    · omega
    · exact ih n h

theorem symbols_map (A : Alphabet) {l : List ℕ} (h : ∀ n ∈ l, n < 64) : symbols A (l.map A.char) = l.map some := by
  induction l with
  | nil => rfl
  | cons n l ih =>
    rw [List.forall_mem_cons] at h
    have := ih h.2
    unfold symbols at this ⊢
    rw [List.map_cons, List.filterMap_cons_some, this, List.map_cons]
    rw [if_neg (A.char_ne n h.1), A.value_char n h.1]
    rfl

theorem symbols_encode (A : Alphabet) (bs : List UInt8) :
    symbols A (encode A bs) = (sextets bs).map some :=
  symbols_map A (sextets_lt bs)

/-- A byte is what its bits are put together to. -/
theorem ofNat_of_eq {a : UInt8} {n : ℕ} (h : n = a.toNat) : UInt8.ofNat n = a := by
  rw [h]
  exact UInt8.ofNat_toNat

theorem bytes_sextets (bs : List UInt8) : bytes ((sextets bs).map some) = some bs := by
  have hlt : ∀ a : UInt8, a.toNat < 256 := fun a => a.toNat_lt
  induction bs using sextets.induct with
  | case1 => rfl
  | case2 a =>
    have := hlt a
    simp only [sextets, List.map_cons, List.map_nil, bytes]
    rw [ofNat_of_eq (a := a) (by omega)]
  | case3 a b =>
    have := hlt a
    have := hlt b
    simp only [sextets, List.map_cons, List.map_nil, bytes]
    rw [ofNat_of_eq (a := a) (by omega), ofNat_of_eq (a := b) (by omega)]
  | case4 a b c bs ih =>
    have := hlt a
    have := hlt b
    have := hlt c
    simp only [sextets, List.map_cons, bytes]
    rw [ih, Option.map_some, ofNat_of_eq (a := a) (by omega), ofNat_of_eq (a := b) (by omega),
      ofNat_of_eq (a := c) (by omega)]

/-- **Base64 is read back.** -/
theorem decode_encode (A : Alphabet) (bs : List UInt8) : decode A (encode A bs) = some bs := by
  unfold decode
  rw [symbols_encode, bytes_sextets]

/-- A text that is cut off stands for the first bytes, or for none. -/
theorem bytes_take (bs : List UInt8) {k : ℕ} (hk : k < (sextets bs).length) {bs' : List UInt8}
    (h : bytes (((sextets bs).take k).map some) = some bs') : bs' <+: bs ∧ bs' ≠ bs := by
  have hlt : ∀ a : UInt8, a.toNat < 256 := fun a => a.toNat_lt
  induction bs using sextets.induct generalizing k bs' with
  | case1 => exact absurd hk (Nat.not_lt_zero k)
  | case2 a =>
    match k, hk with
    | 0, _ =>
      cases h
      exact ⟨List.nil_prefix, (List.cons_ne_nil a []).symm⟩
    | 1, _ => cases h
    | _ + 2, hk => exact absurd hk (by simp [sextets])
  | case3 a b =>
    have := hlt a
    have := hlt b
    match k, hk with
    | 0, _ =>
      cases h
      exact ⟨List.nil_prefix, (List.cons_ne_nil a [b]).symm⟩
    | 1, _ => cases h
    | 2, _ =>
      simp only [sextets, List.take_succ_cons, List.take_zero, List.map_cons, List.map_nil, bytes,
        Option.some.injEq] at h
      rw [← h, ofNat_of_eq (a := a) (by omega)]
      exact ⟨⟨[b], rfl⟩, by simp⟩
    | _ + 3, hk => exact absurd hk (by simp [sextets])
  | case4 a b c bs ih =>
    have := hlt a
    have := hlt b
    have := hlt c
    match k, hk with
    | 0, _ =>
      cases h
      exact ⟨List.nil_prefix, (List.cons_ne_nil a _).symm⟩
    | 1, _ => cases h
    | 2, _ =>
      simp only [sextets, List.take_succ_cons, List.take_zero, List.map_cons, List.map_nil, bytes,
        Option.some.injEq] at h
      rw [← h, ofNat_of_eq (a := a) (by omega)]
      exact ⟨⟨b :: c :: bs, rfl⟩, by simp⟩
    | 3, _ =>
      simp only [sextets, List.take_succ_cons, List.take_zero, List.map_cons, List.map_nil, bytes,
        Option.some.injEq] at h
      rw [← h, ofNat_of_eq (a := a) (by omega), ofNat_of_eq (a := b) (by omega)]
      exact ⟨⟨c :: bs, rfl⟩, by simp⟩
    | k + 4, hk =>
      simp only [sextets, List.length_cons, Nat.add_lt_add_iff_right] at hk
      simp only [sextets, List.take_succ_cons, List.map_cons, bytes] at h
      obtain ⟨ds, hds, rfl⟩ := Option.map_eq_some_iff.1 h
      obtain ⟨hpre, hne⟩ := ih hk hds
      rw [ofNat_of_eq (a := a) (by omega), ofNat_of_eq (a := b) (by omega), ofNat_of_eq (a := c) (by omega)]
      exact ⟨by simpa using hpre, by simpa using hne⟩

/-- **A text that is cut off** is not read as the bytes it was, but as a prefix of them. -/
theorem decode_take (A : Alphabet) {bs bs' : List UInt8} {k : ℕ} (hk : k < (encode A bs).length)
    (h : decode A ((encode A bs).take k) = some bs') : bs' <+: bs ∧ bs' ≠ bs := by
  unfold encode at hk h
  rw [List.length_map] at hk
  rw [← List.map_take, decode, symbols_map A fun n hn => sextets_lt bs n (List.mem_of_mem_take hn)] at h
  exact bytes_take bs hk h

/-- The letters and digits, which the alphabets have in common. -/
def commonChar (n : ℕ) : Char :=
  if n < 26 then Char.ofNat (65 + n)
  else if n < 52 then Char.ofNat (71 + n)
  else Char.ofNat (n - 4)

def commonValue (c : Char) : Option ℕ :=
  if 'A' ≤ c ∧ c ≤ 'Z' then some (c.toNat - 65)
  else if 'a' ≤ c ∧ c ≤ 'z' then some (c.toNat - 71)
  else if '0' ≤ c ∧ c ≤ '9' then some (c.toNat + 4)
  else none

/-- The alphabet with these two characters at the end. -/
def charWith (x y : Char) (n : ℕ) : Char := if n = 62 then x else if n = 63 then y else commonChar n

def valueWith (x y : Char) (c : Char) : Option ℕ :=
  if c = x then some 62 else if c = y then some 63 else commonValue c

/-- `URL_SAFE`. -/
def urlSafe : Alphabet where
  char := charWith '-' '_'
  value := valueWith '-' '_'
  value_char := by decide
  char_ne := by decide

/-- The default alphabet. -/
def standard : Alphabet where
  char := charWith '+' '/'
  value := valueWith '+' '/'
  value_char := by decide
  char_ne := by decide

/-- Letters, digits, `-` and `_`. -/
def isUrlSafe (c : Char) : Bool := (commonValue c).isSome || c = '-' || c = '_'

theorem isUrlSafe_encode {bs : List UInt8} {c : Char} (h : c ∈ encode urlSafe bs) : isUrlSafe c = true := by
  obtain ⟨n, hn, rfl⟩ := List.mem_map.1 h
  have hall : ∀ n < 64, isUrlSafe (charWith '-' '_' n) = true := by decide
  exact hall n (sextets_lt bs n hn)

/-- Letters, digits, `+` and `/`. -/
def isStandard (c : Char) : Bool := (commonValue c).isSome || c = '+' || c = '/'

theorem isStandard_encode {bs : List UInt8} {c : Char} (h : c ∈ encode standard bs) : isStandard c = true := by
  obtain ⟨n, hn, rfl⟩ := List.mem_map.1 h
  have hall : ∀ n < 64, isStandard (charWith '+' '/' n) = true := by decide
  exact hall n (sextets_lt bs n hn)

end Base64

/-! ## Percent-encoding -/

namespace Percent

/-- An upper-case hexadecimal digit. -/
def hexDigit (n : ℕ) : Char := if n < 10 then Char.ofNat (48 + n) else Char.ofNat (55 + n)

def hexValue (c : Char) : Option ℕ :=
  if '0' ≤ c ∧ c ≤ '9' then some (c.toNat - 48)
  else if 'A' ≤ c ∧ c ≤ 'F' then some (c.toNat - 55)
  else if 'a' ≤ c ∧ c ≤ 'f' then some (c.toNat - 87)
  else none

/-- The escape of a byte. -/
def escape (b : UInt8) : Str := ['%', hexDigit (b.toNat / 16), hexDigit (b.toNat % 16)]

/-- Characters that are not allowed are written as the escapes of their bytes. -/
def encodeChar (allowed : Char → Bool) (c : Char) : Str :=
  if allowed c then [c] else (String.utf8EncodeChar c).flatMap escape

def encode (allowed : Char → Bool) (s : Str) : Str := s.flatMap (encodeChar allowed)

/-- The bytes of a text with escapes; `none` if an escape is malformed. With `plus`, `+` is a blank. -/
def bytes (plus : Bool) : Str → Option (List UInt8)
  | [] => some []
  | c :: cs =>
    if c = '%' then
      match cs with
      | h :: l :: cs =>
        (hexValue h).bind fun x => (hexValue l).bind fun y => (bytes plus cs).map (.ofNat (16 * x + y) :: ·)
      | _ => none
    else (bytes plus cs).map (String.utf8EncodeChar (if plus && c = '+' then ' ' else c) ++ ·)

theorem hexValue_hexDigit : ∀ n < 16, hexValue (hexDigit n) = some n := by decide

theorem bytes_escape (plus : Bool) (b : UInt8) (t : Str) :
    bytes plus (escape b ++ t) = (bytes plus t).map (b :: ·) := by
  have hlt := b.toNat_lt
  have hb : UInt8.ofNat (16 * (b.toNat / 16) + b.toNat % 16) = b := by
    rw [Nat.div_add_mod]
    exact UInt8.ofNat_toNat
  unfold escape
  rw [List.cons_append, List.cons_append, List.cons_append, List.nil_append, bytes, if_pos rfl]
  rw [hexValue_hexDigit _ (by omega), hexValue_hexDigit _ (by omega), Option.bind_some, Option.bind_some, hb]

theorem bytes_escapes (plus : Bool) (bs : List UInt8) (t : Str) :
    bytes plus (bs.flatMap escape ++ t) = (bytes plus t).map (bs ++ ·) := by
  induction bs with
  | nil => simp
  | cons b bs ih =>
    rw [List.flatMap_cons, List.append_assoc, bytes_escape, ih, Option.map_map]
    rfl

/-- A character that stands for itself. -/
theorem bytes_char (plus : Bool) {c : Char} (hp : c ≠ '%') (hplus : plus = true → c ≠ '+') (t : Str) :
    bytes plus (c :: t) = (bytes plus t).map (String.utf8EncodeChar c ++ ·) := by
  have hc : (if (plus && decide (c = '+')) = true then ' ' else c) = c := by
    by_cases h : plus = true
    · simp [hplus h]
    · simp [h]
  rw [bytes.eq_def]
  simp only [hp, if_false, hc]

/-- **Percent-encoded text is read back**, as bytes. -/
theorem bytes_encode (plus : Bool) {allowed : Char → Bool} (h : ∀ c, allowed c = true → c ≠ '%' ∧ c ≠ '+')
    (s t : Str) : bytes plus (encode allowed s ++ t) = (bytes plus t).map (utf8 s ++ ·) := by
  induction s with
  | nil => simp [encode, utf8]
  | cons c s ih =>
    have hchar : ∀ r, bytes plus (encodeChar allowed c ++ r) = (bytes plus r).map (String.utf8EncodeChar c ++ ·) := by
      intro r
      unfold encodeChar
      by_cases ha : allowed c = true
      · rw [if_pos ha, List.singleton_append, bytes_char plus (h c ha).1 (fun _ => (h c ha).2)]
      · rw [if_neg ha, bytes_escapes]
    unfold encode utf8 at ih ⊢
    rw [List.flatMap_cons, List.append_assoc, hchar, ih, Option.map_map, List.flatMap_cons]
    simp only [Function.comp_def, List.append_assoc]

/-- Text without escapes is its own bytes. -/
theorem bytes_plain {s : Str} (h : '%' ∉ s) : bytes false s = some (utf8 s) := by
  induction s with
  | nil => rfl
  | cons c s ih =>
    rw [List.mem_cons, not_or] at h
    rw [bytes_char false (Ne.symm h.1) (by simp), ih h.2]
    rfl

/-- The characters of an encoded text. -/
theorem mem_encode {allowed : Char → Bool} {s : Str} {c : Char} (h : c ∈ encode allowed s) :
    allowed c = true ∨ c = '%' ∨ ∃ n < 16, c = hexDigit n := by
  obtain ⟨d, -, hc⟩ := List.mem_flatMap.1 h
  unfold encodeChar at hc
  by_cases ha : allowed d = true
  · rw [if_pos ha, List.mem_singleton] at hc
    exact Or.inl (hc ▸ ha)
  · rw [if_neg ha] at hc
    obtain ⟨b, -, hb⟩ := List.mem_flatMap.1 hc
    have hlt := b.toNat_lt
    simp only [escape, List.mem_cons, List.not_mem_nil, or_false] at hb
    rcases hb with rfl | rfl | rfl
    · exact Or.inr (Or.inl rfl)
    · exact Or.inr (Or.inr ⟨_, by omega, rfl⟩)
    · exact Or.inr (Or.inr ⟨_, by omega, rfl⟩)

end Percent

end BlackButton
