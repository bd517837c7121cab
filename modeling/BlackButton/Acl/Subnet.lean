import Mathlib.Data.Char
import Mathlib.Data.List.Lex
import BlackButton.Lib.Text

/-!
# Subnets (`net/Subnet.kt`)

An `InetAddress` is its address bytes. What the platform does with addresses and
URLs is a parameter (`Platform`), with the behaviour the code relies on as its
laws (`Platform.Lawful`).

`Subnet.fromString_print`: a printed subnet is read back.
-/

namespace BlackButton

open Text

/-- The platform's network classes; `U` is `java.net.URL` with its `equals` as equality. -/
structure Platform (U : Type) where
  -- `String.parseNumericAddress`
  parseNumericAddress : Str → Option (List UInt8)
  -- `InetAddress.getHostAddress`
  hostAddress : List UInt8 → Str
  -- `URL(spec)`; `none` is `MalformedURLException`
  url : Str → Option U
  -- `URL.toString`
  external : U → Str
  -- the order of `URLSorter`
  urlLe : U → U → Bool

/-- What the code relies on. -/
structure Platform.Lawful {U : Type} (P : Platform U) : Prop where
  -- numeric address parsing inverts `hostAddress`
  parse_host : ∀ s a, P.parseNumericAddress s = some a → P.parseNumericAddress (P.hostAddress a) = some a
  -- an address has 4 or 16 bytes
  address_length : ∀ s a, P.parseNumericAddress s = some a → a.length = 4 ∨ a.length = 16
  -- a numeric address is written without blanks and without `#`, `/` and `[`
  host_text : ∀ s a, P.parseNumericAddress s = some a → P.hostAddress a ≠ [] ∧
    ∀ c ∈ P.hostAddress a, isWhitespace c = false ∧ c ≠ '#' ∧ c ≠ '/' ∧ c ≠ '['
  -- re-parsing the external form of a URL gives the URL
  url_external : ∀ s u, P.url s = some u → P.url (P.external u) = some u
  -- an external form is not empty, and has line terminators only if the text it was parsed from has
  external_text : ∀ s u, P.url s = some u → (∀ c ∈ s, isTerminator c = false) →
    P.external u ≠ [] ∧ ∀ c ∈ P.external u, isTerminator c = false

/-- `Subnet`, with what its `init` block requires. -/
structure Subnet where
  address : List UInt8
  prefixSize : ℕ
  le : prefixSize ≤ 8 * address.length
  deriving DecidableEq

namespace Subnet

variable {U : Type} (P : Platform U)

/-- `Subnet.fromString`, with the default `lengthCheck`. -/
def fromString (value : Str) : Option Subnet :=
  let parts := splitOnce '/' value
  match P.parseNumericAddress parts.1 with
  | none => none
  | some addr =>
    match parts.2 with
    | some size =>
      match toInt size with
      | none => none
      | some prefixSize =>
        if h : 0 ≤ prefixSize ∧ prefixSize ≤ 8 * addr.length then
          some ⟨addr, prefixSize.toNat, by omega⟩
        else none
    | none => some ⟨addr, 8 * addr.length, Nat.le_refl _⟩

/-- `Subnet.toString`. -/
def print (s : Subnet) : Str :=
  if s.prefixSize = 8 * s.address.length then P.hostAddress s.address
  else P.hostAddress s.address ++ '/' :: decimal s.prefixSize

/-- The loop of `Subnet.compareTo`: the first byte that differs decides, as an unsigned number. -/
def compareBytes : List UInt8 → List UInt8 → Ordering
  | a :: as, b :: bs => (compare a.toNat b.toNat).then (compareBytes as bs)
  | _, _ => .eq

/-- `Subnet.compareTo`: IPv4 addresses go first. -/
def compareTo (a b : Subnet) : Ordering :=
  (compare a.address.length b.address.length).then
    ((compareBytes a.address b.address).then (compare a.prefixSize b.prefixSize))

variable {P}

/-- The address of a subnet that was read was parsed from a text. -/
theorem address_of_fromString {value : Str} {s : Subnet} (h : fromString P value = some s) :
    ∃ t, P.parseNumericAddress t = some s.address := by
  unfold fromString at h
  simp only at h
  split at h
  · cases h
  · rename_i addr ha
    split at h
    · split at h
      · cases h
      · split at h
        · cases h; exact ⟨_, ha⟩
        · cases h
    · cases h; exact ⟨_, ha⟩

/-- The characters of a printed subnet. -/
theorem print_text (hP : P.Lawful) {s : Subnet} {t : Str} (ha : P.parseNumericAddress t = some s.address) :
    print P s ≠ [] ∧ ∀ c ∈ print P s, isWhitespace c = false ∧ c ≠ '#' ∧ c ≠ '[' := by
  obtain ⟨hne, hc⟩ := hP.host_text _ _ ha
  unfold print
  split
  · exact ⟨hne, fun c h => ⟨(hc c h).1, (hc c h).2.1, (hc c h).2.2.2⟩⟩
  · refine ⟨by simp, ?_⟩
    intro c h
    rw [List.mem_append, List.mem_cons] at h
    rcases h with h | rfl | h
    · exact ⟨(hc c h).1, (hc c h).2.1, (hc c h).2.2.2⟩
    · decide
    · have hd := isDigit_of_mem_decimal h
      refine ⟨isWhitespace_of_isDigit hd, ?_, ?_⟩
      · rintro rfl; exact absurd hd (by decide)
      · rintro rfl; exact absurd hd (by decide)

/-- **A printed subnet is read back.** -/
theorem fromString_print (hP : P.Lawful) {s : Subnet} {t : Str}
    (ha : P.parseNumericAddress t = some s.address) : fromString P (print P s) = some s := by
  obtain ⟨-, hc⟩ := hP.host_text _ _ ha
  have hslash : '/' ∉ P.hostAddress s.address := fun h => (hc _ h).2.2.1 rfl
  have hle := s.le
  have hlen := hP.address_length _ _ ha
  unfold fromString print
  split
  · rename_i heq
    rw [splitOnce_of_not_mem hslash]
    simp only [hP.parse_host _ _ ha]
    congr 1
    cases s
    simp_all
  · rw [splitOnce_append hslash]
    simp only [hP.parse_host _ _ ha, toInt_decimal (show s.prefixSize ≤ 2147483647 by omega)]
    rw [dif_pos ⟨by omega, by omega⟩]
    simp

end Subnet

/-! ## A lawful platform: dotted IPv4 addresses and `http` URLs -/

/-- The byte that is written as `s`. -/
def octet (s : Str) : Option UInt8 :=
  ((List.range 256).find? (fun n => decimal n = s)).map UInt8.ofNat

/-- The platform that knows IPv4 addresses and `http` URLs only. -/
def Platform.ipv4 : Platform Str where
  parseNumericAddress s :=
    match s.splitOn '.' with
    | [a, b, c, d] => do some [← octet a, ← octet b, ← octet c, ← octet d]
    | _ => none
  hostAddress a := List.intercalate ['.'] (a.map fun b => decimal b.toNat)
  url s := if "http://".toList.isPrefixOf s then some s else none
  external u := u
  urlLe a b := decide (a ≤ b)

theorem octet_decimal (b : UInt8) : octet (decimal b.toNat) = some b := by
  have hinj : ∀ m n, decimal m = decimal n → m = n := by
    intro m n h
    have := congrArg (fun l => Nat.ofDigitChars 10 l 0) h
    simpa [decimal, Nat.ofDigitChars_ten_toDigits] using this
  have hlt : b.toNat < 256 := b.toNat_lt
  obtain ⟨n, hn⟩ : ∃ n, (List.range 256).find? (fun n => decimal n = decimal b.toNat) = some n := by
    rw [← Option.isSome_iff_exists, List.find?_isSome]
    exact ⟨b.toNat, List.mem_range.2 hlt, by simp⟩
  have hdec : decimal n = decimal b.toNat := by simpa using List.find?_some hn
  unfold octet
  rw [hn, hinj n b.toNat hdec]
  simp

theorem decimal_of_octet {s : Str} {b : UInt8} (h : octet s = some b) : decimal b.toNat = s := by
  unfold octet at h
  rw [Option.map_eq_some_iff] at h
  obtain ⟨n, hn, rfl⟩ := h
  have hlt : n < 256 := List.mem_range.1 (List.mem_of_find?_eq_some hn)
  have hdec : decimal n = s := by simpa using List.find?_some hn
  rw [UInt8.toNat_ofNat', Nat.mod_eq_of_lt hlt, hdec]

theorem Platform.ipv4_parse {s : Str} {a : List UInt8} (h : Platform.ipv4.parseNumericAddress s = some a) :
    ∃ b0 b1 b2 b3, a = [b0, b1, b2, b3] := by
  simp only [Platform.ipv4] at h
  split at h
  · simp only [Option.bind_eq_bind, Option.bind_eq_some_iff, Option.some.injEq] at h
    obtain ⟨b0, -, b1, -, b2, -, b3, -, rfl⟩ := h
    exact ⟨b0, b1, b2, b3, rfl⟩
  · cases h

theorem Platform.ipv4_hostAddress (a : List UInt8) :
    Platform.ipv4.hostAddress a = List.intercalate ['.'] (a.map fun b => decimal b.toNat) := rfl

theorem Platform.ipv4_url {s u : Str} :
    Platform.ipv4.url s = some u ↔ "http://".toList.isPrefixOf s = true ∧ u = s := by
  have hurl : Platform.ipv4.url s = if "http://".toList.isPrefixOf s then some s else none := rfl
  rw [hurl]
  cases "http://".toList.isPrefixOf s <;> simp [eq_comm]

theorem Platform.ipv4_lawful : Platform.ipv4.Lawful := by
  have hdigit : ∀ (b : UInt8) (c : Char), c ∈ decimal b.toNat → c.isDigit = true :=
    fun b c hc => isDigit_of_mem_decimal hc
  have hdot : ∀ b : UInt8, '.' ∉ decimal b.toNat := fun b h => absurd (hdigit b _ h) (by decide)
  refine ⟨?_, ?_, ?_, ?_, ?_⟩
  · intro s a h
    obtain ⟨b0, b1, b2, b3, rfl⟩ := Platform.ipv4_parse h
    simp only [Platform.ipv4]
    rw [List.splitOn_intercalate '.' (by simp [hdot]) (by simp)]
    simp only [List.map_cons, List.map_nil, octet_decimal]
    rfl
  · intro s a h
    obtain ⟨b0, b1, b2, b3, rfl⟩ := Platform.ipv4_parse h
    exact Or.inl rfl
  · intro s a h
    obtain ⟨b0, b1, b2, b3, rfl⟩ := Platform.ipv4_parse h
    rw [Platform.ipv4_hostAddress]
    refine ⟨by simp [List.intercalate, decimal_ne_nil], ?_⟩
    intro c hc
    have hchar : c = '.' ∨ c.isDigit = true := by
      simp only [List.map_cons, List.map_nil, List.intercalate_cons_cons, List.intercalate_singleton,
        List.mem_append, List.mem_singleton] at hc
      rcases hc with (hc | hc) | (hc | hc) | (hc | hc) | hc
      all_goals first | exact Or.inl hc | exact Or.inr (hdigit _ _ hc)
    rcases hchar with rfl | hd
    · decide
    · exact ⟨isWhitespace_of_isDigit hd, by rintro rfl; exact absurd hd (by decide),
        by rintro rfl; exact absurd hd (by decide), by rintro rfl; exact absurd hd (by decide)⟩
  · intro s u h
    obtain ⟨h, rfl⟩ := Platform.ipv4_url.1 h
    exact Platform.ipv4_url.2 ⟨h, rfl⟩
  · intro s u h hs
    obtain ⟨h, rfl⟩ := Platform.ipv4_url.1 h
    refine ⟨?_, hs⟩
    intro hnil
    have hempty : u = [] := hnil
    rw [hempty] at h
    exact absurd h (by decide +kernel)

/-- The platform reads an address only from the text it prints. -/
theorem Platform.ipv4_text {s : Str} {a : List UInt8} (h : Platform.ipv4.parseNumericAddress s = some a) :
    Platform.ipv4.hostAddress a = s := by
  simp only [Platform.ipv4] at h ⊢
  split at h
  · rename_i t0 t1 t2 t3 hsplit
    simp only [Option.bind_eq_bind, Option.bind_eq_some_iff, Option.some.injEq] at h
    obtain ⟨b0, h0, b1, h1, b2, h2, b3, h3, rfl⟩ := h
    have hjoin : List.intercalate ['.'] (s.splitOn '.') = s := List.intercalate_splitOn '.'
    rw [← hjoin, hsplit]
    simp [decimal_of_octet h0, decimal_of_octet h1, decimal_of_octet h2, decimal_of_octet h3]
  · cases h

end BlackButton
