import Mathlib.Data.List.GetD
import BlackButton.Lib.Encoding
import BlackButton.Route.Context

/-!
# Reverse lookups (`should_forward_by_ptr_name`)

The name of a reverse lookup has the address in it, last part first. It is asked on the
side that a connection to that address would take.

* `shouldForwardByPtrName_address`: **the address is read back** from the names that resolvers make of it.
-/

namespace BlackButton

open Text

namespace Sslocal

/-! ## Numbers as Rust reads them -/

/-- `char::to_digit`. -/
def toDigit (radix : ℕ) (c : Char) : Option ℕ :=
  let digit :=
    if '0' ≤ c ∧ c ≤ '9' then some (c.toNat - 48)
    else if 'a' ≤ c ∧ c ≤ 'z' then some (c.toNat - 87)
    else if 'A' ≤ c ∧ c ≤ 'Z' then some (c.toNat - 55)
    else none
  digit.filter (· < radix)

/-- The digits of a number below `bound`, after those that make up `n`. -/
def readDigits (radix bound : ℕ) : ℕ → Str → Option ℕ
  | n, [] => some n
  | n, c :: cs =>
    (toDigit radix c).bind fun d => if n * radix + d < bound then readDigits radix bound (n * radix + d) cs else none

/-- `from_str_radix` of an unsigned type with `bound` values. -/
def fromStrRadix (radix bound : ℕ) : Str → Option ℕ
  | [] => none
  | '+' :: c :: cs => readDigits radix bound 0 (c :: cs)
  | cs => readDigits radix bound 0 cs

/-! ## The name -/

/-- `eq_ignore_ascii_case`. -/
def eqIgnoreAsciiCase (s t : Str) : Bool := s.map Char.toLower == t.map Char.toLower

/-- The labels of a name from its end, where `next` takes them from. -/
def labelTexts (labels : List Bytes) : List Str := labels.reverse.map fun label => (utf8Decode label).getD ['*']

/-- The `i`-th call of `next`; "zero fill the missing labels". -/
def nextLabel (texts : List Str) (i : ℕ) : Str := texts.getD i ['0']

/-- The octets of an `in-addr` name. -/
def octetsOfPtr (texts : List Str) : Option (List UInt8) :=
  (List.range 4).mapM fun i => (fromStrRadix 10 256 (nextLabel texts (2 + i))).map UInt8.ofNat

/-- The segments of an `ip6` name. -/
def segmentsOfPtr (texts : List Str) : Option (List UInt16) :=
  (List.range 8).mapM fun j =>
    (fromStrRadix 16 65536 (nextLabel texts (2 + 4 * j) ++ nextLabel texts (3 + 4 * j) ++
      nextLabel texts (4 + 4 * j) ++ nextLabel texts (5 + 4 * j))).map UInt16.ofNat

/-- `should_forward_by_ptr_name`. -/
def shouldForwardByPtrName (X : Crates) (acl : AccessControl) (labels : List Bytes) : Bool :=
  let texts := labelTexts labels
  if eqIgnoreAsciiCase "arpa".toList (nextLabel texts 0) = false then acl.isDefaultInProxyList
  else if (nextLabel texts 1).map Char.toLower = "in-addr".toList then
    match octetsOfPtr texts with
    | some octets => acl.checkIpInProxyList X octets
    | none => acl.isDefaultInProxyList
  else if (nextLabel texts 1).map Char.toLower = "ip6".toList then
    match segmentsOfPtr texts with
    | some segments => acl.checkIpInProxyList X (segments.flatMap Relay.putU16)
    | none => acl.isDefaultInProxyList
  else acl.isDefaultInProxyList

/-! ## The names that resolvers make -/

/-- A hexadecimal digit. -/
def hexDigit (n : ℕ) : Char := Nat.digitChar n

/-- The four digits of a segment. -/
def nibbles (w : UInt16) : List Char :=
  [hexDigit (w.toNat / 4096), hexDigit (w.toNat / 256 % 16), hexDigit (w.toNat / 16 % 16), hexDigit (w.toNat % 16)]

/-- `4.3.2.1.in-addr.arpa`. -/
def ptrName4 (ip : Relay.Ipv4Addr) : List Bytes :=
  (ip.val.map fun b => utf8 (decimal b.toNat)).reverse ++ [utf8 "in-addr".toList, utf8 "arpa".toList]

/-- `1.0.0.0. … .ip6.arpa`. -/
def ptrName6 (ip : Relay.Ipv6Addr) : List Bytes :=
  ((ip.val.flatMap nibbles).map fun c => utf8 [c]).reverse ++ [utf8 "ip6".toList, utf8 "arpa".toList]

theorem fromStrRadix_decimal : ∀ n < 256, fromStrRadix 10 256 (decimal n) = some n := by decide +kernel

theorem toDigit_hexDigit : ∀ n < 16, toDigit 16 (hexDigit n) = some n := by decide

theorem hexDigit_ne_plus : ∀ n < 16, hexDigit n ≠ '+' := by decide

/-- Four digits are read back as their segment. -/
theorem fromStrRadix_nibbles (w : UInt16) : fromStrRadix 16 65536 (nibbles w) = some w.toNat := by
  have hw := w.toNat_lt
  have h1 : w.toNat / 4096 < 16 := by omega
  have h2 : w.toNat / 256 % 16 < 16 := Nat.mod_lt _ (by decide)
  have h3 : w.toNat / 16 % 16 < 16 := Nat.mod_lt _ (by decide)
  have h4 : w.toNat % 16 < 16 := Nat.mod_lt _ (by decide)
  have hread : fromStrRadix 16 65536 (nibbles w) = readDigits 16 65536 0 (nibbles w) := by
    unfold nibbles fromStrRadix
    split
    · rename_i heq
      cases heq
    · rename_i heq
      exact absurd (List.cons.inj heq).1 (hexDigit_ne_plus _ h1)
    · rfl
  rw [hread]
  unfold nibbles
  simp only [readDigits, toDigit_hexDigit _ h1, toDigit_hexDigit _ h2, toDigit_hexDigit _ h3, toDigit_hexDigit _ h4,
    Option.bind_some]
  rw [if_pos (by omega), if_pos (by omega), if_pos (by omega), if_pos (by omega)]
  congr 1
  omega

/-- The texts of labels, from the end. -/
theorem labelTexts_reverse (front : List Str) (kind : Str) :
    labelTexts ((front.map utf8).reverse ++ [utf8 kind, utf8 "arpa".toList]) = "arpa".toList :: kind :: front := by
  unfold labelTexts
  rw [List.reverse_append, List.reverse_reverse, List.map_append, List.map_map]
  have hfront : front.map ((fun label => (utf8Decode label).getD ['*']) ∘ utf8) = front := by
    have hid : ((fun label => (utf8Decode label).getD ['*']) ∘ utf8) = id := by
      funext s
      simp only [Function.comp_apply, utf8Decode_utf8, Option.getD_some, id]
    rw [hid, List.map_id]
  rw [hfront]
  simp only [List.reverse_cons, List.reverse_nil, List.nil_append, List.cons_append, List.map_cons, List.map_nil,
    utf8Decode_utf8, Option.getD_some]

/-- What the calls of `next` give, after the first two. -/
theorem nextLabel_add (s t : Str) (texts : List Str) (i : ℕ) : nextLabel (s :: t :: texts) (2 + i) = nextLabel texts i := by
  rw [Nat.add_comm]
  rfl

/-- Reading one part after the other gives the parts. -/
theorem mapM_range_eq {α : Type} (xs : List α) {f : ℕ → Option α} (h : ∀ i (hi : i < xs.length), f i = some xs[i]) :
    (List.range xs.length).mapM f = some xs := by
  cases xs with
  | nil => rfl
  | cons x xs =>
    have hmap := mapM_eq_map (f := f) (g := fun i => (x :: xs).getD i x) (l := List.range (x :: xs).length)
      fun i hi => by
        rw [h i (List.mem_range.1 hi), List.getD_eq_getElem _ _ (List.mem_range.1 hi)]
    rw [hmap, Option.some.injEq]
    refine List.ext_getElem (by simp) fun i hi hi' => ?_
    rw [List.getElem_map, List.getElem_range, List.getD_eq_getElem _ _ hi']

/-- **The reverse name of an IPv4 address** goes where the address goes. -/
theorem shouldForwardByPtrName_v4 (X : Crates) (acl : AccessControl) (ip : Relay.Ipv4Addr) :
    shouldForwardByPtrName X acl (ptrName4 ip) = acl.checkIpInProxyList X ip.val := by
  have htexts : labelTexts (ptrName4 ip) = "arpa".toList :: "in-addr".toList :: ip.val.map fun b => decimal b.toNat := by
    rw [← labelTexts_reverse, List.map_map]
    rfl
  have hread : octetsOfPtr (labelTexts (ptrName4 ip)) = some ip.val := by
    unfold octetsOfPtr
    rw [htexts]
    have hmap := mapM_range_eq ip.val (f := fun i => (fromStrRadix 10 256
      (nextLabel ("arpa".toList :: "in-addr".toList :: ip.val.map fun b => decimal b.toNat) (2 + i))).map UInt8.ofNat)
      fun i hi => by
        have hlabel : nextLabel (ip.val.map fun b => decimal b.toNat) i = decimal ip.val[i].toNat := by
          unfold nextLabel
          rw [List.getD_eq_getElem _ _ (by rw [List.length_map]; exact hi), List.getElem_map]
        rw [nextLabel_add, hlabel, fromStrRadix_decimal _ ip.val[i].toNat_lt, Option.map_some, UInt8.ofNat_toNat]
    rw [ip.property] at hmap
    exact hmap
  simp only [shouldForwardByPtrName, hread]
  rw [htexts]
  rfl

/-- Four labels of one digit each make up a segment. -/
theorem nextLabel_nibbles (ws : List UInt16) :
    ∀ j (hj : j < ws.length), nextLabel ((ws.flatMap nibbles).map fun c => [c]) (4 * j) ++
      nextLabel ((ws.flatMap nibbles).map fun c => [c]) (4 * j + 1) ++
      nextLabel ((ws.flatMap nibbles).map fun c => [c]) (4 * j + 2) ++
      nextLabel ((ws.flatMap nibbles).map fun c => [c]) (4 * j + 3) = nibbles ws[j] := by
  induction ws with
  | nil => exact fun j hj => absurd hj (Nat.not_lt_zero j)
  | cons w ws ih =>
    intro j hj
    cases j with
    | zero => rfl
    | succ j => exact ih j (Nat.lt_of_succ_lt_succ hj)

/-- **The reverse name of an IPv6 address** goes where the address goes. -/
theorem shouldForwardByPtrName_v6 (X : Crates) (acl : AccessControl) (ip : Relay.Ipv6Addr) :
    shouldForwardByPtrName X acl (ptrName6 ip) = acl.checkIpInProxyList X (ip.val.flatMap Relay.putU16) := by
  have htexts : labelTexts (ptrName6 ip) =
      "arpa".toList :: "ip6".toList :: (ip.val.flatMap nibbles).map fun c => [c] := by
    rw [← labelTexts_reverse, List.map_map]
    rfl
  have hread : segmentsOfPtr (labelTexts (ptrName6 ip)) = some ip.val := by
    unfold segmentsOfPtr
    rw [htexts]
    have hmap := mapM_range_eq ip.val (f := fun j => (fromStrRadix 16 65536
      (nextLabel ("arpa".toList :: "ip6".toList :: (ip.val.flatMap nibbles).map fun c => [c]) (2 + 4 * j) ++
        nextLabel ("arpa".toList :: "ip6".toList :: (ip.val.flatMap nibbles).map fun c => [c]) (3 + 4 * j) ++
        nextLabel ("arpa".toList :: "ip6".toList :: (ip.val.flatMap nibbles).map fun c => [c]) (4 + 4 * j) ++
        nextLabel ("arpa".toList :: "ip6".toList :: (ip.val.flatMap nibbles).map fun c => [c]) (5 + 4 * j))).map
      UInt16.ofNat)
      fun j hj => by
        have h1 : 3 + 4 * j = 2 + (4 * j + 1) := by omega
        have h2 : 4 + 4 * j = 2 + (4 * j + 2) := by omega
        have h3 : 5 + 4 * j = 2 + (4 * j + 3) := by omega
        rw [h1, h2, h3, nextLabel_add, nextLabel_add, nextLabel_add, nextLabel_add, nextLabel_nibbles ip.val j hj,
          fromStrRadix_nibbles, Option.map_some, UInt16.ofNat_toNat]
    rw [ip.property] at hmap
    exact hmap
  simp only [shouldForwardByPtrName, hread]
  rw [htexts]
  rfl

/-- The name under which resolvers look an address up. -/
def ptrName : Relay.SocketAddr → List Bytes
  | .v4 ip _ => ptrName4 ip
  | .v6 ip _ _ _ => ptrName6 ip

/-- **A reverse lookup is asked on the side that a connection to the address takes.** -/
theorem shouldForwardByPtrName_address (X : Crates) (acl : AccessControl) (addr : Relay.SocketAddr) :
    shouldForwardByPtrName X acl (ptrName addr) = acl.checkIpInProxyList X addr.ip := by
  cases addr with
  | v4 ip port => exact shouldForwardByPtrName_v4 X acl ip
  | v6 ip port flowinfo scopeId => exact shouldForwardByPtrName_v6 X acl ip

end Sslocal

end BlackButton
