import BlackButton.Lib.Encoding
import BlackButton.Lib.InputStream

/-!
# DNS queries on the local socket (`bg/LocalDnsWorker.kt`)

A query is sent as two bytes with its length, then its bytes. `accept` allocates an
array of that length and fills it by one `read`, which can return less.

* `readQuery_spec`: the array has what one read returns, and zeros.
* `accept_iff`: **when the framing does not depend on the chunks.**
-/

namespace BlackButton

open InputStream

namespace LocalDnsWorker

/-- `DataInputStream.readUnsignedShort`; `none` is `EOFException`. -/
def readUnsignedShort (input : InputStream UInt8) : Option (ℕ × InputStream UInt8) :=
  match readOne input with
  | (none, _) => none
  | (some ch1, input) =>
    match readOne input with
    | (none, _) => none
    | (some ch2, input) => some (ch1.toNat * 256 + ch2.toNat, input)

/-- `ByteArray(input.readUnsignedShort()).also { input.read(it) }`; `none` is an `IOException`. -/
def readQuery (input : InputStream UInt8) : Option (List UInt8) :=
  (readUnsignedShort input).map fun (size, input) =>
    let data := (read size input).1.getD []
    data ++ List.replicate (size - data.length) 0

/-- `accept`: the array that is passed to the resolver and the bytes that are written, unless the
connection was closed early. A resolver that throws is answered with `SERVFAIL`, or with no bytes if the
query cannot be parsed. -/
def accept (resolver servfail : List UInt8 → Option (List UInt8)) (input : InputStream UInt8) :
    Option (List UInt8 × List UInt8) :=
  (readQuery input).map fun query =>
    let response := (resolver query).getD ((servfail query).getD [])
    (query, bigEndian 2 response.length ++ response)

/-- The bytes that are sent for a query. -/
def framed (query : List UInt8) : List UInt8 := bigEndian 2 query.length ++ query

/-- The length of a query, and the stream after it. -/
theorem readUnsignedShort_some {input : InputStream UInt8} {b b' : UInt8} {rest : List UInt8}
    (h : input.bytes = b :: b' :: rest) :
    ∃ input', readUnsignedShort input = some (b.toNat * 256 + b'.toNat, input') ∧ input'.bytes = rest ∧
      untilBoundary 0 input'.chunks = untilBoundary 2 input.chunks := by
  obtain ⟨hone, htail, hboundary⟩ := readOne_spec input
  obtain ⟨hone', htail', hboundary'⟩ := readOne_spec (readOne input).2
  rw [h, List.head?_cons] at hone
  rw [h, List.tail_cons] at htail
  rw [htail, List.head?_cons] at hone'
  rw [htail, List.tail_cons] at htail'
  refine ⟨(readOne (readOne input).2).2, ?_, htail', ?_⟩
  · unfold readUnsignedShort
    rcases hfirst : readOne input with ⟨c, input'⟩
    rw [hfirst] at hone hone'
    rcases hsecond : readOne input' with ⟨c', input''⟩
    rw [hsecond] at hone'
    cases hone
    cases hone'
    simp only [hsecond]
  · rw [hboundary', hboundary]

/-- The stream ends before the length. -/
theorem readUnsignedShort_none {input : InputStream UInt8} (h : input.bytes.length < 2) :
    readUnsignedShort input = none := by
  obtain ⟨hone, htail, -⟩ := readOne_spec input
  obtain ⟨hone', -, -⟩ := readOne_spec (readOne input).2
  have hnone : input.bytes.tail.head? = none := by
    cases hbytes : input.bytes with
    | nil => rfl
    | cons b bs =>
      rw [hbytes, List.length_cons] at h
      have hnil : bs = [] := List.length_eq_zero_iff.1 (by omega)
      rw [hnil]
      rfl
  rw [htail, hnone] at hone'
  unfold readUnsignedShort
  rcases hfirst : readOne input with ⟨b, input'⟩
  rw [hfirst] at hone'
  cases b with
  | none => rfl
  | some b =>
    rcases hsecond : readOne input' with ⟨b', input''⟩
    rw [hsecond] at hone'
    cases hone'
    simp only [hsecond]

/-- **What is passed to the resolver**: what has arrived in the chunk of the first byte, and zeros. -/
theorem readQuery_spec {input : InputStream UInt8} {query rest : List UInt8} (hlen : query.length ≤ 65535)
    (h : input.bytes = bigEndian 2 query.length ++ rest) :
    readQuery input = some (rest.take (min query.length (untilBoundary 2 input.chunks)) ++
      List.replicate (query.length - (rest.take (min query.length (untilBoundary 2 input.chunks))).length) 0) := by
  have hheader : bigEndian 2 query.length = [.ofNat (query.length / 256), .ofNat query.length] := by
    simp [bigEndian]
  rw [hheader, List.cons_append, List.cons_append, List.nil_append] at h
  obtain ⟨input', hshort, hrest, hboundary⟩ := readUnsignedShort_some h
  have hsize : (UInt8.ofNat (query.length / 256)).toNat * 256 + (UInt8.ofNat query.length).toNat =
      query.length := by
    rw [UInt8.toNat_ofNat', UInt8.toNat_ofNat']
    omega
  obtain ⟨hread, -, -⟩ := read_spec query.length input'
  rw [hrest, hboundary] at hread
  unfold readQuery
  rw [hshort, hsize]
  simp only [Option.map_some, hread]

/-- Bytes after a prefix that are all zero, as the array has them. -/
theorem take_append_replicate {query : List UInt8} {n : ℕ} (hn : n ≤ query.length) :
    query.take n ++ List.replicate (query.length - (query.take n).length) 0 = query ↔
      ∀ b ∈ query.drop n, b = 0 := by
  have hlen : (query.take n).length = n := List.length_take_of_le hn
  have hsplit : query.take n ++ query.drop n = query := List.take_append_drop n query
  rw [hlen]
  constructor
  · intro h b hb
    have hdrop : query.drop n = List.replicate (query.length - n) 0 :=
      List.append_cancel_left (hsplit.trans h.symm)
    rw [hdrop] at hb
    exact List.eq_of_mem_replicate hb
  · intro h
    have hdrop : query.drop n = List.replicate (query.length - n) 0 := by
      rw [List.eq_replicate_iff, List.length_drop]
      exact ⟨rfl, h⟩
    rw [← hdrop, hsplit]

/-- **When the framing does not depend on the chunks.** A query that arrives whole is passed to the
resolver exactly if its bytes outside the chunk of its first byte are zero; and for a query that is cut off,
the resolver is not called exactly if its length has not arrived either. -/
theorem accept_iff (resolver servfail : List UInt8 → Option (List UInt8)) :
    (∀ (query : List UInt8) (input : InputStream UInt8), query.length ≤ 65535 → input.bytes = framed query →
      ((accept resolver servfail input).map Prod.fst = some query ↔
        ∀ b ∈ query.drop (untilBoundary 2 input.chunks), b = 0)) ∧
    ∀ (query : List UInt8) (input : InputStream UInt8), query.length ≤ 65535 →
      input.bytes <+: framed query → input.bytes.length < (framed query).length →
        (accept resolver servfail input = none ↔ input.bytes.length < 2) := by
  have hfst : ∀ input : InputStream UInt8,
      (accept resolver servfail input).map Prod.fst = readQuery input := by
    intro input
    unfold accept
    rw [Option.map_map]
    exact Option.map_id'
  constructor
  · intro query input hlen hbytes
    rw [hfst, readQuery_spec hlen hbytes, Option.some.injEq,
      take_append_replicate (Nat.min_le_left query.length (untilBoundary 2 input.chunks))]
    by_cases hle : query.length ≤ untilBoundary 2 input.chunks
    · rw [Nat.min_eq_left hle, List.drop_length, List.drop_eq_nil_of_le hle]
    · rw [Nat.min_eq_right (by omega)]
  · intro query input hlen hpre hshort
    have hnone : accept resolver servfail input = none ↔ readQuery input = none := by
      rw [← hfst, Option.map_eq_none_iff]
    rw [hnone]
    constructor
    · intro h
      by_contra htwo
      obtain ⟨rest, hrest⟩ := List.prefix_of_prefix_length_le (List.prefix_append _ query) hpre
        (by rw [length_bigEndian]; omega)
      rw [readQuery_spec hlen hrest.symm] at h
      cases h
    · intro htwo
      unfold readQuery
      rw [readUnsignedShort_none htwo, Option.map_none]

/-- A query of two bytes that arrives in two chunks. -/
def split : InputStream UInt8 := ⟨[[0, 2, 1], [2]], by decide⟩

/-- Its first byte, after which the connection is closed. -/
def cut : InputStream UInt8 := ⟨[[0, 2, 1]], by decide⟩

theorem accept_split :
    (accept some some split).map Prod.fst = some [1, 0] ∧
      (accept some some cut).map Prod.fst = some [1, 0] ∧
      ¬ ∀ (query : List UInt8) (input : InputStream UInt8), query.length ≤ 65535 →
        input.bytes = framed query → (accept some some input).map Prod.fst = some query := by
  have hsplit : (accept some some split).map Prod.fst = some [1, 0] := by decide
  refine ⟨hsplit, by decide, fun h => ?_⟩
  have := h [1, 2] split (by decide) (by decide)
  rw [hsplit] at this
  exact absurd this (by decide)

/-- A query whose second byte is zero arrives in the same chunks. -/
theorem accept_iff_zero :
    (accept some some ⟨[[0, 2, 1], [0]], by decide⟩).map Prod.fst = some [1, 0] ∧
      accept some some ⟨[[0]], by decide⟩ = none := by
  exact ⟨((accept_iff some some).1 [1, 0] _ (by decide) (by decide)).2 fun b hb => List.mem_singleton.1 hb,
    ((accept_iff some some).2 [1, 0] _ (by decide) (by decide) (by decide)).2 (by decide)⟩

end LocalDnsWorker

end BlackButton
