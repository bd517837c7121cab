import BlackButton.Lib.Refinement
import BlackButton.Relay.Aead

/-!
# One direction of an encrypted connection

A writer, the bytes on their way and a reader (`relay/tcprelay/aead.rs`), polled in any
order and with any readiness of the connection.

* `Follows`: where a reader stands in the ciphertext of a list of chunks; `Follows.turn`: a
  turn of its loop keeps it there, `Follows.extend`: so does one more chunk.
* `Channel.refines_fifo`: **the connection is a stream**: what the reader gives out is what
  the writer took, in order and once, the end is seen after all of it, and no packet
  is ever refused.
-/

namespace BlackButton

namespace Relay

variable (K : CipherKind)

/-- The cipher of a session before its `k`-th chunk. -/
def cipherAt (key salt : Bytes) (k : ℕ) : Cipher := ⟨key, salt, 2 * k⟩

theorem cipherAt_next_next (key salt : Bytes) (k : ℕ) : (cipherAt key salt k).next.next = cipherAt key salt (k + 1) :=
  rfl

/-- The ciphertext of a chunk: its length and its data. -/
def sealChunk (c : Cipher) (x : Bytes) : Bytes :=
  c.encryptPacket K (bigEndian 2 x.length) ++ c.next.encryptPacket K x

/-- The ciphertext of chunks, the first of them sealed by `c`. -/
def sealChunks (c : Cipher) : List Bytes → Bytes
  | [] => []
  | x :: xs => sealChunk K c x ++ sealChunks c.next.next xs

theorem sealChunks_concat (key salt : Bytes) (xs : List Bytes) (x : Bytes) :
    ∀ k, sealChunks K (cipherAt key salt k) (xs ++ [x]) =
      sealChunks K (cipherAt key salt k) xs ++ sealChunk K (cipherAt key salt (k + xs.length)) x := by
  induction xs with
  | nil =>
    intro k
    simp [sealChunks]
  | cons y ys ih =>
    intro k
    rw [List.cons_append, sealChunks, sealChunks, cipherAt_next_next, ih, List.append_assoc, List.length_cons]
    congr 3
    congr 1
    omega

/-- **Where a reader stands** in the ciphertext of `chunks`: `future` is what it has not got, and the last
argument what it has given out. -/
inductive Follows (key salt : Bytes) (chunks : List Bytes) (future : Bytes) : DecryptedReader → Bytes → Prop
  | waitSalt (buffer : Bytes) (h : buffer ++ future = salt ++ sealChunks K (cipherAt key salt 0) chunks) :
      Follows key salt chunks future ⟨.waitSalt key, none, buffer, none⟩ []
  | readLength (pre post : List Bytes) (buffer : Bytes) (s : Option Bytes) (hc : chunks = pre ++ post)
      (h : buffer ++ future = sealChunks K (cipherAt key salt pre.length) post) :
      Follows key salt chunks future ⟨.readLength, some (cipherAt key salt pre.length), buffer, s⟩ pre.flatten
  | readData (pre : List Bytes) (x : Bytes) (post : List Bytes) (buffer : Bytes) (s : Option Bytes)
      (hc : chunks = pre ++ x :: post)
      (h : buffer ++ future = (cipherAt key salt pre.length).next.encryptPacket K x ++
        sealChunks K (cipherAt key salt (pre.length + 1)) post) :
      Follows key salt chunks future ⟨.readData x.length, some (cipherAt key salt pre.length).next, buffer, s⟩
        pre.flatten
  | bufferedData (pre : List Bytes) (x : Bytes) (post : List Bytes) (pos : ℕ) (s : Option Bytes)
      (hc : chunks = pre ++ x :: post) (hpos : pos ≤ x.length)
      (h : future = sealChunks K (cipherAt key salt (pre.length + 1)) post) :
      Follows key salt chunks future ⟨.bufferedData pos, some (cipherAt key salt (pre.length + 1)), x, s⟩
        (pre.flatten ++ x.take pos)

variable {K} {key salt : Bytes} {chunks : List Bytes} {future received : Bytes} {r r' : DecryptedReader}

/-- What was given out is the beginning of what was sealed. -/
theorem Follows.beginning (h : Follows K key salt chunks future r received) : received <+: chunks.flatten := by
  cases h with
  | waitSalt => exact List.nil_prefix
  | readLength pre post buffer s hc =>
    rw [hc, List.flatten_append]
    exact List.prefix_append _ _
  | readData pre x post buffer s hc =>
    rw [hc, List.flatten_append]
    exact List.prefix_append _ _
  | bufferedData pre x post pos s hc =>
    rw [hc, List.flatten_append, List.flatten_cons, List.prefix_append_right_inj]
    exact (List.take_prefix pos x).trans (List.prefix_append _ _)

/-- One more chunk is sealed. -/
theorem Follows.extend (h : Follows K key salt chunks future r received) (x : Bytes) :
    Follows K key salt (chunks ++ [x]) (future ++ sealChunk K (cipherAt key salt chunks.length) x) r received := by
  cases h with
  | waitSalt buffer h =>
    refine .waitSalt buffer ?_
    rw [← List.append_assoc, h, sealChunks_concat, List.append_assoc, Nat.zero_add]
  | readLength pre post buffer s hc h =>
    refine .readLength pre (post ++ [x]) buffer s (by rw [hc, List.append_assoc]) ?_
    rw [← List.append_assoc, h, sealChunks_concat, hc, List.length_append]
  | readData pre y post buffer s hc h =>
    refine .readData pre y (post ++ [x]) buffer s (by rw [hc, List.append_assoc]; rfl) ?_
    rw [← List.append_assoc, h, sealChunks_concat, hc, List.length_append, List.length_cons, List.append_assoc]
    congr 4
    omega
  | bufferedData pre y post pos s hc hpos h =>
    refine .bufferedData pre y (post ++ [x]) pos s (by rw [hc, List.append_assoc]; rfl) hpos ?_
    rw [h, sealChunks_concat, hc, List.length_append, List.length_cons]
    congr 3
    omega

/-- A fresh reader, before the salt has arrived. -/
theorem follows_new (hsalt : salt.length = K.saltLen) :
    Follows K key salt [] salt (DecryptedReader.new K key) [] := by
  unfold DecryptedReader.new
  by_cases hpos : K.saltLen > 0
  · rw [if_pos hpos]
    exact .waitSalt [] (by simp [sealChunks])
  · have hnil : salt = [] := List.eq_nil_of_length_eq_zero (by omega)
    subst hnil
    rw [if_neg hpos]
    exact .readLength [] [] [] none rfl rfl

theorem length_encrypt (hK : K.Lawful) (c : Cipher) (p : Bytes) :
    (c.encryptPacket K p).length = p.length + K.tagLen :=
  hK.length_encrypt c.key c.salt c.n p

theorem decrypt_encrypt (hK : K.Lawful) (c : Cipher) (p : Bytes) :
    c.decryptPacket K (c.encryptPacket K p) = some p :=
  hK.decrypt_encrypt c.key c.salt c.n p

/-- The length that a sealed length says. -/
theorem ofBigEndian_length {x : Bytes} (hx : x.length ≤ MAX_PACKET_SIZE) :
    ofBigEndian ((bigEndian 2 x.length).take 2) = x.length := by
  have hle : x.length ≤ 16383 := hx
  rw [take_of_eq_length (length_bigEndian 2 x.length), ofBigEndian_bigEndian, Nat.mod_eq_of_lt (by omega)]

/-- What can come of a turn of a reader that follows: `future` is what it has not got, `stream` what has
arrived of that. -/
def FollowsTurn (K : CipherKind) (key salt : Bytes) (chunks : List Bytes) (future received : Bytes) (remaining : ℕ)
    (stream : Inbound) (r' : DecryptedReader) : DecryptedReader.Turn → Prop
  | .again | .pending => Follows K key salt chunks future r' received
  | .ok filled =>
    Follows K key salt chunks future r' (received ++ filled) ∧
      (0 < remaining → filled = [] →
        stream.bytes = [] ∧ stream.eof = true ∧ (future = [] → received = chunks.flatten))
  | .error e =>
    (e = .io .other ∨ (e = .io .unexpectedEof ∧ stream.bytes = [] ∧ stream.eof = true ∧ future ≠ [])) ∧
      Follows K key salt chunks future r' received

section Turn

variable {got : Bytes} {stream : Inbound} {t : DecryptedReader.Turn} {nonce : Option Bytes} {remaining : ℕ}

theorem turn_waitSalt (hsalt : salt.length = K.saltLen) {buffer : Bytes}
    (h : buffer ++ got ++ future = salt ++ sealChunks K (cipherAt key salt 0) chunks)
    (ht : Turned K ⟨.waitSalt key, none, buffer, none⟩ remaining (buffer ++ got) stream t r' nonce) :
    FollowsTurn K key salt chunks future [] remaining stream r' t := by
  cases ht with
  | waits => exact .waitSalt _ h
  | failed => exact ⟨Or.inl rfl, .waitSalt _ h⟩
  | cut hr hlt hb hs he =>
    refine ⟨Or.inr ⟨rfl, hs, he, ?_⟩, .waitSalt _ h⟩
    rintro rfl
    have hlt : (buffer ++ got).length < K.saltLen := hlt
    have hlen := congrArg List.length h
    simp only [List.append_nil, List.length_append] at hlen hlt
    omega
  | salt key' hr hb =>
    cases hr
    obtain ⟨hbuf, hrest⟩ := List.append_inj h (hb.trans hsalt.symm)
    rw [hbuf]
    exact .readLength [] chunks [] (some salt) rfl hrest
  | finished hr | length _ _ hr | badLength _ hr | tooLarge _ _ hr | data _ _ _ hr | badData _ _ hr
  | buffered _ hr | drained _ hr => cases hr

/-- A whole sealed length stands in front of the chunks that are left. -/
theorem split_length (hK : K.Lawful) {post : List Bytes} {c : Cipher} {b : Bytes}
    (h : b ++ future = sealChunks K c post) (hb : b.length = 2 + K.tagLen) :
    ∃ x xs, post = x :: xs ∧ b = c.encryptPacket K (bigEndian 2 x.length) ∧
      future = c.next.encryptPacket K x ++ sealChunks K c.next.next xs := by
  cases post with
  | nil =>
    have hlen := congrArg List.length h
    simp only [sealChunks, List.length_append, List.length_nil] at hlen
    omega
  | cons x xs =>
    rw [sealChunks, sealChunk, List.append_assoc] at h
    have hx : b.length = (c.encryptPacket K (bigEndian 2 x.length)).length := by
      rw [hb, length_encrypt hK, length_bigEndian]
    obtain ⟨h1, h2⟩ := List.append_inj h hx
    exact ⟨x, xs, rfl, h1, h2⟩

/-- The ciphertext of a chunk is not shorter than its sealed length. -/
theorem length_le_sealChunks (hK : K.Lawful) {c : Cipher} {post : List Bytes} (h : post ≠ []) :
    2 + K.tagLen ≤ (sealChunks K c post).length := by
  cases post with
  | nil => exact absurd rfl h
  | cons x xs =>
    simp only [sealChunks, sealChunk, List.length_append, length_encrypt hK, length_bigEndian]
    omega

theorem turn_readLength (hK : K.Lawful) (hmax : ∀ x ∈ chunks, x.length ≤ MAX_PACKET_SIZE) {buffer : Bytes}
    {pre post : List Bytes} {s : Option Bytes} (hc : chunks = pre ++ post)
    (h : buffer ++ got ++ future = sealChunks K (cipherAt key salt pre.length) post)
    (ht : Turned K ⟨.readLength, some (cipherAt key salt pre.length), buffer, s⟩ remaining (buffer ++ got) stream t r'
      nonce) : FollowsTurn K key salt chunks future pre.flatten remaining stream r' t := by
  cases ht with
  | waits => exact .readLength pre post _ s hc h
  | failed => exact ⟨Or.inl rfl, .readLength pre post _ s hc h⟩
  | cut hr hlt hb hs he =>
    refine ⟨Or.inr ⟨rfl, hs, he, ?_⟩, .readLength pre post _ s hc h⟩
    rintro rfl
    have hne : buffer ++ got ≠ [] := hb rfl
    have hlt : (buffer ++ got).length < 2 + K.tagLen := hlt
    rw [List.append_nil] at h
    rw [h] at hlt hne
    have hpost : post ≠ [] := by
      rintro rfl
      exact hne rfl
    have hle := length_le_sealChunks hK (c := cipherAt key salt pre.length) hpost
    omega
  | finished hr hb hs he =>
    have hb : buffer ++ got = [] := hb
    rw [hb, List.nil_append] at h
    refine ⟨?_, fun _ _ => ⟨hs, he, ?_⟩⟩
    · rw [List.append_nil, hb]
      exact .readLength pre post [] s hc h
    · rintro rfl
      have hpost : post = [] := by
        by_contra hne
        have hle := length_le_sealChunks hK (c := cipherAt key salt pre.length) hne
        rw [← h, List.length_nil] at hle
        omega
      rw [hc, hpost, List.append_nil]
  | length c m hr hcipher hb hm hle =>
    obtain ⟨x, xs, rfl, hbuf, hfut⟩ := split_length hK h hb
    cases hcipher
    rw [hbuf, decrypt_encrypt hK] at hm
    cases hm
    rw [ofBigEndian_length (hmax x (by simp [hc]))]
    exact .readData pre x xs [] s hc hfut
  | badLength c hr hcipher hb hm =>
    obtain ⟨x, xs, rfl, hbuf, hfut⟩ := split_length hK h hb
    cases hcipher
    rw [hbuf, decrypt_encrypt hK] at hm
    cases hm
  | tooLarge c m hr hcipher hb hm hgt =>
    obtain ⟨x, xs, rfl, hbuf, hfut⟩ := split_length hK h hb
    cases hcipher
    rw [hbuf, decrypt_encrypt hK] at hm
    cases hm
    have hx := hmax x (by simp [hc])
    rw [ofBigEndian_length hx] at hgt
    omega
  | salt _ hr | data _ _ _ hr | badData _ _ hr | buffered _ hr | drained _ hr => cases hr

theorem turn_readData (hK : K.Lawful) {buffer : Bytes} {pre post : List Bytes} {x : Bytes} {s : Option Bytes}
    (hc : chunks = pre ++ x :: post)
    (h : buffer ++ got ++ future = (cipherAt key salt pre.length).next.encryptPacket K x ++
      sealChunks K (cipherAt key salt (pre.length + 1)) post)
    (ht : Turned K ⟨.readData x.length, some (cipherAt key salt pre.length).next, buffer, s⟩ remaining (buffer ++ got)
      stream t r' nonce) : FollowsTurn K key salt chunks future pre.flatten remaining stream r' t := by
  have hfull (hb : (buffer ++ got).length = x.length + K.tagLen) :=
    List.append_inj h (hb.trans (length_encrypt hK _ x).symm)
  cases ht with
  | waits => exact .readData pre x post _ s hc h
  | failed => exact ⟨Or.inl rfl, .readData pre x post _ s hc h⟩
  | cut hr hlt hb hs he =>
    refine ⟨Or.inr ⟨rfl, hs, he, ?_⟩, .readData pre x post _ s hc h⟩
    rintro rfl
    have hlt : (buffer ++ got).length < x.length + K.tagLen := hlt
    rw [List.append_nil] at h
    rw [h, List.length_append, length_encrypt hK] at hlt
    omega
  | data size c m hr hcipher hb hm =>
    cases hr
    cases hcipher
    obtain ⟨hbuf, hfut⟩ := hfull hb
    rw [hbuf, decrypt_encrypt hK] at hm
    cases hm
    have hstep : Follows K key salt chunks future ⟨.bufferedData 0, some (cipherAt key salt (pre.length + 1)), x, none⟩
        (pre.flatten ++ x.take 0) := .bufferedData pre x post 0 none hc (Nat.zero_le _) hfut
    rw [List.take_zero, List.append_nil] at hstep
    rw [List.take_length]
    exact hstep
  | badData size c hr hcipher hb hm =>
    cases hr
    cases hcipher
    rw [(hfull hb).1, decrypt_encrypt hK] at hm
    cases hm
  | salt _ hr | finished hr | length _ _ hr | badLength _ hr | tooLarge _ _ hr | buffered _ hr | drained _ hr =>
    cases hr

theorem turn_bufferedData {pre post : List Bytes} {x : Bytes} {pos : ℕ} {s : Option Bytes}
    (hc : chunks = pre ++ x :: post) (h : future = sealChunks K (cipherAt key salt (pre.length + 1)) post)
    (ht : Turned K ⟨.bufferedData pos, some (cipherAt key salt (pre.length + 1)), x, s⟩ remaining x stream t r' nonce) :
    FollowsTurn K key salt chunks future (pre.flatten ++ x.take pos) remaining stream r' t := by
  cases ht with
  | waits hr => exact absurd rfl (hr pos)
  | failed hr => exact absurd rfl (hr pos)
  | cut hr => exact absurd rfl (hr pos)
  | buffered pos' hr hb hlt =>
    cases hr
    obtain ⟨k, hk⟩ : ∃ k, k = min (x.drop pos).length remaining := ⟨_, rfl⟩
    have hle : k ≤ x.length - pos := by
      rw [hk, List.length_drop]
      omega
    refine ⟨?_, ?_⟩
    · rw [← hk, List.append_assoc, ← List.take_add]
      exact .bufferedData pre x post (pos + k) s hc (by omega) h
    · intro hrem hnil
      have hlen := congrArg List.length hnil
      rw [List.length_take, List.length_drop, List.length_nil] at hlen
      omega
  | drained pos' hr hb hle =>
    cases hr
    have hall : x.take pos = x := List.take_of_length_le hle
    have hflat : pre.flatten ++ x = (pre ++ [x]).flatten := by simp
    have hlen : pre.length + 1 = (pre ++ [x]).length := by simp
    rw [hall, hflat]
    rw [hlen] at h ⊢
    exact .readLength (pre ++ [x]) post [] s (by rw [hc, List.append_assoc]; rfl) h
  | salt _ hr | finished hr | length _ _ hr | badLength _ hr | tooLarge _ _ hr | data _ _ _ hr | badData _ _ hr =>
    cases hr

/-- **A turn keeps the reader where it stands**, and never fails over the ciphertext. -/
theorem Follows.turn (hK : K.Lawful) (hsalt : salt.length = K.saltLen)
    (hmax : ∀ x ∈ chunks, x.length ≤ MAX_PACKET_SIZE) (h : Follows K key salt chunks (got ++ future) r received)
    (hlen : (r.buffer ++ got).length ≤ r.need K)
    (ht : Turned K r remaining (r.buffer ++ got) stream t r' nonce) :
    FollowsTurn K key salt chunks future received remaining stream r' t := by
  cases h with
  | waitSalt buffer h => exact turn_waitSalt hsalt (by rw [List.append_assoc]; exact h) ht
  | readLength pre post buffer s hc h => exact turn_readLength hK hmax hc (by rw [List.append_assoc]; exact h) ht
  | readData pre x post buffer s hc h => exact turn_readData hK hc (by rw [List.append_assoc]; exact h) ht
  | bufferedData pre x post pos s hc hpos h =>
    -- nothing is read in this state
    have hgot : got = [] := by
      have hle : (x ++ got).length ≤ x.length := hlen
      rw [List.length_append] at hle
      exact List.eq_nil_of_length_eq_zero (by omega)
    subst hgot
    rw [List.append_nil] at ht
    exact turn_bufferedData hc h ht

end Turn

/-! ## The two ends together -/

/-- A connection in one direction: the writer, what is on its way, the reader. -/
structure Channel where
  writer : EncryptedWriter
  wire : Inbound
  reader : DecryptedReader
  deriving DecidableEq

namespace Channel

variable (K) in
/-- A new connection, with the salt that the writer has drawn. -/
def new (key salt : Bytes) : Channel := ⟨.new key salt, ⟨[], false⟩, .new K key⟩

variable (K) in
/-- A call of `poll_write_encrypted`. -/
def pollWrite (c : Channel) (buf : Bytes) (polls : List Ready) : Poll IoError ℕ × Channel :=
  let (p, writer, sent) := c.writer.pollWriteEncrypted K buf polls
  (p, { c with writer, wire := { c.wire with bytes := c.wire.bytes ++ sent } })

/-- `poll_shutdown`: the other end sees the end of the stream after what is on its way. -/
def shutdown (c : Channel) : Channel := { c with wire := { c.wire with eof := true } }

variable (K) in
/-- A turn of `poll_read_decrypted`. -/
def pollRead (c : Channel) (remaining : ℕ) (polls : List Ready) : DecryptedReader.Turn × Channel :=
  let (t, reader, wire, _) := c.reader.turn K remaining c.wire polls
  (t, { c with reader, wire })

/-- The connection breaks: of what is on its way, `n` bytes still arrive. -/
def cut (c : Channel) (n : ℕ) : Channel := { c with wire := ⟨c.wire.bytes.take n, true⟩ }

/-- What the reader has not got yet, with what it will never get. -/
def coming (c : Channel) (lost : Bytes) : Bytes := c.wire.bytes ++ lost ++ c.writer.unsent

/-- The connection has taken `chunks` and given out `received`; `lost` is the ciphertext that fell out of it when
it broke. -/
structure Carries (K : CipherKind) (key salt : Bytes) (c : Channel) (lost : Bytes) (chunks : List Bytes)
    (received : Bytes) : Prop where
  le : ∀ x ∈ chunks, x.length ≤ MAX_PACKET_SIZE
  writer : c.writer.WellFormed
  cipher : c.writer.cipher = cipherAt key salt chunks.length
  -- between two calls only the salt may be unsent
  idle : c.writer.state = .assemblePacket → chunks ≠ [] → c.writer.buffer = []
  reader : c.reader.WellFormed K
  follows : Follows K key salt chunks (c.coming lost) c.reader received

theorem carries_new (hsalt : salt.length = K.saltLen) : Carries K key salt (new K key salt) [] [] [] where
  le := by simp
  writer := nofun
  cipher := rfl
  idle _ h := absurd rfl h
  reader := wellFormed_new key
  follows := follows_new hsalt

/-- The chunks after a call with `buf`. -/
def chunksAfter (c : Channel) (chunks : List Bytes) (buf : Bytes) : List Bytes :=
  match c.writer.state with
  | .assemblePacket => chunks ++ [buf.take MAX_PACKET_SIZE]
  | .writing _ => chunks

/-- **A call of the writer**: a new chunk is taken, unless the call goes on with one. -/
theorem Carries.pollWrite {c c' : Channel} {buf : Bytes} {polls : List Ready} {p : Poll IoError ℕ}
    (h : Carries K key salt c [] chunks received) (hp : c.pollWrite K buf polls = (p, c')) :
    Carries K key salt c' [] (chunksAfter c chunks buf) received ∧ c'.wire.eof = c.wire.eof ∧
      ((∃ pos, c'.writer.state = .writing pos ∧ ∀ n, p ≠ .ok n) ∨
        (c'.writer.state = .assemblePacket ∧ c'.writer.buffer = [] ∧ p = .ok (buf.take MAX_PACKET_SIZE).length)) := by
  obtain ⟨q, w', sent, hq⟩ : ∃ q w' sent, c.writer.pollWriteEncrypted K buf polls = (q, w', sent) := ⟨_, _, _, rfl⟩
  unfold Channel.pollWrite at hp
  rw [hq] at hp
  cases hp
  obtain ⟨hunsent, hwrote⟩ := EncryptedWriter.pollWriteEncrypted_spec h.writer hq
  -- the writer and what it owes, when the call comes to its loop
  have hbegun : (c.writer.begun K buf).cipher = cipherAt key salt (chunksAfter c chunks buf).length ∧
      Follows K key salt (chunksAfter c chunks buf) (c.wire.bytes ++ [] ++ (c.writer.begun K buf).unsent) c.reader
        received ∧
      ∀ x ∈ chunksAfter c chunks buf, x.length ≤ MAX_PACKET_SIZE := by
    unfold EncryptedWriter.begun chunksAfter
    cases hs : c.writer.state with
    | writing pos => exact ⟨h.cipher, h.follows, h.le⟩
    | assemblePacket =>
      refine ⟨?_, ?_, ?_⟩
      · rw [List.length_append]
        show c.writer.cipher.next.next = _
        rw [h.cipher, cipherAt_next_next]
        rfl
      · have hext := h.follows.extend (buf.take MAX_PACKET_SIZE)
        have hun : c.writer.unsent = c.writer.buffer := by
          unfold EncryptedWriter.unsent
          rw [hs]
        have hnew : (c.writer.assemble K (buf.take MAX_PACKET_SIZE)).unsent =
            c.writer.buffer ++ sealChunk K (cipherAt key salt chunks.length) (buf.take MAX_PACKET_SIZE) := by
          rw [← h.cipher, sealChunk, ← List.append_assoc]
          rfl
        rw [coming, hun, List.append_assoc] at hext
        rw [hnew]
        exact hext
      · intro x hx
        rw [List.mem_append, List.mem_singleton] at hx
        rcases hx with hx | rfl
        · exact h.le x hx
        · rw [List.length_take]
          exact Nat.min_le_left _ _
  obtain ⟨hcipher, hfollows, hle⟩ := hbegun
  have hfuture : c.wire.bytes ++ [] ++ (c.writer.begun K buf).unsent = c.wire.bytes ++ sent ++ [] ++ w'.unsent := by
    rw [hunsent, List.append_nil, List.append_nil, List.append_assoc]
  rw [hfuture] at hfollows
  have hwf := hwrote.wellFormed
  cases hwrote with
  | pending pos hpos =>
    refine ⟨⟨hle, hwf, hcipher, nofun, h.reader, hfollows⟩, rfl, Or.inl ⟨pos, rfl, nofun⟩⟩
  | failed pos e hpos =>
    refine ⟨⟨hle, hwf, hcipher, nofun, h.reader, hfollows⟩, rfl, Or.inl ⟨pos, rfl, nofun⟩⟩
  | ok =>
    exact ⟨⟨hle, nofun, hcipher, fun _ _ => rfl, h.reader, hfollows⟩, rfl, Or.inr ⟨rfl, rfl, rfl⟩⟩

variable {lost : Bytes}

theorem Carries.shutdown {c : Channel} (h : Carries K key salt c lost chunks received) :
    Carries K key salt c.shutdown lost chunks received :=
  ⟨h.le, h.writer, h.cipher, h.idle, h.reader, h.follows⟩

theorem Carries.cut {c : Channel} (h : Carries K key salt c lost chunks received) (n : ℕ) :
    Carries K key salt (c.cut n) (c.wire.bytes.drop n ++ lost) chunks received := by
  refine ⟨h.le, h.writer, h.cipher, h.idle, h.reader, ?_⟩
  have hcoming : (c.cut n).coming (c.wire.bytes.drop n ++ lost) = c.coming lost := by
    unfold coming
    rw [← List.append_assoc]
    show c.wire.bytes.take n ++ c.wire.bytes.drop n ++ lost ++ c.writer.unsent = _
    rw [List.take_append_drop]
  rw [hcoming]
  exact h.follows

/-- What can come of a turn of the reader. -/
inductive Read (K : CipherKind) (key salt lost : Bytes) (chunks : List Bytes) (received : Bytes) (remaining : ℕ)
    (c' : Channel) : DecryptedReader.Turn → Prop
  | again (h : Carries K key salt c' lost chunks received) : Read K key salt lost chunks received remaining c' .again
  | pending (h : Carries K key salt c' lost chunks received) : Read K key salt lost chunks received remaining c' .pending
  | ok (filled : Bytes) (h : Carries K key salt c' lost chunks (received ++ filled)) (hle : filled.length ≤ remaining)
      (hend : 0 < remaining → filled = [] →
        c'.wire.bytes = [] ∧ c'.wire.eof = true ∧ (c'.coming lost = [] → received = chunks.flatten)) :
      Read K key salt lost chunks received remaining c' (.ok filled)
  | failed (h : Carries K key salt c' lost chunks received) :
      Read K key salt lost chunks received remaining c' (.error (.io .other))
  | cut (h : Carries K key salt c' lost chunks received) (hs : c'.wire.bytes = []) (he : c'.wire.eof = true)
      (hf : c'.coming lost ≠ []) :
      Read K key salt lost chunks received remaining c' (.error (.io .unexpectedEof))

/-- A turn gives out what there is room for. -/
theorem length_filled {b filled : Bytes} {stream : Inbound} {remaining : ℕ} {nonce : Option Bytes}
    (h : Turned K r remaining b stream (.ok filled) r' nonce) : filled.length ≤ remaining := by
  cases h with
  | finished => exact Nat.zero_le _
  | buffered pos =>
    rw [List.length_take]
    omega

/-- **A turn of the reader** gives out the next bytes that were taken. -/
theorem Carries.pollRead (hK : K.Lawful) (hsalt : salt.length = K.saltLen) {c c' : Channel} {remaining : ℕ}
    {polls : List Ready} {t : DecryptedReader.Turn} (h : Carries K key salt c lost chunks received)
    (hp : c.pollRead K remaining polls = (t, c')) :
    Read K key salt lost chunks received remaining c' t ∧ c'.writer = c.writer ∧ c'.wire.eof = c.wire.eof := by
  obtain ⟨u, reader, wire, nonce, hu⟩ : ∃ u reader wire nonce,
      c.reader.turn K remaining c.wire polls = (u, reader, wire, nonce) := ⟨_, _, _, _, rfl⟩
  unfold Channel.pollRead at hp
  rw [hu] at hp
  cases hp
  obtain ⟨got, hbytes, heof, hlen, hturned⟩ := turn_spec hK.tag_pos h.reader hu
  have hfollows := h.follows
  have hsplit : c.coming lost = got ++ (wire.bytes ++ lost ++ c.writer.unsent) := by
    rw [coming, hbytes]
    simp only [List.append_assoc]
  rw [hsplit] at hfollows
  have hturn := hfollows.turn hK hsalt h.le hlen hturned
  have hwf := hturned.wellFormed h.reader hlen
  refine ⟨?_, rfl, heof⟩
  cases t with
  | again => exact .again ⟨h.le, h.writer, h.cipher, h.idle, hwf nofun, hturn⟩
  | pending => exact .pending ⟨h.le, h.writer, h.cipher, h.idle, hwf nofun, hturn⟩
  | ok filled =>
    exact .ok filled ⟨h.le, h.writer, h.cipher, h.idle, hwf nofun, hturn.1⟩ (length_filled hturned) hturn.2
  | error e =>
    obtain ⟨rfl | ⟨rfl, hs, he, hne⟩, hfol⟩ := hturn
    · exact .failed ⟨h.le, h.writer, h.cipher, h.idle, hwf fun _ he => by cases he; exact ⟨_, rfl⟩, hfol⟩
    · exact .cut ⟨h.le, h.writer, h.cipher, h.idle, hwf fun _ he => by cases he; exact ⟨_, rfl⟩, hfol⟩ hs he hne

end Channel

/-! ## The stream machine -/

/-- A connection with its two users. The one who writes repeats a call that is pending with the same buffer
(`held`), as `AsyncWrite` asks. -/
structure Session where
  channel : Channel
  held : Option Bytes
  -- what the finished calls of the writer have taken, and what the reader has given out
  taken : Bytes
  received : Bytes
  -- the connection was lost, or was dropped without a shutdown
  broken : Bool
  ended : Bool
  failed : Option DecryptError
  deriving DecidableEq

namespace Session

variable (K) in
def new (key salt : Bytes) : Session := ⟨.new K key salt, none, [], [], false, false, none⟩

variable (K) in
/-- A call of the writer. -/
def write (s : Session) (buf : Bytes) (polls : List Ready) : Poll IoError ℕ × Session :=
  match s.channel.pollWrite K buf polls with
  | (.ok n, channel) => (.ok n, { s with channel, held := none, taken := s.taken ++ buf.take n })
  | (p, channel) => (p, { s with channel, held := some buf })

/-- The writer shuts the connection down. -/
def shutdown (s : Session) : Session := { s with channel := s.channel.shutdown }

/-- The connection breaks. -/
def cut (s : Session) (n : ℕ) : Session := { s with channel := s.channel.cut n, broken := true }

variable (K) in
/-- A turn of the reader. -/
def read (s : Session) (remaining : ℕ) (polls : List Ready) : DecryptedReader.Turn × Session :=
  match s.channel.pollRead K remaining polls with
  | (.ok [], channel) => (.ok [], { s with channel, ended := true })
  | (.ok filled, channel) => (.ok filled, { s with channel, received := s.received ++ filled })
  | (.error e, channel) => (.error e, { s with channel, failed := some e })
  | (t, channel) => (t, { s with channel })

inductive Event
  | write (buf : Bytes) (polls : List Ready)
  | shutdown
  | cut (n : ℕ)
  | read (remaining : ℕ) (polls : List Ready)

variable (K) in
def step (s : Session) : Event → Option Session
  | .write buf polls =>
    if s.channel.wire.eof = false ∧ (s.held = none ∨ s.held = some buf) then some (s.write K buf polls).2 else none
  | .shutdown => if s.held = none then some s.shutdown else none
  | .cut n => some (s.cut n)
  | .read remaining polls =>
    if 0 < remaining ∧ s.ended = false ∧ s.failed = none then some (s.read K remaining polls).2 else none

variable (K) in
def machine (key salt : Bytes) : Machine Session Event where
  init := new K key salt
  step := step K

/-- The bytes of a call that has not finished, as far as they are in its chunk. -/
def underway (s : Session) : Bytes := (s.held.map (·.take MAX_PACKET_SIZE)).getD []

/-- The stream that the two users see. -/
def fifo (s : Session) : Fifo UInt8 := ⟨s.taken ++ s.underway, s.received, s.channel.wire.eof, s.broken, s.ended⟩

/-- What every step keeps. -/
structure Inv (K : CipherKind) (key salt : Bytes) (s : Session) (lost : Bytes) (chunks : List Bytes) : Prop where
  carries : s.channel.Carries K key salt lost chunks s.received
  flatten : chunks.flatten = s.taken ++ s.underway
  held : s.held = none ↔ s.channel.writer.state = .assemblePacket
  closed : s.channel.wire.eof = true → s.broken = false → s.held = none
  lost : s.broken = false → lost = []
  broken : s.broken = true → s.channel.wire.eof = true
  ended : s.ended = true → s.channel.wire.eof = true ∧ (s.broken = false → s.received = s.taken)
  -- only the system fails, or the connection has ended too early
  failed : ∀ e, s.failed = some e → e = .io .other ∨
    (e = .io .unexpectedEof ∧ s.channel.wire.eof = true ∧ (s.broken = false → chunks = []))

theorem inv_new (hsalt : salt.length = K.saltLen) : Inv K key salt (new K key salt) [] [] where
  carries := Channel.carries_new hsalt
  flatten := rfl
  held := ⟨fun _ => rfl, fun _ => rfl⟩
  closed := nofun
  lost _ := rfl
  broken := nofun
  ended := nofun
  failed := nofun

variable {s s' : Session} {lost : Bytes}

/-- Between two calls nothing but the salt can be unsent. -/
theorem Inv.coming_nil (h : Inv K key salt s lost chunks) (hs : s.channel.wire.bytes = []) (hnone : s.held = none)
    (hb : s.broken = false) (hc : chunks ≠ []) : s.channel.coming lost = [] := by
  have hstate := h.held.1 hnone
  unfold Channel.coming EncryptedWriter.unsent
  rw [hs, hstate, h.lost hb, List.nil_append, List.nil_append]
  exact h.carries.idle hstate hc

/-- How a call of the writer ends: only the writer's side has changed. -/
structure Written (s : Session) (buf : Bytes) (p : Poll IoError ℕ) (s' : Session) : Prop where
  eof : s'.channel.wire.eof = s.channel.wire.eof
  received : s'.received = s.received
  broken : s'.broken = s.broken
  ended : s'.ended = s.ended
  failed : s'.failed = s.failed
  answer : (s'.held = some buf ∧ s'.taken = s.taken ∧ ∀ n, p ≠ .ok n) ∨
    (s'.held = none ∧ s'.taken = s.taken ++ buf.take MAX_PACKET_SIZE ∧ p = .ok (buf.take MAX_PACKET_SIZE).length)

/-- **A call of the writer** puts its chunk into the stream when it begins. -/
theorem Inv.write (h : Inv K key salt s lost chunks) {buf : Bytes} {polls : List Ready} {p : Poll IoError ℕ}
    (hopen : s.channel.wire.eof = false) (hheld : s.held = none ∨ s.held = some buf)
    (hp : s.write K buf polls = (p, s')) :
    (∃ chunks', Inv K key salt s' [] chunks') ∧ Written s buf p s' ∧
      ∃ ds, (Fifo.machine UInt8).run s.fifo ds = some s'.fifo := by
  obtain ⟨q, c', hq⟩ : ∃ q c', s.channel.pollWrite K buf polls = (q, c') := ⟨_, _, rfl⟩
  have hbroken : s.broken = false := by
    by_contra hne
    rw [h.broken (by simpa using hne)] at hopen
    cases hopen
  have hended : s.ended = false := by
    by_contra hne
    rw [(h.ended (by simpa using hne)).1] at hopen
    cases hopen
  have hcarries := h.carries
  rw [h.lost hbroken] at hcarries
  obtain ⟨hcarries, heof, hend⟩ := hcarries.pollWrite hq
  have hclosed : c'.wire.eof = false := heof.trans hopen
  have hflat : (Channel.chunksAfter s.channel chunks buf).flatten = s.taken ++ buf.take MAX_PACKET_SIZE ∧
      ∃ ds, (Fifo.machine UInt8).run s.fifo ds =
        some ⟨s.taken ++ buf.take MAX_PACKET_SIZE, s.received, false, false, false⟩ := by
    have hfifo : s.fifo = ⟨s.taken ++ s.underway, s.received, false, false, false⟩ := by
      unfold fifo
      rw [hopen, hbroken, hended]
    unfold Channel.chunksAfter
    rcases hheld with hnone | hsome
    · have hunder : s.underway = [] := by
        unfold underway
        rw [hnone]
        rfl
      rw [h.held.1 hnone]
      refine ⟨?_, [.send (buf.take MAX_PACKET_SIZE)], ?_⟩
      · simp only [List.flatten_append, h.flatten, hunder, List.append_nil, List.flatten_cons, List.flatten_nil]
      · rw [hfifo, hunder, List.append_nil]
        rfl
    · have hunder : s.underway = buf.take MAX_PACKET_SIZE := by
        unfold underway
        rw [hsome]
        rfl
      have hstate : ∃ pos, s.channel.writer.state = .writing pos := by
        cases hs : s.channel.writer.state with
        | assemblePacket =>
          rw [h.held.2 hs] at hsome
          cases hsome
        | writing pos => exact ⟨pos, rfl⟩
      obtain ⟨pos, hpos⟩ := hstate
      rw [hpos]
      refine ⟨by rw [h.flatten, hunder], [], ?_⟩
      rw [hfifo, hunder]
      rfl
  have hfail : ∀ e, s.failed = some e → e = .io .other ∨ (e = .io .unexpectedEof ∧ c'.wire.eof = true ∧
      (s.broken = false → Channel.chunksAfter s.channel chunks buf = [])) := by
    intro e he
    rcases h.failed e he with rfl | ⟨rfl, hwas, -⟩
    · exact Or.inl rfl
    · rw [hwas] at hopen
      cases hopen
  unfold Session.write at hp
  rw [hq] at hp
  obtain ⟨hflat, ds, hds⟩ := hflat
  rcases hend with ⟨pos, hpos, hno⟩ | ⟨hstate, hbuf, rfl⟩
  · -- the call goes on
    have hs' : p = q ∧ s' = { s with channel := c', held := some buf } := by
      cases q with
      | ok n => exact absurd rfl (hno n)
      | pending => cases hp; exact ⟨rfl, rfl⟩
      | error e => cases hp; exact ⟨rfl, rfl⟩
    obtain ⟨rfl, rfl⟩ := hs'
    refine ⟨⟨_, ⟨hcarries, hflat, ?_, ?_, fun _ => rfl, ?_, ?_, hfail⟩⟩, ⟨heof, rfl, rfl, rfl, rfl, Or.inl ⟨rfl, rfl, hno⟩⟩,
      ds, ?_⟩
    · simp [hpos]
    · intro he
      rw [hclosed] at he
      cases he
    · intro hb
      rw [hbroken] at hb
      cases hb
    · intro he
      rw [hended] at he
      cases he
    · rw [hds]
      unfold fifo
      rw [hclosed, hbroken, hended]
      rfl
  · cases hp
    have htake : buf.take (buf.take MAX_PACKET_SIZE).length = buf.take MAX_PACKET_SIZE := by
      rw [List.length_take, List.take_eq_take_iff]
      omega
    refine ⟨⟨_, ⟨hcarries, ?_, ?_, ?_, fun _ => rfl, ?_, ?_, hfail⟩⟩,
      ⟨heof, rfl, rfl, rfl, rfl, Or.inr ⟨rfl, by rw [htake], rfl⟩⟩, ds, ?_⟩
    · simp only [underway, Option.map_none, Option.getD_none, List.append_nil, htake, hflat]
    · simp [hstate]
    · intro _ _
      rfl
    · intro hb
      rw [hbroken] at hb
      cases hb
    · intro he
      rw [hended] at he
      cases he
    · rw [hds]
      unfold fifo underway
      rw [hclosed, hbroken, hended, htake]
      simp

theorem Inv.shutdown (h : Inv K key salt s lost chunks) (hnone : s.held = none) :
    Inv K key salt s.shutdown lost chunks ∧ (Fifo.machine UInt8).run s.fifo [.close] = some s.shutdown.fifo := by
  refine ⟨⟨h.carries.shutdown, h.flatten, h.held, fun _ _ => hnone, h.lost, fun _ => rfl,
    fun he => ⟨rfl, (h.ended he).2⟩, ?_⟩, rfl⟩
  intro e he
  rcases h.failed e he with rfl | ⟨rfl, -, hc⟩
  · exact Or.inl rfl
  · exact Or.inr ⟨rfl, rfl, hc⟩

theorem Inv.cut (h : Inv K key salt s lost chunks) (n : ℕ) :
    Inv K key salt (s.cut n) (s.channel.wire.bytes.drop n ++ lost) chunks ∧
      (Fifo.machine UInt8).run s.fifo [.cut, .close] = some (s.cut n).fifo := by
  refine ⟨⟨h.carries.cut n, h.flatten, h.held, fun _ => nofun, nofun, fun _ => rfl, fun he => ⟨rfl, nofun⟩, ?_⟩, rfl⟩
  intro e he
  rcases h.failed e he with rfl | ⟨rfl, -, -⟩
  · exact Or.inl rfl
  · exact Or.inr ⟨rfl, rfl, nofun⟩

/-- How a turn of the reader ends: only the reader's side has changed. -/
structure Took (s : Session) (remaining : ℕ) (t : DecryptedReader.Turn) (s' : Session) : Prop where
  eof : s'.channel.wire.eof = s.channel.wire.eof
  held : s'.held = s.held
  taken : s'.taken = s.taken
  broken : s'.broken = s.broken
  le : ∀ filled, t = .ok filled → filled.length ≤ remaining
  answer : (∃ b bs, t = .ok (b :: bs) ∧ s'.received = s.received ++ b :: bs ∧ s'.ended = false ∧ s'.failed = none) ∨
    (t = .ok [] ∧ s'.received = s.received ∧ s'.ended = true ∧ s'.failed = none) ∨
    (∃ e, t = .error e ∧ s'.received = s.received ∧ s'.ended = false ∧ s'.failed = some e) ∨
    ((t = .again ∨ t = .pending) ∧ s'.received = s.received ∧ s'.ended = false ∧ s'.failed = none)

/-- **A turn of the reader** takes the next bytes out of the stream, or sees its end. -/
theorem Inv.read (hK : K.Lawful) (hsalt : salt.length = K.saltLen) (h : Inv K key salt s lost chunks) {remaining : ℕ}
    {polls : List Ready} {t : DecryptedReader.Turn} (hrem : 0 < remaining) (hended : s.ended = false)
    (hfailed : s.failed = none) (hp : s.read K remaining polls = (t, s')) :
    Inv K key salt s' lost chunks ∧ Took s remaining t s' ∧
      ∃ ds, (Fifo.machine UInt8).run s.fifo ds = some s'.fifo := by
  obtain ⟨u, c', hu⟩ : ∃ u c', s.channel.pollRead K remaining polls = (u, c') := ⟨_, _, rfl⟩
  obtain ⟨hread, hwriter, heof⟩ := h.carries.pollRead hK hsalt hu
  unfold Session.read at hp
  rw [hu] at hp
  have hheld : s.held = none ↔ c'.writer.state = .assemblePacket := by rw [hwriter]; exact h.held
  have hclosed : c'.wire.eof = true → s.broken = false → s.held = none := by rw [heof]; exact h.closed
  have hbroken : s.broken = true → c'.wire.eof = true := by rw [heof]; exact h.broken
  -- a turn that gives nothing out does not show
  have hquiet (hc : c'.Carries K key salt lost chunks s.received) :
      Inv K key salt { s with channel := c' } lost chunks ∧
        ∃ ds, (Fifo.machine UInt8).run s.fifo ds = some (fifo { s with channel := c' }) := by
    refine ⟨⟨hc, h.flatten, hheld, hclosed, h.lost, hbroken, ?_, ?_⟩, [], ?_⟩
    · intro he
      rw [hended] at he
      cases he
    · intro e he
      rw [hfailed] at he
      cases he
    · unfold fifo
      simp only [heof]
      rfl
  have hfail (hc : c'.Carries K key salt lost chunks s.received) {e : DecryptError}
      (he : e = .io .other ∨ (e = .io .unexpectedEof ∧ c'.wire.eof = true ∧ (s.broken = false → chunks = []))) :
      Inv K key salt { s with channel := c', failed := some e } lost chunks ∧
        ∃ ds, (Fifo.machine UInt8).run s.fifo ds = some (fifo { s with channel := c', failed := some e }) := by
    obtain ⟨hinv, ds, hds⟩ := hquiet hc
    refine ⟨⟨hinv.carries, hinv.flatten, hinv.held, hinv.closed, hinv.lost, hinv.broken, hinv.ended, ?_⟩, ds, hds⟩
    intro e' he'
    cases he'
    exact he
  cases hread with
  | again hc =>
    cases hp
    obtain ⟨hinv, hds⟩ := hquiet hc
    exact ⟨hinv, ⟨heof, rfl, rfl, rfl, nofun, Or.inr (Or.inr (Or.inr ⟨Or.inl rfl, rfl, hended, hfailed⟩))⟩, hds⟩
  | pending hc =>
    cases hp
    obtain ⟨hinv, hds⟩ := hquiet hc
    exact ⟨hinv, ⟨heof, rfl, rfl, rfl, nofun, Or.inr (Or.inr (Or.inr ⟨Or.inr rfl, rfl, hended, hfailed⟩))⟩, hds⟩
  | failed hc =>
    cases hp
    obtain ⟨hinv, hds⟩ := hfail hc (Or.inl rfl)
    exact ⟨hinv, ⟨heof, rfl, rfl, rfl, nofun, Or.inr (Or.inr (Or.inl ⟨_, rfl, rfl, hended, rfl⟩))⟩, hds⟩
  | cut hc hs he hf =>
    cases hp
    have hnone : s.broken = false → chunks = [] := by
      intro hb
      by_contra hne
      exact hf ((hquiet hc).1.coming_nil hs (hclosed he hb) hb hne)
    obtain ⟨hinv, hds⟩ := hfail hc (Or.inr ⟨rfl, he, hnone⟩)
    exact ⟨hinv, ⟨heof, rfl, rfl, rfl, nofun, Or.inr (Or.inr (Or.inl ⟨_, rfl, rfl, hended, rfl⟩))⟩, hds⟩
  | ok filled hc hle hlast =>
    cases filled with
    | nil =>
      cases hp
      obtain ⟨hs, he, hall⟩ := hlast hrem rfl
      rw [List.append_nil] at hc
      have hreceived : s.broken = false → s.received = s.taken := by
        intro hb
        have hunder : s.underway = [] := by
          unfold underway
          rw [hclosed he hb]
          rfl
        have hflat : chunks.flatten = s.taken := by rw [h.flatten, hunder, List.append_nil]
        by_cases hne : chunks = []
        · have hpre := hc.follows.beginning
          rw [hne] at hpre hflat
          rw [← hflat]
          exact List.prefix_nil.1 hpre
        · rw [← hflat]
          exact hall ((hquiet hc).1.coming_nil hs (hclosed he hb) hb hne)
      refine ⟨⟨hc, h.flatten, hheld, hclosed, h.lost, hbroken, fun _ => ⟨he, hreceived⟩, ?_⟩,
        ⟨heof, rfl, rfl, rfl, fun _ he => by cases he; exact hle, Or.inr (Or.inl ⟨rfl, rfl, rfl, hfailed⟩)⟩, [.finish], ?_⟩
      · intro e hf
        rw [hfailed] at hf
        cases hf
      · have hfinish : s.fifo.broken = true ∨ (s.fifo.closed = true ∧ s.fifo.received = s.fifo.sent) := by
          rcases Bool.eq_false_or_eq_true s.broken with hb | hb
          · exact Or.inl hb
          · refine Or.inr ⟨heof.symm.trans he, ?_⟩
            show s.received = s.taken ++ s.underway
            have hunder : s.underway = [] := by
              unfold underway
              rw [hclosed he hb]
              rfl
            rw [hunder, List.append_nil]
            exact hreceived hb
        have hrun : (Fifo.machine UInt8).run s.fifo [.finish] = some { s.fifo with ended := true } :=
          (Machine.run_singleton _ _).trans (if_pos hfinish)
        rw [hrun]
        unfold fifo
        simp only [heof]
        rfl
    | cons b bs =>
      cases hp
      refine ⟨⟨hc, h.flatten, hheld, hclosed, h.lost, hbroken, ?_, ?_⟩,
        ⟨heof, rfl, rfl, rfl, fun _ he => by cases he; exact hle, Or.inl ⟨b, bs, rfl, rfl, hended, hfailed⟩⟩,
        [.receive (b :: bs)], ?_⟩
      · intro he
        rw [hended] at he
        cases he
      · intro e hf
        rw [hfailed] at hf
        cases hf
      · have hreceive : s.fifo.received ++ b :: bs <+: s.fifo.sent ∧ s.fifo.ended = false := by
          refine ⟨?_, hended⟩
          show s.received ++ b :: bs <+: s.taken ++ s.underway
          rw [← h.flatten]
          exact hc.follows.beginning
        have hrun : (Fifo.machine UInt8).run s.fifo [.receive (b :: bs)] =
            some { s.fifo with received := s.received ++ b :: bs } :=
          (Machine.run_singleton _ _).trans (if_pos hreceive)
        rw [hrun]
        unfold fifo
        simp only [heof]
        rfl

/-- **An encrypted connection refines a stream.** -/
theorem refines_fifo (hK : K.Lawful) (hsalt : salt.length = K.saltLen) :
    (machine K key salt).Refines (Fifo.machine UInt8) Machine.anyStep
      (fun s => ∃ lost chunks, Inv K key salt s lost chunks) fifo where
  init_inv := ⟨[], [], inv_new hsalt⟩
  init_eq := rfl
  step s e s' := by
    rintro ⟨lost, chunks, h⟩ - he
    cases e with
    | write buf polls =>
      obtain ⟨⟨hopen, hheld⟩, he⟩ := Option.ite_none_right_eq_some.1 he
      cases he
      obtain ⟨hinv, -, hds⟩ := h.write hopen hheld (Prod.eta _).symm
      exact ⟨⟨[], hinv⟩, hds⟩
    | shutdown =>
      obtain ⟨hnone, he⟩ := Option.ite_none_right_eq_some.1 he
      cases he
      obtain ⟨hinv, hds⟩ := h.shutdown hnone
      exact ⟨⟨lost, chunks, hinv⟩, _, hds⟩
    | cut n =>
      cases he
      obtain ⟨hinv, hds⟩ := h.cut n
      exact ⟨⟨_, chunks, hinv⟩, _, hds⟩
    | read remaining polls =>
      obtain ⟨⟨hrem, hended, hfailed⟩, he⟩ := Option.ite_none_right_eq_some.1 he
      cases he
      obtain ⟨hinv, -, hds⟩ := h.read hK hsalt hrem hended hfailed (Prod.eta _).symm
      exact ⟨⟨lost, chunks, hinv⟩, hds⟩

/-- **What is written is what is read**: however the calls, the polls and the pieces in which the bytes travel are
ordered, every run is a run of a stream; what was given out is the beginning of what was taken, and, unless the
connection broke, all of it when the end is seen; no packet is refused, and without a break an early end is seen only
if nothing was written before it. -/
theorem run_fifo (hK : K.Lawful) (hsalt : salt.length = K.saltLen) {es : List Event} {s : Session}
    (h : (machine K key salt).run (machine K key salt).init es = some s) :
    (∃ ds, (Fifo.machine UInt8).run (Fifo.machine UInt8).init ds = some s.fifo) ∧
      s.received <+: s.taken ++ s.underway ∧
      (s.ended = true → s.broken = false → s.channel.wire.eof = true ∧ s.received = s.taken) ∧
      ∀ e, s.failed = some e → e = .io .other ∨ (e = .io .unexpectedEof ∧ (s.broken = false → s.taken = [])) := by
  have href : (machine K key salt).Refines (Fifo.machine UInt8) Machine.anyStep
      (fun s => ∃ lost chunks, Inv K key salt s lost chunks) fifo := refines_fifo hK hsalt
  have hreach := Machine.Reach.run .init (Machine.meetsFrom_anyStep es _) h
  obtain ⟨⟨lost, chunks, hinv⟩, hds⟩ := href.run href.init_inv (Machine.meetsFrom_anyStep es _) h
  refine ⟨hds, (Fifo.received_prefix (href.reach hreach)).1,
    fun he hb => ⟨(hinv.ended he).1, (hinv.ended he).2 hb⟩, ?_⟩
  intro e he
  rcases hinv.failed e he with rfl | ⟨rfl, hclosed, hc⟩
  · exact Or.inl rfl
  · refine Or.inr ⟨rfl, fun hb => ?_⟩
    have hflat := hinv.flatten
    rw [hc hb] at hflat
    exact (List.append_eq_nil_iff.1 hflat.symm).1

/-- Three bytes in two calls, the second of them cut by the readiness of the connection. -/
def threeBytes : List Event :=
  [.write [1, 2] [.upTo 20], .read 9 [.upTo 1, .upTo 1], .write [3] [.upTo 2], .read 9 [.upTo 9],
    .write [3] [.upTo 9], .shutdown, .read 9 [.upTo 9], .read 9 [], .read 9 [], .read 9 [.upTo 9],
    .read 9 [.upTo 9], .read 9 [], .read 9 [], .read 9 [.upTo 1]]

theorem run_fifo_three_bytes :
    ∃ s, (machine .marking [] [7]).run (machine .marking [] [7]).init threeBytes = some s ∧
      s.ended = true ∧ s.received = [1, 2, 3] ∧
      ∃ ds, (Fifo.machine UInt8).run (Fifo.machine UInt8).init ds = some s.fifo := by
  obtain ⟨s, hrun, hended, hreceived⟩ : ∃ s,
      (machine .marking [] [7]).run (machine .marking [] [7]).init threeBytes = some s ∧ s.ended = true ∧
        s.received = [1, 2, 3] := ⟨_, rfl, rfl, rfl⟩
  exact ⟨s, hrun, hended, hreceived, (run_fifo CipherKind.marking_lawful rfl hrun).1⟩

end Session

end Relay

end BlackButton
