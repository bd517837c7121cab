import Mathlib.Algebra.GroupWithZero.Nat
import BlackButton.Lib.Async
import BlackButton.Lib.Encoding

/-!
# AEAD streams (`relay/tcprelay/aead.rs`)

`EncryptedWriter` cuts what it is given into chunks and sends, after the salt, the
sealed length and the sealed data of each; `DecryptedReader` opens them again. The
ciphers themselves are a parameter (`CipherKind`). A poll of the underlying stream finds
whatever happens to be ready (`Ready`), so every way in which the bytes can be cut is
one list of these.

* `pollReadExact_spec`, `writeLoop_spec`: what the two inner loops do with the stream.
* `turn_spec`: **everything one turn of the reader's loop can do** (`Turned`).
* `pollWriteEncrypted_spec`: the same for the writer.
-/

namespace BlackButton

namespace Relay

/-! ## Streams -/

/-- `task::Poll<io::Result<T>>`. -/
inductive Poll (ε α : Type) where
  | pending
  | ok (a : α)
  | error (e : ε)
  deriving DecidableEq

/-- What a poll of a stream finds: nothing is ready, there is room or data for `n` bytes, or the
system reports an error. -/
inductive Ready
  | pending
  | upTo (n : ℕ)
  | failed
  deriving DecidableEq

/-- The receiving end of a connection: what has arrived and is not read, and whether the end has. -/
structure Inbound where
  bytes : Bytes
  eof : Bool
  deriving DecidableEq

/-- `AsyncRead::poll_read` into a buffer of `remaining` bytes. -/
def Inbound.pollRead (s : Inbound) (remaining : ℕ) : Ready → Poll IoError Bytes × Inbound
  | .pending => (.pending, s)
  | .failed => (.error .other, s)
  | .upTo n =>
    if s.bytes = [] then (if s.eof then .ok [] else .pending, s)
    else
      let k := min (max 1 n) remaining
      (.ok (s.bytes.take k), { s with bytes := s.bytes.drop k })

/-! ## Ciphers -/

/-- `CipherKind` and `Cipher` of `shadowsocks_crypto::v1`: a cipher made from a key and a salt seals and
opens its `n`-th packet. -/
structure CipherKind where
  saltLen : ℕ
  tagLen : ℕ
  encryptPacket (key salt : Bytes) (n : ℕ) (plain : Bytes) : Bytes
  decryptPacket (key salt : Bytes) (n : ℕ) (sealed : Bytes) : Option Bytes

/-- What the code relies on: a tag is appended, and a sealed packet is opened. -/
structure CipherKind.Lawful (K : CipherKind) : Prop where
  tag_pos : 0 < K.tagLen
  length_encrypt : ∀ key salt n p, (K.encryptPacket key salt n p).length = p.length + K.tagLen
  decrypt_encrypt : ∀ key salt n p, K.decryptPacket key salt n (K.encryptPacket key salt n p) = some p

/-- The plainest cipher of all: a packet is marked with its number. -/
def CipherKind.marking : CipherKind where
  saltLen := 1
  tagLen := 1
  encryptPacket _ _ n p := p ++ [UInt8.ofNat n]
  decryptPacket _ _ n m := if m.getLast? = some (UInt8.ofNat n) then some m.dropLast else none

theorem CipherKind.marking_lawful : CipherKind.marking.Lawful where
  tag_pos := Nat.one_pos
  length_encrypt _ _ n p := List.length_append
  decrypt_encrypt _ _ n p := by simp [marking]

/-- `Cipher`: `n` packets have been handled. -/
structure Cipher where
  key : Bytes
  salt : Bytes
  n : ℕ
  deriving DecidableEq

/-- The cipher after one more packet. -/
def Cipher.next (c : Cipher) : Cipher := { c with n := c.n + 1 }

/-- `MAX_PACKET_SIZE`. -/
def MAX_PACKET_SIZE : ℕ := 0x3FFF

variable (K : CipherKind)

/-- `cipher.encrypt_packet`. -/
def Cipher.encryptPacket (c : Cipher) (m : Bytes) : Bytes := K.encryptPacket c.key c.salt c.n m

/-- `cipher.decrypt_packet`. -/
def Cipher.decryptPacket (c : Cipher) (m : Bytes) : Option Bytes := K.decryptPacket c.key c.salt c.n m

/-! ## The reader -/

/-- What `poll_read_decrypted` fails with. -/
inductive DecryptError
  | io (e : IoError)
  -- "invalid tag-in"
  | invalidTagIn
  -- "buffer size too large", with the size
  | bufferSizeTooLarge (plen : ℕ)
  -- `expect("cipher is None")`
  | cipherIsNone
  deriving DecidableEq

inductive DecryptReadState
  | waitSalt (key : Bytes)
  | readLength
  | readData (length : ℕ)
  | bufferedData (pos : ℕ)
  deriving DecidableEq

structure DecryptedReader where
  state : DecryptReadState
  cipher : Option Cipher
  buffer : Bytes
  salt : Option Bytes
  deriving DecidableEq

/-- `poll_read_exact`: the loop, with what is left of the polls. -/
def pollReadExact (size : ℕ) : Bytes → Inbound → List Ready → Poll IoError ℕ × Bytes × Inbound
  | buffer, stream, [] => (if size ≤ buffer.length then .ok size else .pending, buffer, stream)
  | buffer, stream, r :: rs =>
    if size ≤ buffer.length then (.ok size, buffer, stream)
    else
      match stream.pollRead (size - buffer.length) r with
      | (.pending, stream) => (.pending, buffer, stream)
      | (.error e, stream) => (.error e, buffer, stream)
      | (.ok [], stream) => (if buffer ≠ [] then .error .unexpectedEof else .ok 0, buffer, stream)
      | (.ok (b :: bs), stream) => pollReadExact size (buffer ++ b :: bs) stream rs

namespace DecryptedReader

/-- `DecryptedReader::new`. -/
def new (key : Bytes) : DecryptedReader :=
  if K.saltLen > 0 then ⟨.waitSalt key, none, [], none⟩ else ⟨.readLength, some ⟨key, [], 0⟩, [], none⟩

/-- What a poll leaves behind: its answer, the reader, the stream, and the salt that was handed to
`Context::check_nonce_and_set`. -/
structure Polled (α : Type) where
  answer : Poll DecryptError α
  reader : DecryptedReader
  stream : Inbound
  nonce : Option Bytes

/-- `poll_read_salt`. -/
def pollReadSalt (r : DecryptedReader) (stream : Inbound) (polls : List Ready) (key : Bytes) : Polled Unit :=
  match pollReadExact K.saltLen r.buffer stream polls with
  | (.pending, buffer, stream) => ⟨.pending, { r with buffer }, stream, none⟩
  | (.error e, buffer, stream) => ⟨.error (.io e), { r with buffer }, stream, none⟩
  | (.ok n, buffer, stream) =>
    if n < K.saltLen then ⟨.error (.io .unexpectedEof), { r with buffer }, stream, none⟩
    else
      let salt := buffer.take K.saltLen
      ⟨.ok (), { r with buffer, salt := some salt, cipher := some ⟨key, salt, 0⟩ }, stream, none⟩

/-- `decrypt_length`. -/
def decryptLength (cipher : Cipher) (m : Bytes) : Except DecryptError ℕ :=
  match cipher.decryptPacket K m with
  | none => .error .invalidTagIn
  | some m =>
    let plen := ofBigEndian (m.take 2)
    if plen > MAX_PACKET_SIZE then .error (.bufferSizeTooLarge plen) else .ok plen

/-- `poll_read_length`. -/
def pollReadLength (r : DecryptedReader) (stream : Inbound) (polls : List Ready) : Polled (Option ℕ) :=
  let lengthLen := 2 + K.tagLen
  match pollReadExact lengthLen r.buffer stream polls with
  | (.pending, buffer, stream) => ⟨.pending, { r with buffer }, stream, none⟩
  | (.error e, buffer, stream) => ⟨.error (.io e), { r with buffer }, stream, none⟩
  | (.ok n, buffer, stream) =>
    if n = 0 then ⟨.ok none, { r with buffer }, stream, none⟩
    else
      match r.cipher with
      | none => ⟨.error .cipherIsNone, { r with buffer }, stream, none⟩
      | some cipher =>
        let r := { r with buffer, cipher := some cipher.next }
        match decryptLength K cipher (buffer.take lengthLen) with
        | .error e => ⟨.error e, r, stream, none⟩
        | .ok length => ⟨.ok (some length), r, stream, none⟩

/-- `poll_read_data`. -/
def pollReadData (r : DecryptedReader) (stream : Inbound) (polls : List Ready) (size : ℕ) : Polled Unit :=
  let dataLen := size + K.tagLen
  match pollReadExact dataLen r.buffer stream polls with
  | (.pending, buffer, stream) => ⟨.pending, { r with buffer }, stream, none⟩
  | (.error e, buffer, stream) => ⟨.error (.io e), { r with buffer }, stream, none⟩
  | (.ok n, buffer, stream) =>
    if n = 0 then ⟨.error (.io .unexpectedEof), { r with buffer }, stream, none⟩
    else
      match r.cipher with
      | none => ⟨.error .cipherIsNone, { r with buffer }, stream, none⟩
      | some cipher =>
        let r := { r with buffer, cipher := some cipher.next }
        match cipher.decryptPacket K (buffer.take dataLen) with
        | none => ⟨.error .invalidTagIn, r, stream, none⟩
        | some m =>
          -- the salt is checked after the first successful decryption
          ⟨.ok (), { r with buffer := m.take size, salt := none }, stream, r.salt⟩

/-- One turn of the loop of `poll_read_decrypted`: it goes on, or it returns (what it puts into `buf`). -/
inductive Turn
  | again
  | pending
  | ok (filled : Bytes)
  | error (e : DecryptError)
  deriving DecidableEq

/-- The loop body of `poll_read_decrypted`, for a `buf` with `remaining` bytes. -/
def turn (r : DecryptedReader) (remaining : ℕ) (stream : Inbound) (polls : List Ready) :
    Turn × DecryptedReader × Inbound × Option Bytes :=
  match r.state with
  | .waitSalt key =>
    match pollReadSalt K r stream polls key with
    | ⟨.pending, r, stream, nonce⟩ => (.pending, r, stream, nonce)
    | ⟨.error e, r, stream, nonce⟩ => (.error e, r, stream, nonce)
    | ⟨.ok (), r, stream, nonce⟩ => (.again, { r with buffer := [], state := .readLength }, stream, nonce)
  | .readLength =>
    match pollReadLength K r stream polls with
    | ⟨.pending, r, stream, nonce⟩ => (.pending, r, stream, nonce)
    | ⟨.error e, r, stream, nonce⟩ => (.error e, r, stream, nonce)
    | ⟨.ok none, r, stream, nonce⟩ => (.ok [], r, stream, nonce)
    | ⟨.ok (some length), r, stream, nonce⟩ =>
      (.again, { r with buffer := [], state := .readData length }, stream, nonce)
  | .readData length =>
    match pollReadData K r stream polls length with
    | ⟨.pending, r, stream, nonce⟩ => (.pending, r, stream, nonce)
    | ⟨.error e, r, stream, nonce⟩ => (.error e, r, stream, nonce)
    | ⟨.ok (), r, stream, nonce⟩ => (.again, { r with state := .bufferedData 0 }, stream, nonce)
  | .bufferedData pos =>
    if pos < r.buffer.length then
      let buffered := r.buffer.drop pos
      let consumed := min buffered.length remaining
      (.ok (buffered.take consumed), { r with state := .bufferedData (pos + consumed) }, stream, none)
    else (.again, { r with buffer := [], state := .readLength }, stream, none)

end DecryptedReader

/-! ## The writer -/

inductive EncryptWriteState
  | assemblePacket
  | writing (pos : ℕ)
  deriving DecidableEq

structure EncryptedWriter where
  cipher : Cipher
  buffer : Bytes
  state : EncryptWriteState
  deriving DecidableEq

/-- The loop of the state `Writing`: `poll_write` of what is left, until all is written. -/
def writeLoop (buffer : Bytes) : ℕ → List Ready → Poll IoError Unit × ℕ
  | pos, [] => (if pos < buffer.length then .pending else .ok (), pos)
  | pos, r :: rs =>
    if pos < buffer.length then
      match r with
      | .pending => (.pending, pos)
      | .failed => (.error .other, pos)
      | .upTo n =>
        let n := min n (buffer.length - pos)
        if n = 0 then (.error .unexpectedEof, pos) else writeLoop buffer (pos + n) rs
    else (.ok (), pos)

namespace EncryptedWriter

/-- `EncryptedWriter::new`: the nonce is sent with the first packet. -/
def new (key nonce : Bytes) : EncryptedWriter := ⟨⟨key, nonce, 0⟩, nonce, .assemblePacket⟩

/-- The state `AssemblePacket`: the sealed length and the sealed data are appended. -/
def assemble (w : EncryptedWriter) (buf : Bytes) : EncryptedWriter :=
  let length := w.cipher.encryptPacket K (bigEndian 2 buf.length)
  let data := w.cipher.next.encryptPacket K buf
  ⟨w.cipher.next.next, w.buffer ++ length ++ data, .writing 0⟩

/-- `poll_write_encrypted`, with what it puts on the stream. -/
def pollWriteEncrypted (w : EncryptedWriter) (buf : Bytes) (polls : List Ready) :
    Poll IoError ℕ × EncryptedWriter × Bytes :=
  let buf := buf.take MAX_PACKET_SIZE
  let (w, pos) :=
    match w.state with
    | .assemblePacket => (w.assemble K buf, 0)
    | .writing pos => (w, pos)
  match writeLoop w.buffer pos polls with
  | (.pending, pos') => (.pending, { w with state := .writing pos' }, (w.buffer.take pos').drop pos)
  | (.error e, pos') => (.error e, { w with state := .writing pos' }, (w.buffer.take pos').drop pos)
  | (.ok (), pos') =>
    (.ok buf.length, { w with buffer := [], state := .assemblePacket }, (w.buffer.take pos').drop pos)

end EncryptedWriter

/-! ## What the loops do -/

/-- How `poll_read_exact` ends, by the buffer and the stream that it leaves. -/
inductive ReadExact (size : ℕ) (buffer : Bytes) (stream : Inbound) : Poll IoError ℕ → Prop
  | pending : ReadExact size buffer stream .pending
  | full (h : buffer.length = size) : ReadExact size buffer stream (.ok size)
  | eof (hb : buffer = []) (hs : stream.bytes = []) (he : stream.eof = true) : ReadExact size buffer stream (.ok 0)
  | cut (hb : buffer ≠ []) (hlt : buffer.length < size) (hs : stream.bytes = []) (he : stream.eof = true) :
      ReadExact size buffer stream (.error .unexpectedEof)
  | failed : ReadExact size buffer stream (.error .other)

/-- One poll: what it gives is the next of what has arrived. -/
theorem pollRead_spec {s s' : Inbound} {remaining : ℕ} {r : Ready} {p : Poll IoError Bytes} (hr : 0 < remaining)
    (h : s.pollRead remaining r = (p, s')) :
    (p = .pending ∧ s' = s) ∨ (p = .error .other ∧ s' = s) ∨ (p = .ok [] ∧ s' = s ∧ s.bytes = [] ∧ s.eof = true) ∨
      ∃ b bs, p = .ok (b :: bs) ∧ s.bytes = b :: bs ++ s'.bytes ∧ s'.eof = s.eof ∧ (b :: bs).length ≤ remaining := by
  cases r with
  | pending =>
    cases h
    exact Or.inl ⟨rfl, rfl⟩
  | failed =>
    cases h
    exact Or.inr (Or.inl ⟨rfl, rfl⟩)
  | upTo n =>
    unfold Inbound.pollRead at h
    by_cases hs : s.bytes = []
    · simp only [if_pos hs] at h
      cases he : s.eof with
      | true =>
        simp only [he, if_true] at h
        cases h
        exact Or.inr (Or.inr (Or.inl ⟨rfl, rfl, hs, rfl⟩))
      | false =>
        simp only [he, Bool.false_eq_true, if_false] at h
        cases h
        exact Or.inl ⟨rfl, rfl⟩
    · simp only [if_neg hs] at h
      cases h
      obtain ⟨k, hk⟩ : ∃ k, k = min (max 1 n) remaining := ⟨_, rfl⟩
      rw [← hk]
      have hpos : 0 < k := by omega
      have hle : k ≤ remaining := by omega
      obtain ⟨b, bs, hbs⟩ : ∃ b bs, s.bytes.take k = b :: bs := by
        cases hx : s.bytes with
        | nil => exact absurd hx hs
        | cons x xs =>
          obtain ⟨j, rfl⟩ : ∃ j, k = j + 1 := ⟨k - 1, by omega⟩
          exact ⟨x, xs.take j, rfl⟩
      refine Or.inr (Or.inr (Or.inr ⟨b, bs, by rw [hbs], ?_, rfl, ?_⟩))
      · rw [← hbs, List.take_append_drop]
      · rw [← hbs, List.length_take]
        omega

/-- **The loop of `poll_read_exact`** moves bytes from the stream to the buffer, never more than `size`. -/
theorem pollReadExact_spec {size : ℕ} {polls : List Ready} :
    ∀ {buffer buffer' : Bytes} {stream stream' : Inbound} {p : Poll IoError ℕ}, buffer.length ≤ size →
      pollReadExact size buffer stream polls = (p, buffer', stream') →
      ∃ got, buffer' = buffer ++ got ∧ stream.bytes = got ++ stream'.bytes ∧ stream'.eof = stream.eof ∧
        buffer'.length ≤ size ∧ ReadExact size buffer' stream' p := by
  induction polls with
  | nil =>
    intro buffer buffer' stream stream' p hb h
    simp only [pollReadExact] at h
    by_cases hfull : size ≤ buffer.length
    · rw [if_pos hfull] at h
      cases h
      exact ⟨[], by simp, by simp, rfl, hb, .full (by omega)⟩
    · rw [if_neg hfull] at h
      cases h
      exact ⟨[], by simp, by simp, rfl, hb, .pending⟩
  | cons r rs ih =>
    intro buffer buffer' stream stream' p hb h
    rw [pollReadExact] at h
    by_cases hfull : size ≤ buffer.length
    · rw [if_pos hfull] at h
      cases h
      exact ⟨[], by simp, by simp, rfl, hb, .full (by omega)⟩
    · rw [if_neg hfull] at h
      obtain ⟨q, s, hq⟩ : ∃ q s, stream.pollRead (size - buffer.length) r = (q, s) := ⟨_, _, rfl⟩
      rw [hq] at h
      have hroom : 0 < size - buffer.length := by omega
      rcases pollRead_spec hroom hq with ⟨rfl, rfl⟩ | ⟨rfl, rfl⟩ | ⟨rfl, rfl, hs, he⟩ | ⟨b, bs, rfl, hs, he, hle⟩
      · cases h
        exact ⟨[], by simp, by simp, rfl, hb, .pending⟩
      · cases h
        exact ⟨[], by simp, by simp, rfl, hb, .failed⟩
      · cases h
        refine ⟨[], by simp, by simp, rfl, hb, ?_⟩
        by_cases hnil : buffer = []
        · rw [if_neg (not_not.2 hnil)]
          exact .eof hnil hs he
        · rw [if_pos hnil]
          exact .cut hnil (by omega) hs he
      · have hlen : (buffer ++ b :: bs).length ≤ size := by
          rw [List.length_append]
          omega
        obtain ⟨got, rfl, hbytes, heof, hle', hend⟩ := ih hlen h
        refine ⟨b :: bs ++ got, by simp, ?_, heof.trans he, hle', hend⟩
        rw [hs, hbytes, List.append_assoc]

/-- How many bytes of ciphertext the reader collects in its state. -/
def DecryptedReader.need (r : DecryptedReader) : ℕ :=
  match r.state with
  | .waitSalt _ => K.saltLen
  | .readLength => 2 + K.tagLen
  | .readData length => length + K.tagLen
  | .bufferedData _ => r.buffer.length

/-- What the reader keeps: it never holds more than it needs, and has a cipher once it has the salt. -/
structure DecryptedReader.WellFormed (r : DecryptedReader) : Prop where
  le : r.buffer.length ≤ r.need K
  salt_pos : ∀ key, r.state = .waitSalt key → 0 < K.saltLen
  cipher : (∀ key, r.state ≠ .waitSalt key) → ∃ c, r.cipher = some c

/-- **What one turn of the reader's loop can do**: `b` is the buffer with what the turn has read,
`stream` what it leaves. -/
inductive Turned (r : DecryptedReader) (remaining : ℕ) (b : Bytes) (stream : Inbound) :
    DecryptedReader.Turn → DecryptedReader → Option Bytes → Prop
  | waits (hr : ∀ pos, r.state ≠ .bufferedData pos) : Turned r remaining b stream .pending { r with buffer := b } none
  | failed (hr : ∀ pos, r.state ≠ .bufferedData pos) :
      Turned r remaining b stream (.error (.io .other)) { r with buffer := b } none
  | cut (hr : ∀ pos, r.state ≠ .bufferedData pos) (hlt : b.length < r.need K) (hb : r.state = .readLength → b ≠ []) (hs : stream.bytes = [])
      (he : stream.eof = true) : Turned r remaining b stream (.error (.io .unexpectedEof)) { r with buffer := b } none
  | finished (hr : r.state = .readLength) (hb : b = []) (hs : stream.bytes = []) (he : stream.eof = true) :
      Turned r remaining b stream (.ok []) { r with buffer := b } none
  | salt (key : Bytes) (hr : r.state = .waitSalt key) (hb : b.length = K.saltLen) :
      Turned r remaining b stream .again ⟨.readLength, some ⟨key, b, 0⟩, [], some b⟩ none
  | length (c : Cipher) (m : Bytes) (hr : r.state = .readLength) (hc : r.cipher = some c)
      (hb : b.length = 2 + K.tagLen) (hm : c.decryptPacket K b = some m)
      (hle : ofBigEndian (m.take 2) ≤ MAX_PACKET_SIZE) :
      Turned r remaining b stream .again ⟨.readData (ofBigEndian (m.take 2)), some c.next, [], r.salt⟩ none
  | badLength (c : Cipher) (hr : r.state = .readLength) (hc : r.cipher = some c) (hb : b.length = 2 + K.tagLen)
      (hm : c.decryptPacket K b = none) :
      Turned r remaining b stream (.error .invalidTagIn) ⟨r.state, some c.next, b, r.salt⟩ none
  | tooLarge (c : Cipher) (m : Bytes) (hr : r.state = .readLength) (hc : r.cipher = some c)
      (hb : b.length = 2 + K.tagLen) (hm : c.decryptPacket K b = some m)
      (hgt : MAX_PACKET_SIZE < ofBigEndian (m.take 2)) :
      Turned r remaining b stream (.error (.bufferSizeTooLarge (ofBigEndian (m.take 2))))
        ⟨r.state, some c.next, b, r.salt⟩ none
  | data (size : ℕ) (c : Cipher) (m : Bytes) (hr : r.state = .readData size) (hc : r.cipher = some c)
      (hb : b.length = size + K.tagLen) (hm : c.decryptPacket K b = some m) :
      Turned r remaining b stream .again ⟨.bufferedData 0, some c.next, m.take size, none⟩ r.salt
  | badData (size : ℕ) (c : Cipher) (hr : r.state = .readData size) (hc : r.cipher = some c)
      (hb : b.length = size + K.tagLen) (hm : c.decryptPacket K b = none) :
      Turned r remaining b stream (.error .invalidTagIn) ⟨r.state, some c.next, b, r.salt⟩ none
  | buffered (pos : ℕ) (hr : r.state = .bufferedData pos) (hb : b = r.buffer) (hlt : pos < b.length) :
      Turned r remaining b stream (.ok ((b.drop pos).take (min (b.drop pos).length remaining)))
        { r with state := .bufferedData (pos + min (b.drop pos).length remaining) } none
  | drained (pos : ℕ) (hr : r.state = .bufferedData pos) (hb : b = r.buffer) (hle : b.length ≤ pos) :
      Turned r remaining b stream .again { r with buffer := [], state := .readLength } none

variable {K}

theorem take_of_eq_length {b : Bytes} {n : ℕ} (h : b.length = n) : b.take n = b := by
  rw [← h, List.take_length]

/-- **The turn**, by what it takes from the stream. -/
theorem turn_spec (htag : 0 < K.tagLen) {r r' : DecryptedReader} {remaining : ℕ} {stream stream' : Inbound}
    {polls : List Ready} {t : DecryptedReader.Turn} {nonce : Option Bytes} (hr : r.WellFormed K)
    (h : r.turn K remaining stream polls = (t, r', stream', nonce)) :
    ∃ got, stream.bytes = got ++ stream'.bytes ∧ stream'.eof = stream.eof ∧ (r.buffer ++ got).length ≤ r.need K ∧
      Turned K r remaining (r.buffer ++ got) stream' t r' nonce := by
  obtain ⟨hle, hsalt, hcipher⟩ := hr
  obtain ⟨state, cipher, buffer, salt⟩ := r
  unfold DecryptedReader.turn at h
  cases state with
  | waitSalt key =>
    have hroom : buffer.length ≤ K.saltLen := hle
    have hpos := hsalt key rfl
    simp only [DecryptedReader.pollReadSalt] at h
    obtain ⟨p, b, s, hp⟩ : ∃ p b s, pollReadExact K.saltLen buffer stream polls = (p, b, s) := ⟨_, _, _, rfl⟩
    obtain ⟨got, rfl, hbytes, heof, hlen, hend⟩ := pollReadExact_spec hroom hp
    rw [hp] at h
    cases hend with
    | pending =>
      cases h
      exact ⟨got, hbytes, heof, hlen, .waits nofun⟩
    | full hfull =>
      simp only [if_neg (Nat.lt_irrefl K.saltLen), take_of_eq_length hfull] at h
      cases h
      exact ⟨got, hbytes, heof, hlen, .salt key rfl hfull⟩
    | eof hb hs he =>
      simp only [if_pos hpos] at h
      cases h
      refine ⟨got, hbytes, heof, hlen, .cut nofun ?_ nofun hs he⟩
      rw [hb]
      exact hpos
    | cut hb hlt hs he =>
      cases h
      exact ⟨got, hbytes, heof, hlen, .cut nofun hlt nofun hs he⟩
    | failed =>
      cases h
      exact ⟨got, hbytes, heof, hlen, .failed nofun⟩
  | readLength =>
    have hroom : buffer.length ≤ 2 + K.tagLen := hle
    obtain ⟨c, rfl⟩ := hcipher (by simp)
    simp only [DecryptedReader.pollReadLength] at h
    obtain ⟨p, b, s, hp⟩ : ∃ p b s, pollReadExact (2 + K.tagLen) buffer stream polls = (p, b, s) := ⟨_, _, _, rfl⟩
    obtain ⟨got, rfl, hbytes, heof, hlen, hend⟩ := pollReadExact_spec hroom hp
    rw [hp] at h
    cases hend with
    | pending =>
      cases h
      exact ⟨got, hbytes, heof, hlen, .waits nofun⟩
    | full hfull =>
      simp only [if_neg (show ¬2 + K.tagLen = 0 by omega), take_of_eq_length hfull,
        DecryptedReader.decryptLength] at h
      cases hm : c.decryptPacket K (buffer ++ got) with
      | none =>
        simp only [hm] at h
        cases h
        exact ⟨got, hbytes, heof, hlen, .badLength c rfl rfl hfull hm⟩
      | some m =>
        simp only [hm] at h
        by_cases hgt : ofBigEndian (m.take 2) > MAX_PACKET_SIZE
        · simp only [if_pos hgt] at h
          cases h
          exact ⟨got, hbytes, heof, hlen, .tooLarge c m rfl rfl hfull hm hgt⟩
        · simp only [if_neg hgt] at h
          cases h
          exact ⟨got, hbytes, heof, hlen, .length c m rfl rfl hfull hm (by omega)⟩
    | eof hb hs he =>
      simp only [if_true] at h
      cases h
      exact ⟨got, hbytes, heof, hlen, .finished rfl hb hs he⟩
    | cut hb hlt hs he =>
      cases h
      exact ⟨got, hbytes, heof, hlen, .cut nofun hlt (fun _ => hb) hs he⟩
    | failed =>
      cases h
      exact ⟨got, hbytes, heof, hlen, .failed nofun⟩
  | readData size =>
    have hroom : buffer.length ≤ size + K.tagLen := hle
    obtain ⟨c, rfl⟩ := hcipher (by simp)
    simp only [DecryptedReader.pollReadData] at h
    obtain ⟨p, b, s, hp⟩ : ∃ p b s, pollReadExact (size + K.tagLen) buffer stream polls = (p, b, s) := ⟨_, _, _, rfl⟩
    obtain ⟨got, rfl, hbytes, heof, hlen, hend⟩ := pollReadExact_spec hroom hp
    rw [hp] at h
    cases hend with
    | pending =>
      cases h
      exact ⟨got, hbytes, heof, hlen, .waits nofun⟩
    | full hfull =>
      simp only [if_neg (show ¬size + K.tagLen = 0 by omega), take_of_eq_length hfull] at h
      cases hm : c.decryptPacket K (buffer ++ got) with
      | none =>
        simp only [hm] at h
        cases h
        exact ⟨got, hbytes, heof, hlen, .badData size c rfl rfl hfull hm⟩
      | some m =>
        simp only [hm] at h
        cases h
        exact ⟨got, hbytes, heof, hlen, .data size c m rfl rfl hfull hm⟩
    | eof hb hs he =>
      simp only [if_true] at h
      cases h
      refine ⟨got, hbytes, heof, hlen, .cut nofun ?_ nofun hs he⟩
      rw [hb]
      exact Nat.add_pos_right size htag
    | cut hb hlt hs he =>
      cases h
      exact ⟨got, hbytes, heof, hlen, .cut nofun hlt nofun hs he⟩
    | failed =>
      cases h
      exact ⟨got, hbytes, heof, hlen, .failed nofun⟩
  | bufferedData pos =>
    simp only at h
    have hnil : buffer ++ [] = buffer := List.append_nil buffer
    by_cases hlt : pos < buffer.length
    · rw [if_pos hlt] at h
      cases h
      refine ⟨[], rfl, rfl, Nat.le_of_eq (congrArg List.length hnil), ?_⟩
      rw [hnil]
      exact .buffered pos rfl rfl hlt
    · rw [if_neg hlt] at h
      cases h
      refine ⟨[], rfl, rfl, Nat.le_of_eq (congrArg List.length hnil), ?_⟩
      rw [hnil]
      exact .drained pos rfl rfl (by omega)

/-- A turn that does not refuse a packet leaves a well-formed reader. -/
theorem Turned.wellFormed {r r' : DecryptedReader} {remaining : ℕ} {b : Bytes} {stream : Inbound}
    {t : DecryptedReader.Turn} {nonce : Option Bytes} (h : Turned K r remaining b stream t r' nonce)
    (hr : r.WellFormed K) (hb : b.length ≤ r.need K) (ht : ∀ e, t = .error e → ∃ i, e = .io i) :
    r'.WellFormed K := by
  have hneed : b.length ≤ DecryptedReader.need K { r with buffer := b } := by
    obtain ⟨state, cipher, buffer, salt⟩ := r
    cases state with
    | bufferedData pos => exact Nat.le_refl _
    | waitSalt key => exact hb
    | readLength => exact hb
    | readData size => exact hb
  cases h with
  | waits => exact ⟨hneed, hr.salt_pos, hr.cipher⟩
  | failed => exact ⟨hneed, hr.salt_pos, hr.cipher⟩
  | cut => exact ⟨hneed, hr.salt_pos, hr.cipher⟩
  | finished => exact ⟨hneed, hr.salt_pos, hr.cipher⟩
  | salt key => exact ⟨Nat.zero_le _, by simp, fun _ => ⟨_, rfl⟩⟩
  | length c m => exact ⟨Nat.zero_le _, by simp, fun _ => ⟨_, rfl⟩⟩
  | badLength => cases (ht _ rfl).choose_spec
  | tooLarge => cases (ht _ rfl).choose_spec
  | data size c m => exact ⟨Nat.le_refl _, by simp, fun _ => ⟨_, rfl⟩⟩
  | badData => cases (ht _ rfl).choose_spec
  | buffered pos hr' =>
    exact ⟨Nat.le_refl _, by simp, fun _ => hr.cipher (by simp [hr'])⟩
  | drained pos hr' => exact ⟨Nat.zero_le _, by simp, fun _ => hr.cipher (by simp [hr'])⟩

theorem wellFormed_new (key : Bytes) : (DecryptedReader.new K key).WellFormed K := by
  unfold DecryptedReader.new
  split
  · rename_i hpos
    exact ⟨Nat.zero_le _, fun _ _ => hpos, fun h => absurd rfl (h key)⟩
  · exact ⟨Nat.zero_le _, by simp, fun _ => ⟨_, rfl⟩⟩

/-- **The loop of the state `Writing`** goes forward, and is done at the end of the buffer. -/
theorem writeLoop_spec {buffer : Bytes} {polls : List Ready} :
    ∀ {pos pos' : ℕ} {p : Poll IoError Unit}, pos ≤ buffer.length → writeLoop buffer pos polls = (p, pos') →
      pos ≤ pos' ∧ pos' ≤ buffer.length ∧ (p = .ok () → pos' = buffer.length) := by
  induction polls with
  | nil =>
    intro pos pos' p hpos h
    simp only [writeLoop] at h
    split at h
    · cases h
      exact ⟨Nat.le_refl _, hpos, by simp⟩
    · cases h
      exact ⟨Nat.le_refl _, hpos, fun _ => by omega⟩
  | cons r rs ih =>
    intro pos pos' p hpos h
    unfold writeLoop at h
    split at h
    · cases r with
      | pending =>
        cases h
        exact ⟨Nat.le_refl _, hpos, by simp⟩
      | failed =>
        cases h
        exact ⟨Nat.le_refl _, hpos, by simp⟩
      | upTo n =>
        simp only at h
        split at h
        · cases h
          exact ⟨Nat.le_refl _, hpos, by simp⟩
        · obtain ⟨h1, h2, h3⟩ := ih (by omega) h
          exact ⟨by omega, h2, h3⟩
    · cases h
      exact ⟨Nat.le_refl _, hpos, fun _ => by omega⟩

namespace EncryptedWriter

/-- What is assembled and not on the stream yet. -/
def unsent (w : EncryptedWriter) : Bytes :=
  match w.state with
  | .assemblePacket => w.buffer
  | .writing pos => w.buffer.drop pos

/-- The writer when a call with `buf` comes to its loop `Writing`. -/
def begun (K : CipherKind) (w : EncryptedWriter) (buf : Bytes) : EncryptedWriter :=
  match w.state with
  | .assemblePacket => w.assemble K (buf.take MAX_PACKET_SIZE)
  | .writing _ => w

/-- The position of the state `Writing` is within the buffer. -/
def WellFormed (w : EncryptedWriter) : Prop := ∀ pos, w.state = .writing pos → pos ≤ w.buffer.length

theorem take_drop_append {b : Bytes} {pos pos' : ℕ} (h : pos ≤ pos') (hle : pos' ≤ b.length) :
    (b.take pos').drop pos ++ b.drop pos' = b.drop pos := by
  have hpos : pos ≤ (b.take pos').length := by
    rw [List.length_take]
    omega
  rw [← List.drop_append_of_le_length hpos, List.take_append_drop]

/-- How a call of `poll_write_encrypted` leaves the writer: `ok` says that all is on the stream. -/
inductive Wrote (buf : Bytes) (w : EncryptedWriter) : Poll IoError ℕ → EncryptedWriter → Prop
  | pending (pos : ℕ) (h : pos ≤ w.buffer.length) : Wrote buf w .pending { w with state := .writing pos }
  | failed (pos : ℕ) (e : IoError) (h : pos ≤ w.buffer.length) : Wrote buf w (.error e) { w with state := .writing pos }
  | ok : Wrote buf w (.ok (buf.take MAX_PACKET_SIZE).length) { w with buffer := [], state := .assemblePacket }

/-- **The call**: what was not on the stream is what it puts there and what is left. -/
theorem pollWriteEncrypted_spec {w w' : EncryptedWriter} {buf sent : Bytes} {polls : List Ready} {p : Poll IoError ℕ}
    (hw : w.WellFormed) (h : w.pollWriteEncrypted K buf polls = (p, w', sent)) :
    (w.begun K buf).unsent = sent ++ w'.unsent ∧ Wrote buf (w.begun K buf) p w' := by
  have hloop : ∀ (w₁ : EncryptedWriter) (pos : ℕ), w₁.state = .writing pos → pos ≤ w₁.buffer.length →
      (match writeLoop w₁.buffer pos polls with
        | (.pending, pos') => (.pending, { w₁ with state := .writing pos' }, (w₁.buffer.take pos').drop pos)
        | (.error e, pos') => (.error e, { w₁ with state := .writing pos' }, (w₁.buffer.take pos').drop pos)
        | (.ok (), pos') =>
          (.ok (buf.take MAX_PACKET_SIZE).length, { w₁ with buffer := [], state := .assemblePacket },
            (w₁.buffer.take pos').drop pos)) = (p, w', sent) →
      w₁.unsent = sent ++ w'.unsent ∧ Wrote buf w₁ p w' := by
    intro w₁ pos hstate hpos h
    have hunsent : w₁.unsent = w₁.buffer.drop pos := by
      unfold unsent
      rw [hstate]
    obtain ⟨q, pos', hq⟩ : ∃ q pos', writeLoop w₁.buffer pos polls = (q, pos') := ⟨_, _, rfl⟩
    obtain ⟨hle, hle', hdone⟩ := writeLoop_spec hpos hq
    rw [hq] at h
    cases q with
    | pending =>
      cases h
      exact ⟨hunsent.trans (take_drop_append hle hle').symm, .pending pos' hle'⟩
    | error e =>
      cases h
      exact ⟨hunsent.trans (take_drop_append hle hle').symm, .failed pos' e hle'⟩
    | ok u =>
      cases h
      refine ⟨?_, .ok⟩
      rw [hunsent, hdone rfl, List.take_length]
      exact (List.append_nil _).symm
  unfold pollWriteEncrypted at h
  unfold begun
  cases hs : w.state with
  | assemblePacket =>
    simp only [hs] at h
    exact hloop _ 0 rfl (Nat.zero_le _) h
  | writing pos =>
    simp only [hs] at h
    exact hloop w pos hs (hw pos hs) h

theorem Wrote.wellFormed {buf : Bytes} {w w' : EncryptedWriter} {p : Poll IoError ℕ} (h : Wrote buf w p w') :
    w'.WellFormed := by
  intro pos hpos
  cases h with
  | pending pos' hle =>
    cases hpos
    exact hle
  | failed pos' e hle =>
    cases hpos
    exact hle
  | ok => cases hpos

end EncryptedWriter

end Relay

end BlackButton
