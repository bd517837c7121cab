import BlackButton.Relay.Aead

/-!
# Moving bytes from one stream to another (`relay/tcprelay/utils.rs`)

`CopyBuffer` reads into its buffer, writes the buffer out and, after the end of the
reader, flushes; `transfer_one_direction` then shuts the writer down. `Pump` puts the
first packet in front of that, as `establish_tcp_tunnel` does and, with TCP fast open,
the server. Each of them is what it polls next (`ask`) and what it makes of the answer
(`turn`); while a poll is pending nothing changes.

* `Pump.turn_read`, `Pump.turn_wrote`, `Pump.turn_done`: **nothing is lost between the
  two streams**: what was read and is not written is `holding`.
* `Pump.ask_shutdown`: the writer is shut down only after the end of the reader, with
  nothing left to write.
-/

namespace BlackButton

namespace Relay

/-- What a future polls next. -/
inductive Ask
  | read (size : ℕ)
  | write (buf : Bytes)
  | flush
  | shutdown
  | nothing
  deriving DecidableEq

/-- What a poll answers that is not pending. -/
inductive Answer
  | read (filled : Bytes)
  | wrote (n : ℕ)
  | done
  | failed (e : IoError)
  deriving DecidableEq

/-- `CopyBuffer`; `buf` is the part of the buffer up to `cap`, and `size` the length of the whole. -/
structure CopyBuffer where
  readDone : Bool
  pos : ℕ
  amt : ℕ
  buf : Bytes
  size : ℕ
  deriving DecidableEq

namespace CopyBuffer

/-- `CopyBuffer::new`. -/
def new (bufferSize : ℕ) : CopyBuffer := ⟨false, 0, 0, [], bufferSize⟩

/-- What the loop of `poll_copy` comes to. -/
def ask (b : CopyBuffer) : Ask :=
  if b.pos = b.buf.length ∧ b.readDone = false then .read b.size
  else if b.pos < b.buf.length then .write (b.buf.drop b.pos)
  else .flush

/-- How the loop goes on: with the buffer, or it returns `amt`. -/
def turn (b : CopyBuffer) : Answer → Except IoError (CopyBuffer ⊕ ℕ)
  | .read [] => .ok (.inl { b with readDone := true })
  | .read buf => .ok (.inl { b with pos := 0, buf })
  -- "write zero byte into writer"
  | .wrote 0 => .error .writeZero
  | .wrote i => .ok (.inl { b with pos := b.pos + i, amt := b.amt + i })
  | .done => .ok (.inr b.amt)
  | .failed e => .error e

end CopyBuffer

/-- `TransferState`. -/
inductive TransferState
  | running (buf : CopyBuffer)
  | shuttingDown (count : ℕ)
  | done (count : ℕ)
  deriving DecidableEq

namespace TransferState

def ask : TransferState → Ask
  | running buf => buf.ask
  | shuttingDown _ => .shutdown
  | done _ => .nothing

/-- `transfer_one_direction`. -/
def turn : TransferState → Answer → Except IoError TransferState
  | running buf, a =>
    match buf.turn a with
    | .ok (.inl buf) => .ok (running buf)
    | .ok (.inr count) => .ok (shuttingDown count)
    | .error e => .error e
  | shuttingDown _, .failed e => .error e
  | shuttingDown count, _ => .ok (done count)
  | done count, _ => .ok (done count)

end TransferState

/-- `plain_read_buffer_size`, for an AEAD cipher. -/
def plainReadBufferSize (_ : CipherKind) : ℕ := MAX_PACKET_SIZE

/-- `encrypted_read_buffer_size`, for an AEAD cipher. -/
def encryptedReadBufferSize (K : CipherKind) : ℕ := MAX_PACKET_SIZE + K.tagLen

/-- One direction of a relayed connection. -/
inductive Pump
  -- `time::timeout(500 ms, read(&mut buffer))`
  | first
  -- `write_all(&buffer[..n])`
  | sending (rest : Bytes)
  -- `write(&[])`, after the timeout
  | handshake
  | transfer (t : TransferState)
  | returned (r : Except IoError Unit)

namespace Pump

/-- Before the first packet the buffer has 8192 bytes. -/
def ask : Pump → Ask
  | first => .read 8192
  | sending rest => .write rest
  | handshake => .write []
  | transfer t => t.ask
  | returned _ => .nothing

/-- `size` is that of the buffer for the rest of the connection. -/
def turn (size : ℕ) : Pump → Answer → Pump
  -- "EOF. Just terminate right here."
  | first, .read [] => returned (.ok ())
  | first, .read buffer => sending buffer
  | first, .failed e => returned (.error e)
  | sending rest, .wrote n =>
    if n = 0 then returned (.error .writeZero)
    else if rest.drop n = [] then transfer (.running (.new size))
    else sending (rest.drop n)
  | sending _, .failed e => returned (.error e)
  | handshake, .failed e => returned (.error e)
  | handshake, _ => transfer (.running (.new size))
  | transfer t, a =>
    match t.turn a with
    | .ok t => transfer t
    -- "closed with error", which is only logged
    | .error _ => returned (.ok ())
  | p, _ => p

/-- What has been read and not been written. -/
def holding : Pump → Bytes
  | sending rest => rest
  | transfer (.running b) => b.buf.drop b.pos
  | _ => []

/-- The end of the reader has been seen. -/
def sawEnd : Pump → Bool
  | transfer (.running b) => b.readDone
  | transfer _ => true
  | _ => false

/-- It is still polled, or may be. -/
def isLive : Pump → Bool
  | returned _ => false
  | _ => true

structure WellFormed (p : Pump) : Prop where
  sending : ∀ rest, p = .sending rest → rest ≠ []
  running : ∀ b, p = .transfer (.running b) → b.pos ≤ b.buf.length ∧ 0 < b.size ∧ (b.readDone = true → b.pos = b.buf.length)

theorem wellFormed_first : first.WellFormed := ⟨nofun, nofun⟩

theorem wellFormed_handshake : handshake.WellFormed := ⟨nofun, nofun⟩

theorem wellFormed_transfer {size : ℕ} (h : 0 < size) : (transfer (.running (.new size))).WellFormed where
  sending := nofun
  running b hb := by
    cases hb
    exact ⟨Nat.le_refl 0, h, nofun⟩

variable {p : Pump} {size : ℕ}

/-- **What is polled next** is right for what it holds. -/
theorem ask_spec (hp : p.WellFormed) :
    match p.ask with
    | .read n => 0 < n ∧ p.holding = [] ∧ p.sawEnd = false ∧ p.isLive = true
    | .write x => p.holding = x ∧ p.sawEnd = false ∧ p.isLive = true
    | .flush | .shutdown => p.holding = [] ∧ p.sawEnd = true ∧ p.isLive = true
    | .nothing => p.holding = [] ∧ (p.isLive = true → p.sawEnd = true) := by
  cases p with
  | first => exact ⟨by decide, rfl, rfl, rfl⟩
  | sending rest => exact ⟨rfl, rfl, rfl⟩
  | handshake => exact ⟨rfl, rfl, rfl⟩
  | returned r => exact ⟨rfl, nofun⟩
  | transfer t =>
    cases t with
    | shuttingDown count => exact ⟨rfl, rfl, rfl⟩
    | done count => exact ⟨rfl, fun _ => rfl⟩
    | running b =>
      obtain ⟨hle, hsize, hend⟩ := hp.running b rfl
      show match b.ask with
        | .read n => 0 < n ∧ b.buf.drop b.pos = [] ∧ b.readDone = false ∧ true = true
        | .write x => b.buf.drop b.pos = x ∧ b.readDone = false ∧ true = true
        | .flush | .shutdown => b.buf.drop b.pos = [] ∧ b.readDone = true ∧ true = true
        | .nothing => b.buf.drop b.pos = [] ∧ (true = true → b.readDone = true)
      unfold CopyBuffer.ask
      by_cases hread : b.pos = b.buf.length ∧ b.readDone = false
      · rw [if_pos hread]
        refine ⟨hsize, ?_, hread.2, rfl⟩
        apply List.drop_eq_nil_of_le
        omega
      · rw [if_neg hread]
        by_cases hlt : b.pos < b.buf.length
        · rw [if_pos hlt]
          refine ⟨rfl, ?_, rfl⟩
          by_contra hne
          have hpos := hend (by simpa using hne)
          omega
        · rw [if_neg hlt]
          have hpos : b.pos = b.buf.length := by omega
          refine ⟨?_, ?_, rfl⟩
          · apply List.drop_eq_nil_of_le
            omega
          · by_contra hne
            exact hread ⟨hpos, by simpa using hne⟩

/-- **A read**: what it gives is held. -/
theorem turn_read (size : ℕ) (hp : p.WellFormed) {n : ℕ} (hask : p.ask = .read n) (bs : Bytes) :
    (p.turn size (.read bs)).WellFormed ∧ (p.turn size (.read bs)).holding = bs ∧
      (bs ≠ [] → (p.turn size (.read bs)).isLive = true ∧ (p.turn size (.read bs)).sawEnd = false) ∧
      (bs = [] → (p.turn size (.read bs)).isLive = true → (p.turn size (.read bs)).sawEnd = true) := by
  have hspec := ask_spec hp
  rw [hask] at hspec
  obtain ⟨-, hnil, hend, -⟩ := hspec
  cases p with
  | sending rest => cases hask
  | handshake => cases hask
  | returned r => cases hask
  | first =>
    cases bs with
    | nil => exact ⟨⟨nofun, nofun⟩, rfl, nofun, fun _ => nofun⟩
    | cons b bs => exact ⟨⟨fun rest h => by cases h; simp, nofun⟩, rfl, fun _ => ⟨rfl, rfl⟩, nofun⟩
  | transfer t =>
    cases t with
    | shuttingDown count => cases hask
    | done count => cases hask
    | running b =>
      obtain ⟨hle, hpos, -⟩ := hp.running b rfl
      have hcap : b.buf.length ≤ b.pos := List.drop_eq_nil_iff.1 hnil
      cases bs with
      | nil =>
        refine ⟨⟨nofun, ?_⟩, hnil, nofun, fun _ _ => rfl⟩
        intro b' hb
        cases hb
        exact ⟨hle, hpos, fun _ => by show b.pos = b.buf.length; omega⟩
      | cons x xs =>
        refine ⟨⟨nofun, ?_⟩, rfl, fun _ => ⟨rfl, hend⟩, nofun⟩
        intro b' hb
        cases hb
        refine ⟨Nat.zero_le _, hpos, fun h => ?_⟩
        exact absurd (hend.symm.trans h) (by decide)

/-- **A write**: what it takes is no longer held. -/
theorem turn_wrote (hp : p.WellFormed) (hsize : 0 < size) {x : Bytes} (hask : p.ask = .write x) {n : ℕ}
    (hn : n ≤ x.length) :
    (p.turn size (.wrote n)).WellFormed ∧
      ((p.turn size (.wrote n)).isLive = true →
        (p.turn size (.wrote n)).holding = x.drop n ∧ (p.turn size (.wrote n)).sawEnd = false) := by
  have hspec := ask_spec hp
  rw [hask] at hspec
  obtain ⟨hholding, hend, -⟩ := hspec
  cases p with
  | first => cases hask
  | returned r => cases hask
  | handshake =>
    cases hask
    exact ⟨wellFormed_transfer hsize, fun _ => ⟨List.drop_nil.symm, rfl⟩⟩
  | sending rest =>
    cases hask
    have hturn : (sending x).turn size (.wrote n) = if n = 0 then returned (.error .writeZero)
        else if x.drop n = [] then transfer (.running (.new size)) else sending (x.drop n) := rfl
    rw [hturn]
    by_cases hzero : n = 0
    · rw [if_pos hzero]
      exact ⟨⟨nofun, nofun⟩, nofun⟩
    · rw [if_neg hzero]
      by_cases hall : x.drop n = []
      · rw [if_pos hall]
        exact ⟨wellFormed_transfer hsize, fun _ => ⟨hall.symm, rfl⟩⟩
      · rw [if_neg hall]
        exact ⟨⟨fun rest h => by cases h; exact hall, nofun⟩, fun _ => ⟨rfl, rfl⟩⟩
  | transfer t =>
    cases t with
    | shuttingDown count => cases hask
    | done count => cases hask
    | running b =>
      obtain ⟨hle, hpos, -⟩ := hp.running b rfl
      have hx : b.buf.drop b.pos = x := hholding
      cases n with
      | zero => exact ⟨⟨nofun, nofun⟩, nofun⟩
      | succ n =>
        have hlen := congrArg List.length hx
        rw [List.length_drop] at hlen
        refine ⟨⟨nofun, ?_⟩, fun _ => ⟨?_, hend⟩⟩
        · intro b' hb
          cases hb
          refine ⟨?_, hpos, fun h => absurd (hend.symm.trans h) (by decide)⟩
          show b.pos + (n + 1) ≤ b.buf.length
          omega
        · show b.buf.drop (b.pos + (n + 1)) = x.drop (n + 1)
          rw [← hx, List.drop_drop]

/-- **The flush and the shutdown** come after everything. -/
theorem turn_done (size : ℕ) (hp : p.WellFormed) (hask : p.ask = .flush ∨ p.ask = .shutdown) :
    (p.turn size .done).WellFormed ∧ (p.turn size .done).holding = [] ∧ (p.turn size .done).sawEnd = true := by
  cases p with
  | first => simp [ask] at hask
  | sending rest => simp [ask] at hask
  | handshake => simp [ask] at hask
  | returned r => simp [ask] at hask
  | transfer t =>
    cases t with
    | running b => exact ⟨⟨nofun, nofun⟩, rfl, rfl⟩
    | shuttingDown count => exact ⟨⟨nofun, nofun⟩, rfl, rfl⟩
    | done count => exact ⟨⟨nofun, nofun⟩, rfl, rfl⟩

theorem turn_done_live (hask : p.ask = .flush ∨ p.ask = .shutdown) : (p.turn size .done).isLive = true := by
  cases p with
  | first => simp [ask] at hask
  | sending rest => simp [ask] at hask
  | handshake => simp [ask] at hask
  | returned r => simp [ask] at hask
  | transfer t =>
    cases t with
    | running b => rfl
    | shuttingDown count => rfl
    | done count => rfl

/-- A poll that fails ends the whole future. -/
theorem turn_failed (hask : p.ask ≠ .nothing) (e : IoError) : (p.turn size (.failed e)).isLive = false := by
  cases p with
  | first => rfl
  | sending rest => rfl
  | handshake => rfl
  | returned r => rfl
  | transfer t =>
    cases t with
    | running b => rfl
    | shuttingDown count => rfl
    | done count => exact absurd rfl hask

/-- The writer is shut down at the very end. -/
theorem ask_shutdown (hask : p.ask = .shutdown) : ∃ count, p = .transfer (.shuttingDown count) := by
  cases p with
  | first => cases hask
  | sending rest => cases hask
  | handshake => cases hask
  | returned r => cases hask
  | transfer t =>
    cases t with
    | shuttingDown count => exact ⟨count, rfl⟩
    | done count => cases hask
    | running b =>
      have hask : b.ask = .shutdown := hask
      unfold CopyBuffer.ask at hask
      split_ifs at hask

theorem ask_of_not_live (h : p.isLive = false) : p.ask = .nothing ∧ p.WellFormed := by
  cases p with
  | returned r => exact ⟨rfl, nofun, nofun⟩
  | first => cases h
  | sending rest => cases h
  | handshake => cases h
  | transfer t => cases h

theorem wellFormed_returned (r : Except IoError Unit) : (returned r).WellFormed := ⟨nofun, nofun⟩

end Pump

end Relay

end BlackButton
