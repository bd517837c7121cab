import BlackButton.Relay.Channel
import BlackButton.Relay.Copy
import BlackButton.Relay.Socks5

/-!
# A tunnel from end to end (`local/utils.rs`, `proxy_stream/client.rs`, `server/tcprelay.rs`)

What an application sends is read by the local server, sealed behind the address of the
target, carried to the remote server, opened and written to the target. The machine is
one direction of this; that the other one fails, or is cancelled, shows as `drop` or
`receiverDrop`, at any time. `up` starts with the address, `down` is the way back, which
has none.

* `SenderAt`: how far the sending side has come; `ReceiverAt`: how far the receiving side.
* `Inv.sender`, `Inv.receiver`: one poll of either keeps the invariant, and is a step of a
  stream.
* `up_run`, `down_run`: **what reaches the target is the beginning of what was sent**, and all of it once the
  target is shut down, unless the connection broke.
-/

namespace BlackButton

open Async

namespace Relay

variable (K : CipherKind)

/-! ## The stream of a client -/

/-- `ProxyClientStreamWriteState`. -/
inductive ProxyClientStreamWriteState
  | connect (addr : Address)
  | connecting (buffer : Bytes)
  | connected
  deriving DecidableEq

/-- `ProxyClientStream`, as far as its writes go. -/
structure ProxyClientStream where
  stream : Session
  state : ProxyClientStreamWriteState
  deriving DecidableEq

namespace ProxyClientStream

/-- The state `Connecting`. That `buffer` is taken whole is only asserted in a debug build. -/
def pollConnecting (s : ProxyClientStream) (buffer buf : Bytes) (polls : List Ready) :
    Poll IoError ℕ × ProxyClientStream :=
  match s.stream.write K buffer polls with
  | (.ok _, stream) => (.ok buf.length, ⟨stream, .connected⟩)
  | (p, stream) => (p, ⟨stream, .connecting buffer⟩)

/-- `poll_write`; `none` is the assertion of `write_to_buf`. -/
def pollWrite (s : ProxyClientStream) (buf : Bytes) (polls : List Ready) :
    Option (Poll IoError ℕ × ProxyClientStream) :=
  match s.state with
  | .connect addr => addr.writeToBuf.map fun buffer => s.pollConnecting K (buffer ++ buf) buf polls
  | .connecting buffer => some (s.pollConnecting K buffer buf polls)
  | .connected =>
    let (p, stream) := s.stream.write K buf polls
    some (p, { s with stream })

end ProxyClientStream

/-! ## The two sides -/

/-- `From<DecryptError> for io::Error`: the kind. -/
def DecryptError.kind : DecryptError → IoError
  | .io e => e
  | _ => .other

/-- Where `TcpServerClient::serve` stands. -/
inductive Receiver where
  | readFrom (p : Async UInt8 (Except Error Address))
  -- `check_outbound_blocked`, `connect_remote_with_opts`
  | outbound (addr : Address)
  | relay (p : Pump)
  -- "handshake failed": the plain stream is read to its end and ignored
  | silentDrop (e : Error)
  | returned

/-- What `serve` makes of `Address::read_from`. -/
def Receiver.settle : Async UInt8 (Except Error Address) → Receiver
  | .done (.ok addr) => outbound addr
  | .done (.error (.ioError .unexpectedEof)) => returned
  | .done (.error e) => silentDrop e
  | p => readFrom p

/-- One direction of a tunnel. -/
structure Tunnel where
  -- what was sent into it
  sent : Bytes
  source : Inbound
  sender : Pump
  shadow : ProxyClientStream
  receiver : Receiver
  -- whom the receiver has connected to, what it has written there, and whether it has shut that down
  target : Option Address
  written : Bytes
  shut : Bool

namespace Tunnel

inductive Event
  | send (bytes : Bytes)
  | close
  | sender (polls : List Ready)
  -- 500 ms without a first packet
  | senderTimeout
  -- the sending future is dropped, and with it the connection, on which `n` bytes still arrive
  | drop (n : ℕ)
  | receiver (polls : List Ready)
  | receiverTimeout
  -- the target is connected to, or it is blocked or cannot be reached
  | outbound (ok : Bool)
  | receiverDrop

/-- The sender goes on with the answer to its poll. -/
def answered (t : Tunnel) (a : Answer) : Tunnel := { t with sender := t.sender.turn (plainReadBufferSize K) a }

/-- The receiver goes on. -/
def relayed (t : Tunnel) (p : Pump) (a : Answer) : Tunnel :=
  { t with receiver := .relay (p.turn (encryptedReadBufferSize K) a) }

def dropSender (t : Tunnel) (n : ℕ) : Tunnel :=
  { t with sender := .returned (.ok ()), shadow := { t.shadow with stream := t.shadow.stream.cut n } }

/-- A poll of the sending future. -/
def stepSender (t : Tunnel) (polls : List Ready) : Option Tunnel :=
  match t.sender.ask with
  | .read size =>
    match t.source.pollRead size (polls.headD .pending) with
    | (.pending, source) => some { t with source }
    | (.error e, source) => some ({ t with source }.answered K (.failed e))
    | (.ok filled, source) => some ({ t with source }.answered K (.read filled))
  | .write buf =>
    match t.shadow.pollWrite K buf polls with
    | none => some (t.dropSender 0)
    | some (.pending, shadow) => some { t with shadow }
    | some (.error e, shadow) => some ({ t with shadow }.answered K (.failed e))
    | some (.ok n, shadow) => some ({ t with shadow }.answered K (.wrote n))
  | .flush =>
    match polls.headD .pending with
    | .pending => some t
    | .failed => some (t.answered K (.failed .other))
    | .upTo _ => some (t.answered K .done)
  | .shutdown =>
    match polls.headD .pending with
    | .pending => some t
    | .failed => some (t.answered K (.failed .other))
    | .upTo _ => some ({ t with shadow := { t.shadow with stream := t.shadow.stream.shutdown } }.answered K .done)
  | .nothing => none

/-- A poll of the receiving future: a turn of the reader, or a poll of the target. -/
def stepReceiver (t : Tunnel) (polls : List Ready) : Option Tunnel :=
  match t.receiver with
  | .readFrom p =>
    match t.shadow.stream.read K p.want polls with
    | (.ok [], stream) =>
      some { t with shadow := { t.shadow with stream }, receiver := .settle (p.fail .unexpectedEof) }
    | (.ok filled, stream) => some { t with shadow := { t.shadow with stream }, receiver := .settle (p.feed filled) }
    | (.error e, stream) => some { t with shadow := { t.shadow with stream }, receiver := .settle (p.fail e.kind) }
    | (_, stream) => some { t with shadow := { t.shadow with stream } }
  | .relay p =>
    match p.ask with
    | .read size =>
      match t.shadow.stream.read K size polls with
      | (.ok filled, stream) => some ({ t with shadow := { t.shadow with stream } }.relayed K p (.read filled))
      | (.error e, stream) => some ({ t with shadow := { t.shadow with stream } }.relayed K p (.failed e.kind))
      | (_, stream) => some { t with shadow := { t.shadow with stream } }
    | .write buf =>
      match polls.headD .pending with
      | .pending => some t
      | .failed => some (t.relayed K p (.failed .other))
      | .upTo n => some ({ t with written := t.written ++ buf.take n }.relayed K p (.wrote (min n buf.length)))
    | .flush =>
      match polls.headD .pending with
      | .pending => some t
      | .failed => some (t.relayed K p (.failed .other))
      | .upTo _ => some (t.relayed K p .done)
    | .shutdown =>
      match polls.headD .pending with
      | .pending => some t
      | .failed => some (t.relayed K p (.failed .other))
      | .upTo _ => some ({ t with shut := true }.relayed K p .done)
    | .nothing => none
  | _ => none

/-- The step; `fastopen` is an option of the receiver. -/
def step (fastopen : Bool) (t : Tunnel) : Event → Option Tunnel
  | .send bytes =>
    if t.source.eof then none
    else some { t with sent := t.sent ++ bytes, source := { t.source with bytes := t.source.bytes ++ bytes } }
  | .close => some { t with source := { t.source with eof := true } }
  | .sender polls => t.stepSender K polls
  | .senderTimeout =>
    match t.sender with
    | .first => some { t with sender := .handshake }
    | _ => none
  | .drop n => some (t.dropSender n)
  | .receiver polls => t.stepReceiver K polls
  | .receiverTimeout =>
    match t.receiver with
    | .relay .first => some { t with receiver := .relay .handshake }
    | _ => none
  | .outbound ok =>
    match t.receiver with
    | .outbound addr =>
      if ok then
        let p := if fastopen then .first else .transfer (.running (.new (encryptedReadBufferSize K)))
        some { t with receiver := .relay p, target := some addr }
      else some { t with receiver := .returned }
    | _ => none
  | .receiverDrop => some { t with receiver := .returned }

/-- From an application to `addr`. -/
def up (key salt : Bytes) (addr : Address) (fastopen : Bool) : Machine Tunnel Event where
  init := ⟨[], ⟨[], false⟩, .first, ⟨.new K key salt, .connect addr⟩, .readFrom Address.readFrom, none, [], false⟩
  step := step K fastopen

/-- From the target back to the application, once the two futures copy. -/
def down (key salt : Bytes) : Machine Tunnel Event where
  init := ⟨[], ⟨[], false⟩, .transfer (.running (.new (plainReadBufferSize K))), ⟨.new K key salt, .connected⟩,
    .relay (.transfer (.running (.new (encryptedReadBufferSize K)))), none, [], false⟩
  step := step K false

/-- The stream that the application and the target see. -/
def fifo (t : Tunnel) : Fifo UInt8 := ⟨t.sent, t.written, t.source.eof, t.shadow.stream.broken, t.shut⟩

/-! ## The invariant -/

variable {K}

/-- **How far the sender has come**: `header` stands in front of what was sent. -/
inductive SenderAt (header sent : Bytes) (source : Inbound) (sender : Pump) (held : Option Bytes) (taken : Bytes) :
    ProxyClientStreamWriteState → Prop
  | connect (addr : Address) (hw : addr.writeToBuf = some header) (hheld : held = none) (htaken : taken = [])
      (hsent : sent = sender.holding ++ source.bytes) (hlen : sender.holding.length ≤ 8192)
      (hsender : sender = .first ∨ sender = .handshake ∨ ∃ rest, sender = .sending rest) :
      SenderAt header sent source sender held taken (.connect addr)
  | connecting (buf : Bytes) (hheld : held = some (header ++ buf)) (htaken : taken = [])
      (hask : sender.ask = .write buf) (hlen : buf.length ≤ 8192) (hsent : sent = buf ++ source.bytes) :
      SenderAt header sent source sender held taken (.connecting (header ++ buf))
  | connected (handed : Bytes) (htaken : taken = header ++ handed) (hsent : sent = handed ++ sender.holding ++ source.bytes)
      (hlive : sender.isLive = true) (hheld : held = none ∨ ∃ buf, held = some buf ∧ sender.ask = .write buf) :
      SenderAt header sent source sender held taken .connected
  | stopped (state : ProxyClientStreamWriteState) (hlive : sender.isLive = false)
      (hpre : taken ++ (held.map (·.take MAX_PACKET_SIZE)).getD [] <+: header ++ sent) :
      SenderAt header sent source sender held taken state

/-- **How far the receiver has come**, by what its reader has given out. -/
inductive ReceiverAt (header : Bytes) (dest : Option Address) (target : Option Address) (written : Bytes) (shut : Bool)
    (received : Bytes) (ended : Bool) (failed : Option DecryptError) : Receiver → Prop
  | readFrom (p : Async UInt8 (Except Error Address)) (hp : ∀ more, run p more = run Address.readFrom (received ++ more))
      (hreads : Reads Error.ioError p) (hwant : 0 < p.want) (hended : ended = false) (hfailed : failed = none)
      (htarget : target = none) (hwritten : written = []) (hshut : shut = false) :
      ReceiverAt header dest target written shut received ended failed (.readFrom p)
  | outbound (addr : Address) (haddr : dest = some addr) (hreceived : received = header) (hended : ended = false)
      (hfailed : failed = none) (htarget : target = none) (hwritten : written = []) (hshut : shut = false) :
      ReceiverAt header dest target written shut received ended failed (.outbound addr)
  | relay (p : Pump) (hp : p.WellFormed) (htarget : target = dest)
      (hlive : p.isLive = true → received = header ++ written ++ p.holding ∧ ended = p.sawEnd ∧ failed = none)
      (hshut : shut = true → p.ask = .nothing ∧ ended = true ∧ received = header ++ written)
      (hpre : header ++ written <+: received) :
      ReceiverAt header dest target written shut received ended failed (.relay p)
  | silentDrop (htarget : target = none) (hwritten : written = []) (hshut : shut = false) :
      ReceiverAt header dest target written shut received ended failed (.silentDrop (.ioError .other))
  | returned (htarget : (target = none ∧ written = [] ∧ shut = false) ∨ (target = dest ∧ header ++ written <+: received))
      (hshut : shut = true → ended = true ∧ received = header ++ written) :
      ReceiverAt header dest target written shut received ended failed .returned

/-- What every step keeps; `header` is the address `dest` as it is written. -/
structure Inv (K : CipherKind) (key salt header : Bytes) (dest : Option Address) (t : Tunnel) : Prop where
  length : header.length ≤ Address.maxSerializedLen
  -- the header is what the reader of addresses takes
  address : ∀ p, t.receiver = .readFrom p →
    ∃ addr, dest = some addr ∧ ∀ more, run Address.readFrom (header ++ more) = ⟨.ok addr, more, []⟩
  session : ∃ lost chunks, t.shadow.stream.Inv K key salt lost chunks
  pump : t.sender.WellFormed
  source : t.sender.isLive = true → t.sender.sawEnd = true → t.source.eof = true ∧ t.source.bytes = []
  closed : t.shadow.stream.channel.wire.eof = true → t.sender.ask = .nothing
  done : t.shadow.stream.channel.wire.eof = true → t.shadow.stream.broken = false → t.sender.isLive = true
  sender : SenderAt header t.sent t.source t.sender t.shadow.stream.held t.shadow.stream.taken t.shadow.state
  receiver : ReceiverAt header dest t.target t.written t.shut t.shadow.stream.received t.shadow.stream.ended
    t.shadow.stream.failed t.receiver

variable {header sent : Bytes} {source : Inbound} {sender : Pump} {held : Option Bytes} {taken : Bytes}
  {state : ProxyClientStreamWriteState}

/-- Nothing but the header and what was sent goes into the connection. -/
theorem SenderAt.beginning (hp : sender.WellFormed)
    (h : SenderAt header sent source sender held taken state) :
    taken ++ (held.map (·.take MAX_PACKET_SIZE)).getD [] <+: header ++ sent := by
  cases h with
  | stopped _ _ hpre => exact hpre
  | connect addr _ hheld htaken =>
    rw [hheld, htaken]
    exact List.nil_prefix
  | connecting buf hheld htaken hask hlen hsent =>
    rw [hheld, htaken, hsent, ← List.append_assoc]
    exact (List.take_prefix _ _).trans (List.prefix_append _ _)
  | connected handed htaken hsent hlive hheld =>
    rw [htaken, hsent, List.append_assoc handed, ← List.append_assoc header, List.prefix_append_right_inj]
    rcases hheld with hnone | ⟨buf, hsome, hask⟩
    · rw [hnone]
      exact List.nil_prefix
    · have hspec := Pump.ask_spec hp
      rw [hask] at hspec
      rw [hsome, hspec.1]
      exact (List.take_prefix _ _).trans (List.prefix_append _ _)

variable {key salt : Bytes} {dest : Option Address} {t t' : Tunnel}

/-- **What the reader has given out** is the beginning of the header and what was sent. -/
theorem Inv.received_prefix (h : Inv K key salt header dest t) : t.shadow.stream.received <+: header ++ t.sent := by
  obtain ⟨lost, chunks, hs⟩ := h.session
  have hpre := hs.carries.follows.beginning
  rw [hs.flatten] at hpre
  exact hpre.trans (h.sender.beginning h.pump)

/-- What is written is the beginning of what was sent. -/
theorem Inv.written_prefix (h : Inv K key salt header dest t) : t.written <+: t.sent := by
  have hpre := h.received_prefix
  have hheader (hr : header ++ t.written <+: t.shadow.stream.received) : t.written <+: t.sent :=
    (List.prefix_append_right_inj header).1 (hr.trans hpre)
  have hnil (hr : t.written = []) : t.written <+: t.sent := by
    rw [hr]
    exact List.nil_prefix
  have hrec := h.receiver
  generalize t.receiver = r at hrec
  cases hrec with
  | readFrom p _ _ _ _ _ _ hw => exact hnil hw
  | outbound addr _ _ _ _ _ hw => exact hnil hw
  | relay p _ _ _ _ hr => exact hheader hr
  | silentDrop _ hw => exact hnil hw
  | returned htarget =>
    rcases htarget with ⟨-, hw, -⟩ | ⟨-, hr⟩
    · exact hnil hw
    · exact hheader hr

/-- Once the target is shut down, all was written, unless the connection broke. -/
theorem Inv.shut (h : Inv K key salt header dest t) (hshut : t.shut = true) :
    t.shadow.stream.ended = true ∧ t.shadow.stream.received = header ++ t.written := by
  have hrec := h.receiver
  generalize t.receiver = r at hrec
  cases hrec with
  | readFrom p _ _ _ _ _ _ _ hs => exact absurd (hs.symm.trans hshut) (by decide)
  | outbound addr _ _ _ _ _ _ hs => exact absurd (hs.symm.trans hshut) (by decide)
  | relay p _ _ _ hs => exact (hs hshut).2
  | silentDrop _ _ hs => exact absurd (hs.symm.trans hshut) (by decide)
  | returned _ hs => exact hs hshut

/-- **An end that is not a break is the end of the source**, after all that was sent. -/
theorem Inv.ended (h : Inv K key salt header dest t) (hended : t.shadow.stream.ended = true)
    (hbroken : t.shadow.stream.broken = false) :
    t.source.eof = true ∧ t.shadow.stream.received = header ++ t.sent := by
  obtain ⟨lost, chunks, hs⟩ := h.session
  obtain ⟨heof, hall⟩ := hs.ended hended
  have hlive := h.done heof hbroken
  have hask := h.closed heof
  have hspec := Pump.ask_spec h.pump
  rw [hask] at hspec
  obtain ⟨hsource, hbytes⟩ := h.source hlive (hspec.2 hlive)
  refine ⟨hsource, ?_⟩
  rw [hall hbroken]
  have hsender := h.sender
  generalize t.shadow.state = state at hsender
  cases hsender with
  | stopped _ hdead => exact absurd (hlive.symm.trans hdead) (by decide)
  | connect addr _ _ _ _ _ hfirst =>
    rcases hfirst with hf | hf | ⟨rest, hf⟩ <;> (rw [hf] at hask; cases hask)
  | connecting buf _ _ hwrite =>
    rw [hask] at hwrite
    cases hwrite
  | connected handed htaken hsent =>
    rw [htaken, hsent, hspec.1, hbytes, List.append_nil, List.append_nil]

/-! ## The sending side -/

/-- A sender that has stopped. -/
theorem SenderAt.stop (hp : sender.WellFormed) (h : SenderAt header sent source sender held taken state)
    {source' : Inbound} {sender' : Pump} (hdead : sender'.isLive = false) :
    SenderAt header sent source' sender' held taken state :=
  .stopped state hdead (h.beginning hp)

/-- What a write does to the stream: only the writer's side of it changes. -/
structure Wrote (s s' : ProxyClientStream) : Prop where
  eof : s'.stream.channel.wire.eof = s.stream.channel.wire.eof
  received : s'.stream.received = s.stream.received
  broken : s'.stream.broken = s.stream.broken
  ended : s'.stream.ended = s.stream.ended
  failed : s'.stream.failed = s.stream.failed

theorem take_packet {buf : Bytes} (h : buf.length ≤ MAX_PACKET_SIZE) : buf.take MAX_PACKET_SIZE = buf :=
  List.take_of_length_le h

/-- The first packet, with the header: it is taken whole, as the source asserts. -/
theorem pollConnecting_spec {s s' : ProxyClientStream} {lost : Bytes} {chunks : List Bytes}
    (hs : s.stream.Inv K key salt lost chunks) (hopen : s.stream.channel.wire.eof = false)
    (hheader : header.length ≤ Address.maxSerializedLen) {buf : Bytes} (hlen : buf.length ≤ 8192)
    (hask : sender.ask = .write buf) (hsent : sent = buf ++ source.bytes) (htaken : s.stream.taken = [])
    (hheld : s.stream.held = none ∨ s.stream.held = some (header ++ buf)) {polls : List Ready} {p : Poll IoError ℕ}
    (hpoll : s.pollConnecting K (header ++ buf) buf polls = (p, s')) :
    (∃ lost chunks, s'.stream.Inv K key salt lost chunks) ∧ Wrote s s' ∧
      (((∀ n, p ≠ .ok n) ∧ SenderAt header sent source sender s'.stream.held s'.stream.taken s'.state) ∨
        (p = .ok buf.length ∧ s'.state = .connected ∧ s'.stream.held = none ∧ s'.stream.taken = header ++ buf)) := by
  obtain ⟨q, stream, hq⟩ : ∃ q stream, s.stream.write K (header ++ buf) polls = (q, stream) := ⟨_, _, rfl⟩
  obtain ⟨⟨chunks', hinv⟩, hwritten, -⟩ := hs.write hopen hheld hq
  unfold ProxyClientStream.pollConnecting at hpoll
  rw [hq] at hpoll
  have hwhole : (header ++ buf).take MAX_PACKET_SIZE = header ++ buf := by
    apply take_packet
    have hmax : header.length ≤ 259 := hheader
    rw [List.length_append]
    show header.length + buf.length ≤ 16383
    omega
  rcases hwritten.answer with ⟨hh, ht, hno⟩ | ⟨hh, ht, rfl⟩
  · have hs' : p = q ∧ s' = ⟨stream, .connecting (header ++ buf)⟩ := by
      cases q with
      | ok n => exact absurd rfl (hno n)
      | pending => cases hpoll; exact ⟨rfl, rfl⟩
      | error e => cases hpoll; exact ⟨rfl, rfl⟩
    obtain ⟨rfl, rfl⟩ := hs'
    refine ⟨⟨_, _, hinv⟩, ⟨hwritten.eof, hwritten.received, hwritten.broken, hwritten.ended, hwritten.failed⟩,
      Or.inl ⟨hno, ?_⟩⟩
    exact .connecting buf hh (ht.trans htaken) hask hlen hsent
  · cases hpoll
    refine ⟨⟨_, _, hinv⟩, ⟨hwritten.eof, hwritten.received, hwritten.broken, hwritten.ended, hwritten.failed⟩,
      Or.inr ⟨rfl, rfl, hh, ?_⟩⟩
    rw [ht, htaken, hwhole, List.nil_append]

/-- **A write of the sender**: it is not finished, or `n` bytes more are in the connection. -/
theorem SenderAt.pollWrite {s : ProxyClientStream} {lost : Bytes} {chunks : List Bytes}
    (h : SenderAt header sent source sender s.stream.held s.stream.taken s.state) (hp : sender.WellFormed)
    (hs : s.stream.Inv K key salt lost chunks) (hopen : s.stream.channel.wire.eof = false)
    (hheader : header.length ≤ Address.maxSerializedLen) {buf : Bytes} (hask : sender.ask = .write buf)
    (polls : List Ready) :
    ∃ p s', s.pollWrite K buf polls = some (p, s') ∧ (∃ lost chunks, s'.stream.Inv K key salt lost chunks) ∧ Wrote s s' ∧
      (((∀ n, p ≠ .ok n) ∧ SenderAt header sent source sender s'.stream.held s'.stream.taken s'.state) ∨
        ∃ n handed, p = .ok n ∧ n ≤ buf.length ∧ s'.state = .connected ∧ s'.stream.held = none ∧
          s'.stream.taken = header ++ handed ∧ sent = handed ++ buf.drop n ++ source.bytes) := by
  have hspec := Pump.ask_spec hp
  rw [hask] at hspec
  obtain ⟨hholding, -, hlive⟩ := hspec
  obtain ⟨stream, state⟩ := s
  -- the first packet, or the same once more
  have hfirst (hlen : buf.length ≤ 8192) (hsent : sent = buf ++ source.bytes) (htaken : stream.taken = [])
      (hheld : stream.held = none ∨ stream.held = some (header ++ buf)) :
      ∃ p s', (⟨stream, state⟩ : ProxyClientStream).pollConnecting K (header ++ buf) buf polls = (p, s') ∧
        (∃ lost chunks, s'.stream.Inv K key salt lost chunks) ∧ Wrote ⟨stream, state⟩ s' ∧
        (((∀ n, p ≠ .ok n) ∧ SenderAt header sent source sender s'.stream.held s'.stream.taken s'.state) ∨
          ∃ n handed, p = .ok n ∧ n ≤ buf.length ∧ s'.state = .connected ∧ s'.stream.held = none ∧
            s'.stream.taken = header ++ handed ∧ sent = handed ++ buf.drop n ++ source.bytes) := by
    obtain ⟨p, s', hpoll⟩ : ∃ p s', (⟨stream, state⟩ : ProxyClientStream).pollConnecting K (header ++ buf) buf polls =
      (p, s') := ⟨_, _, rfl⟩
    obtain ⟨hinv, hwrote, hend⟩ := pollConnecting_spec hs hopen hheader hlen hask hsent htaken hheld hpoll
    refine ⟨p, s', hpoll, hinv, hwrote, ?_⟩
    rcases hend with hend | ⟨rfl, hstate, hh, ht⟩
    · exact Or.inl hend
    · refine Or.inr ⟨buf.length, buf, rfl, Nat.le_refl _, hstate, hh, ht, ?_⟩
      rw [hsent, List.drop_length, List.append_nil]
  cases h with
  | stopped _ hdead => exact absurd (hlive.symm.trans hdead) (by decide)
  | connect addr hw hheld htaken hsent hlen =>
    rw [hholding] at hsent hlen
    obtain ⟨p, s', hpoll, hrest⟩ := hfirst hlen hsent htaken (Or.inl hheld)
    refine ⟨p, s', ?_, hrest⟩
    unfold ProxyClientStream.pollWrite
    rw [← hpoll]
    simp only [hw]
    rfl
  | connecting buf' hheld htaken hask' hlen hsent =>
    rw [hask] at hask'
    cases hask'
    obtain ⟨p, s', hpoll, hrest⟩ := hfirst hlen hsent htaken (Or.inr hheld)
    exact ⟨p, s', congrArg some hpoll, hrest⟩
  | connected handed htaken hsent _ hheld =>
    have hheld : stream.held = none ∨ stream.held = some buf := by
      rcases hheld with hnone | ⟨buf', hsome, hask'⟩
      · exact Or.inl hnone
      · rw [hask] at hask'
        cases hask'
        exact Or.inr hsome
    obtain ⟨p, stream', hq⟩ : ∃ p stream', stream.write K buf polls = (p, stream') := ⟨_, _, rfl⟩
    obtain ⟨⟨chunks', hinv⟩, hwritten, -⟩ := hs.write hopen hheld hq
    refine ⟨p, ⟨stream', .connected⟩, ?_, ⟨_, _, hinv⟩,
      ⟨hwritten.eof, hwritten.received, hwritten.broken, hwritten.ended, hwritten.failed⟩, ?_⟩
    · simp only [ProxyClientStream.pollWrite, hq]
    · rcases hwritten.answer with ⟨hh, ht, hno⟩ | ⟨hh, ht, rfl⟩
      · exact Or.inl ⟨hno, .connected handed (ht.trans htaken) hsent hlive (Or.inr ⟨buf, hh, hask⟩)⟩
      · refine Or.inr ⟨_, handed ++ buf.take MAX_PACKET_SIZE, rfl, ?_, rfl, hh, ?_, ?_⟩
        · rw [List.length_take]
          exact Nat.min_le_right _ _
        · rw [ht, htaken, List.append_assoc]
        · have htake : buf.take MAX_PACKET_SIZE ++ buf.drop (buf.take MAX_PACKET_SIZE).length = buf :=
            List.prefix_iff_eq_append.1 (List.take_prefix _ _)
          rw [hsent, hholding, List.append_assoc handed (buf.take MAX_PACKET_SIZE), htake]

/-- A step of the sending side leaves the receiving side as it is. -/
theorem Inv.move (h : Inv K key salt header dest t) {sent : Bytes} {source : Inbound} {sender : Pump}
    {shadow : ProxyClientStream} (hreceived : shadow.stream.received = t.shadow.stream.received)
    (hended : shadow.stream.ended = t.shadow.stream.ended) (hfailed : shadow.stream.failed = t.shadow.stream.failed)
    (hsession : ∃ lost chunks, shadow.stream.Inv K key salt lost chunks) (hpump : sender.WellFormed)
    (hsource : sender.isLive = true → sender.sawEnd = true → source.eof = true ∧ source.bytes = [])
    (hclosed : shadow.stream.channel.wire.eof = true → sender.ask = .nothing)
    (hdone : shadow.stream.channel.wire.eof = true → shadow.stream.broken = false → sender.isLive = true)
    (hsender : SenderAt header sent source sender shadow.stream.held shadow.stream.taken shadow.state) :
    Inv K key salt header dest { t with sent, source, sender, shadow } where
  length := h.length
  address := h.address
  session := hsession
  pump := hpump
  source := hsource
  closed := hclosed
  done := hdone
  sender := hsender
  receiver := by
    show ReceiverAt header dest t.target t.written t.shut shadow.stream.received shadow.stream.ended shadow.stream.failed
      t.receiver
    rw [hreceived, hended, hfailed]
    exact h.receiver

/-- The connection is open while the sender polls. -/
theorem Inv.open (h : Inv K key salt header dest t) (hask : t.sender.ask ≠ .nothing) :
    t.shadow.stream.channel.wire.eof = false := by
  by_contra hne
  exact hask (h.closed (by simpa using hne))

theorem Wrote.refl (s : ProxyClientStream) : Wrote s s := ⟨rfl, rfl, rfl, rfl, rfl⟩

/-- A step of the sending side on an open connection. -/
theorem Inv.advance (h : Inv K key salt header dest t) (hopen : t.shadow.stream.channel.wire.eof = false)
    {shadow : ProxyClientStream} (hwrote : Wrote t.shadow shadow)
    (hsession : ∃ lost chunks, shadow.stream.Inv K key salt lost chunks) {source : Inbound} {sender : Pump}
    (hpump : sender.WellFormed)
    (hsource : sender.isLive = true → sender.sawEnd = true → source.eof = true ∧ source.bytes = [])
    (hsender : SenderAt header t.sent source sender shadow.stream.held shadow.stream.taken shadow.state) :
    Inv K key salt header dest { t with source, sender, shadow } := by
  have hclosed : shadow.stream.channel.wire.eof ≠ true := by
    rw [hwrote.eof, hopen]
    decide
  apply h.move hwrote.received hwrote.ended hwrote.failed hsession hpump hsource
  · exact fun he => absurd he hclosed
  · exact fun he => absurd he hclosed
  · exact hsender

/-- **The sender stops**, for whatever reason, with an open connection. -/
theorem Inv.stop (h : Inv K key salt header dest t) (hopen : t.shadow.stream.channel.wire.eof = false)
    {shadow : ProxyClientStream} (hwrote : Wrote t.shadow shadow)
    (hsession : ∃ lost chunks, shadow.stream.Inv K key salt lost chunks)
    (hsender : SenderAt header t.sent t.source t.sender shadow.stream.held shadow.stream.taken shadow.state)
    {source : Inbound} {sender : Pump} (hdead : sender.isLive = false) :
    Inv K key salt header dest { t with source, sender, shadow } := by
  apply h.advance hopen hwrote hsession (Pump.ask_of_not_live hdead).2
  · intro hlive
    exact absurd (hlive.symm.trans hdead) (by decide)
  · exact hsender.stop h.pump hdead

theorem size_pos : 0 < plainReadBufferSize K := by
  unfold plainReadBufferSize MAX_PACKET_SIZE
  omega

/-- **A poll of the source** by a sender with nothing to write. -/
theorem Inv.senderRead (h : Inv K key salt header dest t) {polls : List Ready} {size : ℕ}
    (hask : t.sender.ask = .read size) (hstep : t.stepSender K polls = some t') :
    Inv K key salt header dest t' ∧ t'.fifo = t.fifo := by
  have hspec := Pump.ask_spec h.pump
  rw [hask] at hspec
  obtain ⟨hsize, hholding, hsaw, hlive⟩ := hspec
  have hopen := h.open (by rw [hask]; nofun)
  obtain ⟨p, source, hp⟩ : ∃ p source, t.source.pollRead size (polls.headD .pending) = (p, source) := ⟨_, _, rfl⟩
  unfold stepSender at hstep
  simp only [hask, hp] at hstep
  rcases pollRead_spec hsize hp with ⟨rfl, rfl⟩ | ⟨rfl, rfl⟩ | ⟨rfl, rfl, hbytes, heof⟩ | ⟨b, bs, rfl, hbytes, heof, hlen⟩
  · cases hstep
    exact ⟨h, rfl⟩
  · cases hstep
    refine ⟨h.stop hopen (.refl _) h.session h.sender ?_, rfl⟩
    exact Pump.turn_failed (by rw [hask]; nofun) _
  · cases hstep
    refine ⟨?_, rfl⟩
    obtain ⟨hwf, hnil, -, hend⟩ := Pump.turn_read (plainReadBufferSize K) h.pump hask []
    cases hlive' : (t.sender.turn (plainReadBufferSize K) (.read [])).isLive with
    | false => exact h.stop hopen (.refl _) h.session h.sender hlive'
    | true =>
      apply h.advance hopen (.refl _) h.session hwf
      · exact fun _ _ => ⟨heof, hbytes⟩
      · have hsender := h.sender
        generalize t.shadow.state = state at hsender
        cases hsender with
        | stopped _ hdead => exact absurd (hlive.symm.trans hdead) (by decide)
        | connecting buf _ _ hwrite =>
          rw [hask] at hwrite
          cases hwrite
        | connect addr _ _ _ _ _ hfirst =>
          -- the end before the first packet: the sender has returned
          rcases hfirst with hf | hf | ⟨rest, hf⟩
          · rw [hf] at hlive'
            cases hlive'
          · rw [hf] at hask
            cases hask
          · rw [hf] at hask
            cases hask
        | connected handed htaken hsent _ hheld =>
          refine .connected handed htaken ?_ hlive' ?_
          · rw [hnil, hsent, hholding]
          · rcases hheld with hnone | ⟨buf, -, hwrite⟩
            · exact Or.inl hnone
            · rw [hask] at hwrite
              cases hwrite
  · cases hstep
    refine ⟨?_, by unfold fifo; rw [← heof]; rfl⟩
    obtain ⟨hwf, hheld', hmore, -⟩ := Pump.turn_read (plainReadBufferSize K) h.pump hask (b :: bs)
    obtain ⟨hlive', hsaw'⟩ := hmore (by simp)
    apply h.advance hopen (.refl _) h.session hwf
    · intro _ hs
      exact absurd (hs.symm.trans hsaw') (by decide)
    · have hsender := h.sender
      generalize t.shadow.state = state at hsender
      cases hsender with
      | stopped _ hdead => exact absurd (hlive.symm.trans hdead) (by decide)
      | connecting buf _ _ hwrite =>
        rw [hask] at hwrite
        cases hwrite
      | connect addr hw hheld htaken hsent _ hfirst =>
        refine .connect addr hw hheld htaken ?_ ?_ ?_
        · rw [hheld', hsent, hholding, hbytes, List.nil_append]
        · rcases hfirst with hf | hf | ⟨rest, hf⟩
          · rw [hf] at hask
            cases hask
            rw [hheld']
            exact hlen
          · rw [hf] at hask
            cases hask
          · rw [hf] at hask
            cases hask
        · rcases hfirst with hf | hf | ⟨rest, hf⟩
          · rw [hf]
            exact Or.inr (Or.inr ⟨b :: bs, rfl⟩)
          · rw [hf] at hask
            cases hask
          · rw [hf] at hask
            cases hask
      | connected handed htaken hsent _ hheld =>
        refine .connected handed htaken ?_ hlive' ?_
        · rw [hheld', hsent, hholding, hbytes]
          simp only [List.append_assoc, List.nil_append]
        · rcases hheld with hnone | ⟨buf, -, hwrite⟩
          · exact Or.inl hnone
          · rw [hask] at hwrite
            cases hwrite

/-- **A poll of the connection** by a sender that holds something. -/
theorem Inv.senderWrite (h : Inv K key salt header dest t) {polls : List Ready} {buf : Bytes}
    (hask : t.sender.ask = .write buf) (hstep : t.stepSender K polls = some t') :
    Inv K key salt header dest t' ∧ t'.fifo = t.fifo := by
  have hopen := h.open (by rw [hask]; nofun)
  obtain ⟨lost, chunks, hs⟩ := h.session
  obtain ⟨p, shadow, hpoll, hsession, hwrote, hend⟩ := h.sender.pollWrite h.pump hs hopen h.length hask polls
  have hfifo (t' : Tunnel) (hsent : t'.sent = t.sent) (hsource : t'.source = t.source) (hshadow : t'.shadow = shadow)
      (hwritten : t'.written = t.written) (hshut : t'.shut = t.shut) : t'.fifo = t.fifo := by
    unfold fifo
    rw [hsent, hsource, hshadow, hwritten, hshut, hwrote.broken]
  unfold stepSender at hstep
  simp only [hask, hpoll] at hstep
  rcases hend with ⟨hno, hsender⟩ | ⟨n, handed, rfl, hn, hstate, hheld, htaken, hsent⟩
  · have hspec := Pump.ask_spec h.pump
    rw [hask] at hspec
    cases p with
    | ok n => exact absurd rfl (hno n)
    | pending =>
      cases hstep
      refine ⟨h.advance hopen hwrote hsession h.pump h.source hsender, ?_⟩
      exact hfifo _ rfl rfl rfl rfl rfl
    | error e =>
      cases hstep
      refine ⟨h.stop hopen hwrote hsession hsender ?_, hfifo _ rfl rfl rfl rfl rfl⟩
      exact Pump.turn_failed (by rw [hask]; nofun) _
  · cases hstep
    refine ⟨?_, hfifo _ rfl rfl rfl rfl rfl⟩
    obtain ⟨hwf, hnext⟩ := Pump.turn_wrote h.pump (size_pos (K := K)) hask hn
    apply h.advance hopen hwrote hsession hwf
    · intro hlive hsaw
      exact absurd (hsaw.symm.trans (hnext hlive).2) (by decide)
    · cases hlive : (t.sender.turn (plainReadBufferSize K) (.wrote n)).isLive with
      | false =>
        refine .stopped _ hlive ?_
        rw [hheld, htaken, hsent, Option.map_none, Option.getD_none, List.append_nil, List.append_assoc handed,
          ← List.append_assoc header]
        exact List.prefix_append _ _
      | true =>
        rw [hstate]
        refine .connected handed htaken ?_ hlive (Or.inl hheld)
        rw [(hnext hlive).1]
        exact hsent

/-- After the end of the source: the header and all that was sent are in the connection. -/
theorem SenderAt.connected_of_sawEnd (h : SenderAt header sent source sender held taken state) (hp : sender.WellFormed)
    (hask : sender.ask = .flush ∨ sender.ask = .shutdown) :
    state = .connected ∧ held = none ∧ ∃ handed, taken = header ++ handed ∧ sent = handed ++ source.bytes := by
  have hspec : sender.holding = [] ∧ sender.isLive = true := by
    have hspec := Pump.ask_spec hp
    rcases hask with hask | hask <;> (rw [hask] at hspec; exact ⟨hspec.1, hspec.2.2⟩)
  have hno (buf : Bytes) : sender.ask ≠ .write buf := by
    rcases hask with hask | hask <;> (rw [hask]; nofun)
  cases h with
  | stopped _ hdead => exact absurd (hspec.2.symm.trans hdead) (by decide)
  | connecting buf _ _ hwrite => exact absurd hwrite (hno buf)
  | connect addr _ _ _ _ _ hfirst =>
    rcases hfirst with hf | hf | ⟨rest, hf⟩ <;> (rw [hf] at hask; simp [Pump.ask] at hask)
  | connected handed htaken hsent _ hheld =>
    rw [hspec.1, List.append_nil] at hsent
    refine ⟨rfl, ?_, handed, htaken, hsent⟩
    rcases hheld with hnone | ⟨buf, -, hwrite⟩
    · exact hnone
    · exact absurd hwrite (hno buf)

/-- **The flush and the shutdown** of the connection. -/
theorem Inv.senderEnd (h : Inv K key salt header dest t) {polls : List Ready}
    (hask : t.sender.ask = .flush ∨ t.sender.ask = .shutdown) (hstep : t.stepSender K polls = some t') :
    Inv K key salt header dest t' ∧ t'.fifo = t.fifo := by
  have hne : t.sender.ask ≠ .nothing := by
    rcases hask with hask | hask <;> (rw [hask]; nofun)
  have hopen := h.open hne
  have hspec : t.sender.sawEnd = true ∧ t.sender.isLive = true := by
    have hspec := Pump.ask_spec h.pump
    rcases hask with hask | hask <;> (rw [hask] at hspec; exact ⟨hspec.2.1, hspec.2.2⟩)
  obtain ⟨hstate, hheld, handed, htaken, hsent⟩ := h.sender.connected_of_sawEnd h.pump hask
  obtain ⟨hwf, hnil, hsaw⟩ := Pump.turn_done (plainReadBufferSize K) h.pump hask
  have hfail : Inv K key salt header dest (t.answered K (.failed .other)) ∧
      (t.answered K (.failed .other)).fifo = t.fifo :=
    ⟨h.stop hopen (.refl _) h.session h.sender (Pump.turn_failed hne _), rfl⟩
  -- the sender after the poll that is ready
  have hsender (held : Option Bytes) (hheld : held = none)
      (hlive : (t.sender.turn (plainReadBufferSize K) .done).isLive = true) :
      SenderAt header t.sent t.source (t.sender.turn (plainReadBufferSize K) .done) held t.shadow.stream.taken
        t.shadow.state := by
    rw [hstate]
    refine .connected handed htaken ?_ hlive (Or.inl hheld)
    rw [hnil, List.append_nil]
    exact hsent
  have hlive : (t.sender.turn (plainReadBufferSize K) .done).isLive = true := Pump.turn_done_live hask
  unfold stepSender at hstep
  rcases hask with hask | hask
  · simp only [hask] at hstep
    split at hstep
    · cases hstep
      exact ⟨h, rfl⟩
    · cases hstep
      exact hfail
    · cases hstep
      refine ⟨h.advance hopen (.refl _) h.session hwf ?_ (hsender _ hheld hlive), rfl⟩
      exact fun _ _ => h.source hspec.2 hspec.1
  · simp only [hask] at hstep
    split at hstep
    · cases hstep
      exact ⟨h, rfl⟩
    · cases hstep
      exact hfail
    · cases hstep
      obtain ⟨lost, chunks, hs⟩ := h.session
      obtain ⟨count, hcount⟩ := Pump.ask_shutdown hask
      refine ⟨h.move rfl rfl rfl ⟨lost, chunks, (hs.shutdown hheld).1⟩ hwf ?_ ?_ ?_ (hsender _ hheld hlive), rfl⟩
      · exact fun _ _ => h.source hspec.2 hspec.1
      · intro _
        rw [hcount]
        rfl
      · exact fun _ _ => hlive

/-- **A poll of the sending side** keeps the invariant, and does not show. -/
theorem Inv.stepSender (h : Inv K key salt header dest t) {polls : List Ready}
    (hstep : t.stepSender K polls = some t') : Inv K key salt header dest t' ∧ t'.fifo = t.fifo := by
  cases hask : t.sender.ask with
  | read size => exact h.senderRead hask hstep
  | write buf => exact h.senderWrite hask hstep
  | flush => exact h.senderEnd (Or.inl hask) hstep
  | shutdown => exact h.senderEnd (Or.inr hask) hstep
  | nothing =>
    unfold Tunnel.stepSender at hstep
    simp only [hask] at hstep
    cases hstep

/-- The sending side, with its connection, is dropped. -/
theorem Inv.dropSender (h : Inv K key salt header dest t) (n : ℕ) :
    Inv K key salt header dest (t.dropSender n) := by
  obtain ⟨lost, chunks, hs⟩ := h.session
  refine h.move rfl rfl rfl ⟨_, chunks, (hs.cut n).1⟩ (Pump.wellFormed_returned _) nofun (fun _ => rfl) (fun _ => nofun) ?_
  exact h.sender.stop h.pump rfl

/-- More is sent, or the source ends. -/
theorem Inv.send (h : Inv K key salt header dest t) {bytes : Bytes} (hopen : t.source.eof = false) :
    Inv K key salt header dest
      { t with sent := t.sent ++ bytes, source := { t.source with bytes := t.source.bytes ++ bytes } } := by
  apply h.move rfl rfl rfl h.session h.pump
  · intro hlive hsaw
    exact absurd ((h.source hlive hsaw).1.symm.trans hopen) (by decide)
  · exact h.closed
  · exact h.done
  · have hsender := h.sender
    show SenderAt _ _ _ _ _ _ t.shadow.state
    generalize t.shadow.state = state at hsender ⊢
    cases hsender with
    | stopped _ hdead hpre =>
      refine .stopped _ hdead (hpre.trans ?_)
      rw [List.prefix_append_right_inj]
      exact List.prefix_append _ _
    | connect addr hw hheld htaken hsent hlen hfirst =>
      exact .connect addr hw hheld htaken (by rw [hsent, List.append_assoc]) hlen hfirst
    | connecting buf hheld htaken hask hlen hsent =>
      exact .connecting buf hheld htaken hask hlen (by rw [hsent, List.append_assoc])
    | connected handed htaken hsent hlive hheld =>
      exact .connected handed htaken (by rw [hsent, List.append_assoc]) hlive hheld

theorem Inv.close (h : Inv K key salt header dest t) :
    Inv K key salt header dest { t with source := { t.source with eof := true } } := by
  apply h.move rfl rfl rfl h.session h.pump
  · exact fun hlive hsaw => ⟨rfl, (h.source hlive hsaw).2⟩
  · exact h.closed
  · exact h.done
  · have hsender := h.sender
    show SenderAt _ _ _ _ _ _ t.shadow.state
    generalize t.shadow.state = state at hsender ⊢
    cases hsender with
    | stopped _ hdead hpre => exact .stopped _ hdead hpre
    | connect addr hw hheld htaken hsent hlen hfirst => exact .connect addr hw hheld htaken hsent hlen hfirst
    | connecting buf hheld htaken hask hlen hsent => exact .connecting buf hheld htaken hask hlen hsent
    | connected handed htaken hsent hlive hheld => exact .connected handed htaken hsent hlive hheld

/-- Without a first packet the header goes alone. -/
theorem Inv.senderTimeout (h : Inv K key salt header dest t) (hfirst : t.sender = .first) :
    Inv K key salt header dest { t with sender := .handshake } := by
  have hopen := h.open (by rw [hfirst]; nofun)
  apply h.advance hopen (.refl _) h.session Pump.wellFormed_handshake (fun _ hsaw => by cases hsaw)
  have hsender := h.sender
  rw [hfirst] at hsender
  generalize t.shadow.state = state at hsender ⊢
  cases hsender with
  | stopped _ hdead => cases hdead
  | connecting buf _ _ hask => cases hask
  | connect addr hw hheld htaken hsent hlen => exact .connect addr hw hheld htaken hsent hlen (Or.inr (Or.inl rfl))
  | connected handed htaken hsent _ hheld =>
    refine .connected handed htaken hsent rfl ?_
    rcases hheld with hnone | ⟨buf, -, hask⟩
    · exact Or.inl hnone
    · cases hask

/-! ## The receiving side -/

/-- What a turn of the reader does to the stream: only the reader's side of it changes. -/
structure Read (s s' : Session) : Prop where
  eof : s'.channel.wire.eof = s.channel.wire.eof
  held : s'.held = s.held
  taken : s'.taken = s.taken
  broken : s'.broken = s.broken

theorem Read.refl (s : Session) : Read s s := ⟨rfl, rfl, rfl, rfl⟩

/-- A step of the receiving side leaves the sending side as it is. -/
theorem Inv.receive (h : Inv K key salt header dest t) {stream : Session} (hread : Read t.shadow.stream stream)
    (hsession : ∃ lost chunks, stream.Inv K key salt lost chunks) {receiver : Receiver} {target : Option Address}
    {written : Bytes} {shut : Bool}
    (haddress : ∀ p, receiver = .readFrom p →
      ∃ addr, dest = some addr ∧ ∀ more, run Address.readFrom (header ++ more) = ⟨.ok addr, more, []⟩)
    (hreceiver : ReceiverAt header dest target written shut stream.received stream.ended stream.failed receiver) :
    Inv K key salt header dest { t with shadow := { t.shadow with stream }, receiver, target, written, shut } where
  length := h.length
  address := haddress
  session := hsession
  pump := h.pump
  source := h.source
  closed he := h.closed (hread.eof.symm.trans he)
  done he hb := h.done (hread.eof.symm.trans he) (hread.broken.symm.trans hb)
  sender := by
    show SenderAt header t.sent t.source t.sender stream.held stream.taken t.shadow.state
    rw [hread.held, hread.taken]
    exact h.sender
  receiver := hreceiver

/-- **Where the reader of the address has come to**: at its end it has the address, and nothing behind it was
taken. -/
theorem ReceiverAt.settle {received : Bytes} {addr : Address} (hdest : dest = some addr)
    (haddr : ∀ more, run Address.readFrom (header ++ more) = ⟨.ok addr, more, []⟩)
    (hpre : received <+: header ++ sent) {p : Async UInt8 (Except Error Address)}
    (hp : ∀ more, run p more = run Address.readFrom (received ++ more)) (hreads : Reads Error.ioError p) :
    ReceiverAt header dest none [] false received false none (Receiver.settle p) := by
  rcases hreads.cases_want with ⟨r, rfl⟩ | ⟨hwant, -⟩
  · obtain ⟨tail, htail⟩ := hpre
    have hrun := hp tail
    rw [htail, haddr, run_done] at hrun
    cases hrun
    exact .outbound addr hdest (List.append_cancel_right htail) rfl rfl rfl rfl rfl
  · have hsettle : Receiver.settle p = .readFrom p := by
      cases p with
      | done r => exact absurd hwant (Nat.lt_irrefl 0)
      | readExact n k => rfl
      | writeAll out k => rfl
    rw [hsettle]
    exact .readFrom p hp hreads hwant rfl rfl rfl rfl rfl

/-- The stream fails before the address is there. -/
theorem ReceiverAt.settle_error {received : Bytes} {ended : Bool} {failed : Option DecryptError} {e : IoError}
    (he : e = .other ∨ e = .unexpectedEof) :
    ReceiverAt header dest none [] false received ended failed (Receiver.settle (.done (.error (.ioError e)))) := by
  rcases he with rfl | rfl
  · exact .silentDrop rfl rfl rfl
  · exact .returned (Or.inl ⟨rfl, rfl, rfl⟩) nofun

/-- A poll of the reader of the address. -/
theorem Inv.receiveAddress (hK : K.Lawful) (hsalt : salt.length = K.saltLen) (h : Inv K key salt header dest t)
    {polls : List Ready} {p : Async UInt8 (Except Error Address)} (hr : t.receiver = .readFrom p)
    (hstep : t.stepReceiver K polls = some t') : Inv K key salt header dest t' ∧ t'.fifo = t.fifo := by
  obtain ⟨addr, hdest, haddr⟩ := h.address p hr
  have hrec := h.receiver
  rw [hr] at hrec
  cases hrec with
  | readFrom _ hp hreads hwant hended hfailed htarget hwritten hshut =>
    obtain ⟨lost, chunks, hs⟩ := h.session
    obtain ⟨u, stream, hu⟩ : ∃ u stream, t.shadow.stream.read K p.want polls = (u, stream) := ⟨_, _, rfl⟩
    obtain ⟨hinv, htook, -⟩ := hs.read hK hsalt hwant hended hfailed hu
    have hread : Read t.shadow.stream stream := ⟨htook.eof, htook.held, htook.taken, htook.broken⟩
    have haddress (receiver : Receiver) (q : Async UInt8 (Except Error Address)) (_ : receiver = .readFrom q) :
        ∃ addr, dest = some addr ∧ ∀ more, run Address.readFrom (header ++ more) = ⟨.ok addr, more, []⟩ :=
      ⟨addr, hdest, haddr⟩
    have hpre : stream.received <+: header ++ t.sent := by
      have hpre := hinv.carries.follows.beginning
      rw [hinv.flatten] at hpre
      refine hpre.trans ?_
      unfold Session.underway
      rw [htook.held, htook.taken]
      exact h.sender.beginning h.pump
    have hfail : ∀ e, p.fail e = Async.done (.error (.ioError e)) := by
      rcases hreads.cases_want with ⟨r, rfl⟩ | ⟨-, hfail⟩
      · exact absurd hwant (Nat.lt_irrefl 0)
      · exact hfail
    have hfifo (t' : Tunnel) (hsent : t'.sent = t.sent) (hsource : t'.source = t.source)
        (hshadow : t'.shadow.stream = stream) (hw : t'.written = t.written) (hs : t'.shut = t.shut) :
        t'.fifo = t.fifo := by
      unfold fifo
      rw [hsent, hsource, hshadow, hw, hs, hread.broken]
    unfold stepReceiver at hstep
    simp only [hr, hu] at hstep
    rcases htook.answer with ⟨b, bs, rfl, hreceived, hend, hf⟩ | ⟨rfl, hreceived, hend, hf⟩ | ⟨e, rfl, hreceived, hend, hf⟩ |
      ⟨hquiet, hreceived, hend, hf⟩
    · cases hstep
      refine ⟨h.receive hread ⟨lost, chunks, hinv⟩ (haddress _) ?_, hfifo _ rfl rfl rfl rfl rfl⟩
      rw [htarget, hwritten, hshut, hend, hf]
      refine .settle hdest haddr hpre ?_ (hreads.feed _)
      intro more
      rw [run_feed (htook.le _ rfl), hp, hreceived, List.append_assoc]
    · cases hstep
      refine ⟨h.receive hread ⟨lost, chunks, hinv⟩ (haddress _) ?_, hfifo _ rfl rfl rfl rfl rfl⟩
      rw [htarget, hwritten, hshut, hfail]
      exact .settle_error (Or.inr rfl)
    · cases hstep
      refine ⟨h.receive hread ⟨lost, chunks, hinv⟩ (haddress _) ?_, hfifo _ rfl rfl rfl rfl rfl⟩
      rw [htarget, hwritten, hshut, hfail]
      apply ReceiverAt.settle_error
      rcases hinv.failed e hf with rfl | ⟨rfl, -⟩
      · exact Or.inl rfl
      · exact Or.inr rfl
    · have hsame : t' = { t with shadow := { t.shadow with stream }, receiver := .readFrom p } := by
        rcases hquiet with rfl | rfl <;> (cases hstep; rfl)
      subst hsame
      refine ⟨h.receive hread ⟨lost, chunks, hinv⟩ (haddress _) ?_, hfifo _ rfl rfl rfl rfl rfl⟩
      exact .readFrom p (by rw [hreceived]; exact hp) hreads hwant hend hf htarget hwritten hshut

/-- Where the receiver stands while it copies. -/
theorem Inv.relaying (h : Inv K key salt header dest t) {p : Pump} (hr : t.receiver = .relay p) :
    p.WellFormed ∧ t.target = dest ∧
      (p.isLive = true → t.shadow.stream.received = header ++ t.written ++ p.holding ∧
        t.shadow.stream.ended = p.sawEnd ∧ t.shadow.stream.failed = none) ∧
      (t.shut = true → p.ask = .nothing ∧ t.shadow.stream.ended = true ∧
        t.shadow.stream.received = header ++ t.written) ∧
      header ++ t.written <+: t.shadow.stream.received := by
  have hrec := h.receiver
  rw [hr] at hrec
  cases hrec with
  | relay _ hp htarget hlive hshut hpre => exact ⟨hp, htarget, hlive, hshut, hpre⟩

/-- The relaying future goes on: what it then holds is what it has not written. -/
theorem Inv.relay (h : Inv K key salt header dest t) {stream : Session} (hread : Read t.shadow.stream stream)
    (hsession : ∃ lost chunks, stream.Inv K key salt lost chunks) {p : Pump} {written : Bytes} {shut : Bool}
    (hp : p.WellFormed) (htarget : t.target = dest)
    (hlive : p.isLive = true → stream.received = header ++ written ++ p.holding ∧ stream.ended = p.sawEnd ∧
      stream.failed = none)
    (hshut : shut = true → p.ask = .nothing ∧ stream.ended = true ∧ stream.received = header ++ written)
    (hpre : header ++ written <+: stream.received) :
    Inv K key salt header dest { t with shadow := { t.shadow with stream }, receiver := .relay p, written, shut } :=
  h.receive hread hsession nofun (.relay p hp htarget hlive hshut hpre)

theorem encryptedSize_pos : 0 < encryptedReadBufferSize K := by
  unfold encryptedReadBufferSize MAX_PACKET_SIZE
  omega

/-- The relaying future ends; what it held is lost. -/
theorem Inv.relayFailed (h : Inv K key salt header dest t) {p : Pump} (hr : t.receiver = .relay p)
    (hask : p.ask ≠ .nothing) {stream : Session} (hread : Read t.shadow.stream stream)
    (hsession : ∃ lost chunks, stream.Inv K key salt lost chunks) (hreceived : stream.received = t.shadow.stream.received)
    (e : IoError) :
    Inv K key salt header dest (relayed K { t with shadow := { t.shadow with stream } } p (.failed e)) := by
  obtain ⟨-, htarget, -, hshut, hpre⟩ := h.relaying hr
  have hdead : (p.turn (encryptedReadBufferSize K) (.failed e)).isLive = false := Pump.turn_failed hask e
  apply h.relay hread hsession (Pump.ask_of_not_live hdead).2 htarget
  · intro hlive
    exact absurd (hlive.symm.trans hdead) (by decide)
  · intro hs
    exact absurd (hshut hs).1 hask
  · rw [hreceived]
    exact hpre

/-- **A turn of the reader** for a relaying future with nothing to write. -/
theorem Inv.relayRead (hK : K.Lawful) (hsalt : salt.length = K.saltLen) (h : Inv K key salt header dest t)
    {polls : List Ready} {p : Pump} (hr : t.receiver = .relay p) {size : ℕ} (hask : p.ask = .read size)
    (hstep : t.stepReceiver K polls = some t') : Inv K key salt header dest t' ∧ t'.fifo = t.fifo := by
  obtain ⟨hp, htarget, hlive, hshut, hpre⟩ := h.relaying hr
  have hspec := Pump.ask_spec hp
  rw [hask] at hspec
  obtain ⟨hsize, hholding, hsaw, hl⟩ := hspec
  obtain ⟨hreceived, hended, hfailed⟩ := hlive hl
  rw [hholding, List.append_nil] at hreceived
  rw [hsaw] at hended
  have hnotshut : t.shut ≠ true := by
    intro hs
    have hnothing := (hshut hs).1
    rw [hask] at hnothing
    cases hnothing
  obtain ⟨lost, chunks, hs⟩ := h.session
  obtain ⟨u, stream, hu⟩ : ∃ u stream, t.shadow.stream.read K size polls = (u, stream) := ⟨_, _, rfl⟩
  obtain ⟨hinv, htook, -⟩ := hs.read hK hsalt hsize hended hfailed hu
  have hread : Read t.shadow.stream stream := ⟨htook.eof, htook.held, htook.taken, htook.broken⟩
  have hfifo (t' : Tunnel) (hsent : t'.sent = t.sent) (hsource : t'.source = t.source)
      (hshadow : t'.shadow.stream = stream) (hw : t'.written = t.written) (hs : t'.shut = t.shut) :
      t'.fifo = t.fifo := by
    unfold fifo
    rw [hsent, hsource, hshadow, hw, hs, hread.broken]
  unfold stepReceiver at hstep
  simp only [hr, hask, hu] at hstep
  have hgo (filled : Bytes) (hreceived' : stream.received = t.shadow.stream.received ++ filled)
      (hend : stream.ended = decide (filled = [])) (hf : stream.failed = none) :
      Inv K key salt header dest (relayed K { t with shadow := { t.shadow with stream } } p (.read filled)) := by
    obtain ⟨hwf, hnext, hmore, hlast⟩ := Pump.turn_read (encryptedReadBufferSize K) hp hask filled
    refine h.relay hread ⟨lost, chunks, hinv⟩ hwf htarget ?_ (fun hs => absurd hs hnotshut) ?_
    · intro hl'
      refine ⟨by rw [hreceived', hreceived, hnext], ?_, hf⟩
      by_cases hnil : filled = []
      · rw [hend, hlast hnil hl', hnil]
        rfl
      · rw [hend, (hmore hnil).2, decide_eq_false hnil]
    · rw [hreceived', hreceived]
      exact List.prefix_append _ _
  rcases htook.answer with ⟨b, bs, rfl, hreceived', hend, hf⟩ | ⟨rfl, hreceived', hend, hf⟩ |
    ⟨e, rfl, hreceived', hend, hf⟩ | ⟨hquiet, hreceived', hend, hf⟩
  · cases hstep
    exact ⟨hgo (b :: bs) hreceived' hend hf, hfifo _ rfl rfl rfl rfl rfl⟩
  · cases hstep
    exact ⟨hgo [] (by rw [hreceived', List.append_nil]) hend hf, hfifo _ rfl rfl rfl rfl rfl⟩
  · cases hstep
    refine ⟨?_, hfifo _ rfl rfl rfl rfl rfl⟩
    exact h.relayFailed hr (by rw [hask]; nofun) hread ⟨lost, chunks, hinv⟩ hreceived' _
  · have hsame : t' = { t with shadow := { t.shadow with stream }, receiver := .relay p } := by
      rcases hquiet with rfl | rfl <;> (cases hstep; rfl)
    subst hsame
    refine ⟨h.relay hread ⟨lost, chunks, hinv⟩ hp htarget ?_ (fun hs => absurd hs hnotshut) ?_,
      hfifo _ rfl rfl rfl rfl rfl⟩
    · intro _
      rw [hreceived', hreceived, hholding, List.append_nil, hsaw]
      exact ⟨rfl, hend, hf⟩
    · rw [hreceived']
      exact hpre

/-- **A write to the target** gives it the next of what was sent. -/
theorem Inv.relayWrite (h : Inv K key salt header dest t) {polls : List Ready} {p : Pump} (hr : t.receiver = .relay p)
    {buf : Bytes} (hask : p.ask = .write buf) (hstep : t.stepReceiver K polls = some t') :
    Inv K key salt header dest t' ∧ ∃ ds, (Fifo.machine UInt8).run t.fifo ds = some t'.fifo := by
  obtain ⟨hp, htarget, hlive, hshut, hpre⟩ := h.relaying hr
  have hspec := Pump.ask_spec hp
  rw [hask] at hspec
  obtain ⟨hholding, hsaw, hl⟩ := hspec
  obtain ⟨hreceived, hended, hfailed⟩ := hlive hl
  rw [hholding] at hreceived
  have hnotshut : t.shut = false := by
    by_contra hne
    have hnothing := (hshut (by simpa using hne)).1
    rw [hask] at hnothing
    cases hnothing
  unfold stepReceiver at hstep
  simp only [hr, hask] at hstep
  split at hstep
  · cases hstep
    exact ⟨h, [], rfl⟩
  · cases hstep
    exact ⟨h.relayFailed hr (by rw [hask]; nofun) (.refl _) h.session rfl _, [], rfl⟩
  · rename_i n _
    cases hstep
    obtain ⟨hwf, hnext⟩ := Pump.turn_wrote hp (encryptedSize_pos (K := K)) hask (Nat.min_le_right n buf.length)
    have htake : buf.take n ++ buf.drop (min n buf.length) = buf := by
      rcases le_total n buf.length with hle | hle
      · rw [Nat.min_eq_left hle, List.take_append_drop]
      · rw [Nat.min_eq_right hle, List.take_of_length_le hle, List.drop_length, List.append_nil]
    have hinv : Inv K key salt header dest
        (relayed K { t with written := t.written ++ buf.take n } p (.wrote (min n buf.length))) := by
      refine h.relay (.refl _) h.session hwf htarget ?_ (fun hs => absurd (hnotshut.symm.trans hs) (by decide)) ?_
      · intro hl'
        refine ⟨?_, ?_, hfailed⟩
        · rw [(hnext hl').1, hreceived, ← List.append_assoc header, List.append_assoc (header ++ t.written), htake]
        · rw [(hnext hl').2, hended, hsaw]
      · rw [hreceived, ← List.append_assoc, List.prefix_append_right_inj]
        exact List.take_prefix _ _
    refine ⟨hinv, [.receive (buf.take n)], ?_⟩
    have hok : t.fifo.received ++ buf.take n <+: t.fifo.sent ∧ t.fifo.ended = false := ⟨hinv.written_prefix, hnotshut⟩
    exact (Machine.run_singleton _ _).trans (if_pos hok)

/-- **The end**: the target is flushed, and then shut down. -/
theorem Inv.relayEnd (h : Inv K key salt header dest t) {polls : List Ready} {p : Pump} (hr : t.receiver = .relay p)
    (hask : p.ask = .flush ∨ p.ask = .shutdown) (hstep : t.stepReceiver K polls = some t') :
    Inv K key salt header dest t' ∧ ∃ ds, (Fifo.machine UInt8).run t.fifo ds = some t'.fifo := by
  obtain ⟨hp, htarget, hlive, hshut, hpre⟩ := h.relaying hr
  have hne : p.ask ≠ .nothing := by
    rcases hask with hask | hask <;> (rw [hask]; nofun)
  have hspec : p.holding = [] ∧ p.sawEnd = true ∧ p.isLive = true := by
    have hspec := Pump.ask_spec hp
    rcases hask with hask | hask <;> (rw [hask] at hspec; exact hspec)
  obtain ⟨hholding, hsaw, hl⟩ := hspec
  obtain ⟨hreceived, hended, hfailed⟩ := hlive hl
  rw [hholding, List.append_nil] at hreceived
  have hnotshut : t.shut ≠ true := fun hs => hne (hshut hs).1
  obtain ⟨hwf, hnil, hsaw'⟩ := Pump.turn_done (encryptedReadBufferSize K) hp hask
  have hfail : Inv K key salt header dest (relayed K t p (.failed .other)) ∧
      ∃ ds, (Fifo.machine UInt8).run t.fifo ds = some (relayed K t p (.failed .other)).fifo :=
    ⟨h.relayFailed hr hne (.refl _) h.session rfl _, [], rfl⟩
  have hgo (shut : Bool)
      (hs : shut = true → (p.turn (encryptedReadBufferSize K) .done).ask = .nothing) :
      Inv K key salt header dest (relayed K { t with shut } p .done) := by
    refine h.relay (.refl _) h.session hwf htarget ?_ (fun he => ⟨hs he, hended.trans hsaw, hreceived⟩) hpre
    intro _
    rw [hnil, List.append_nil]
    exact ⟨hreceived, by rw [hended, hsaw, hsaw'], hfailed⟩
  unfold stepReceiver at hstep
  rcases hask with hask | hask
  · simp only [hr, hask] at hstep
    split at hstep
    · cases hstep
      exact ⟨h, [], rfl⟩
    · cases hstep
      exact hfail
    · cases hstep
      exact ⟨hgo t.shut fun hs => absurd hs hnotshut, [], rfl⟩
  · simp only [hr, hask] at hstep
    split at hstep
    · cases hstep
      exact ⟨h, [], rfl⟩
    · cases hstep
      exact hfail
    · cases hstep
      obtain ⟨count, rfl⟩ := Pump.ask_shutdown hask
      refine ⟨hgo true fun _ => rfl, [.finish], ?_⟩
      have hok : t.fifo.broken = true ∨ (t.fifo.closed = true ∧ t.fifo.received = t.fifo.sent) := by
        rcases Bool.eq_false_or_eq_true t.shadow.stream.broken with hb | hb
        · exact Or.inl hb
        · obtain ⟨heof, hall⟩ := h.ended (hended.trans hsaw) hb
          exact Or.inr ⟨heof, List.append_cancel_left (hreceived.symm.trans hall)⟩
      exact (Machine.run_singleton _ _).trans (if_pos hok)

/-- **A poll of the receiving side** keeps the invariant, and is a step of a stream. -/
theorem Inv.stepReceiver (hK : K.Lawful) (hsalt : salt.length = K.saltLen) (h : Inv K key salt header dest t)
    {polls : List Ready} (hstep : t.stepReceiver K polls = some t') :
    Inv K key salt header dest t' ∧ ∃ ds, (Fifo.machine UInt8).run t.fifo ds = some t'.fifo := by
  have hquiet (hi : Inv K key salt header dest t' ∧ t'.fifo = t.fifo) :
      Inv K key salt header dest t' ∧ ∃ ds, (Fifo.machine UInt8).run t.fifo ds = some t'.fifo :=
    ⟨hi.1, [], by rw [hi.2]; rfl⟩
  cases hr : t.receiver with
  | readFrom p => exact hquiet (h.receiveAddress hK hsalt hr hstep)
  | relay p =>
    cases hask : p.ask with
    | read size => exact hquiet (h.relayRead hK hsalt hr hask hstep)
    | write buf => exact h.relayWrite hr hask hstep
    | flush => exact h.relayEnd hr (Or.inl hask) hstep
    | shutdown => exact h.relayEnd hr (Or.inr hask) hstep
    | nothing =>
      unfold Tunnel.stepReceiver at hstep
      simp only [hr, hask] at hstep
      cases hstep
  | outbound addr =>
    unfold Tunnel.stepReceiver at hstep
    simp only [hr] at hstep
    cases hstep
  | silentDrop e =>
    unfold Tunnel.stepReceiver at hstep
    simp only [hr] at hstep
    cases hstep
  | returned =>
    unfold Tunnel.stepReceiver at hstep
    simp only [hr] at hstep
    cases hstep

/-- Without a first packet the target is connected to alone. -/
theorem Inv.receiverTimeout (h : Inv K key salt header dest t) (hr : t.receiver = .relay .first) :
    Inv K key salt header dest { t with receiver := .relay .handshake } := by
  obtain ⟨-, htarget, hlive, hshut, hpre⟩ := h.relaying hr
  refine h.relay (.refl _) h.session Pump.wellFormed_handshake htarget (fun _ => hlive rfl) ?_ hpre
  intro hs
  cases (hshut hs).1

/-- The target is connected to. -/
theorem Inv.connect (h : Inv K key salt header dest t) {addr : Address} (hr : t.receiver = .outbound addr) {p : Pump}
    (hp : p.WellFormed) (hholding : p.holding = []) (hsaw : p.sawEnd = false) :
    Inv K key salt header dest { t with receiver := .relay p, target := some addr } := by
  have hrec := h.receiver
  rw [hr] at hrec
  cases hrec with
  | outbound _ haddr hreceived hended hfailed htarget hwritten hshut =>
    refine h.receive (.refl _) h.session nofun (.relay p hp haddr.symm ?_ ?_ ?_)
    · intro _
      rw [hreceived, hwritten, hholding, List.append_nil, List.append_nil, hsaw]
      exact ⟨rfl, hended, hfailed⟩
    · intro hs
      exact absurd (hshut.symm.trans hs) (by decide)
    · simp only [hreceived, hwritten, List.append_nil]
      exact List.prefix_rfl

/-- The receiving side gives up. -/
theorem Inv.receiverDrop (h : Inv K key salt header dest t) :
    Inv K key salt header dest { t with receiver := .returned } := by
  refine h.receive (.refl _) h.session nofun (.returned ?_ h.shut)
  have hrec := h.receiver
  generalize t.receiver = r at hrec
  cases hrec with
  | readFrom p _ _ _ _ _ htarget hw hs => exact Or.inl ⟨htarget, hw, hs⟩
  | outbound addr _ _ _ _ htarget hw hs => exact Or.inl ⟨htarget, hw, hs⟩
  | relay p _ htarget _ _ hpre => exact Or.inr ⟨htarget, hpre⟩
  | silentDrop htarget hw hs => exact Or.inl ⟨htarget, hw, hs⟩
  | returned htarget => exact htarget

/-- Nobody but the target is written to. -/
theorem Inv.target (h : Inv K key salt header dest t) : (t.target = none ∧ t.written = []) ∨ t.target = dest := by
  have hrec := h.receiver
  generalize t.receiver = r at hrec
  cases hrec with
  | readFrom p _ _ _ _ _ htarget hw => exact Or.inl ⟨htarget, hw⟩
  | outbound addr _ _ _ _ htarget hw => exact Or.inl ⟨htarget, hw⟩
  | relay p _ htarget => exact Or.inr htarget
  | silentDrop htarget hw => exact Or.inl ⟨htarget, hw⟩
  | returned htarget =>
    rcases htarget with ⟨htarget, hw, -⟩ | ⟨htarget, -⟩
    · exact Or.inl ⟨htarget, hw⟩
    · exact Or.inr htarget

/-! ## Runs -/

/-- **A step of the tunnel** keeps the invariant, and is a run of a stream. -/
theorem Inv.step (hK : K.Lawful) (hsalt : salt.length = K.saltLen) (h : Inv K key salt header dest t) {fastopen : Bool}
    {e : Event} (hstep : step K fastopen t e = some t') :
    Inv K key salt header dest t' ∧ ∃ ds, (Fifo.machine UInt8).run t.fifo ds = some t'.fifo := by
  cases e with
  | send bytes =>
    obtain ⟨hopen, hstep⟩ := Option.ite_none_left_eq_some.1 hstep
    cases hstep
    have hopen : t.source.eof = false := by simpa using hopen
    refine ⟨h.send hopen, [.send bytes], ?_⟩
    refine (Machine.run_singleton _ _).trans (if_neg ?_)
    show ¬t.source.eof = true
    rw [hopen]
    decide
  | close =>
    cases hstep
    exact ⟨h.close, [.close], rfl⟩
  | sender polls =>
    obtain ⟨hinv, hfifo⟩ := h.stepSender hstep
    exact ⟨hinv, [], by rw [hfifo]; rfl⟩
  | senderTimeout =>
    simp only [Tunnel.step] at hstep
    split at hstep
    · rename_i hfirst
      cases hstep
      exact ⟨h.senderTimeout hfirst, [], rfl⟩
    · cases hstep
  | drop n =>
    cases hstep
    exact ⟨h.dropSender n, [.cut], rfl⟩
  | receiver polls => exact h.stepReceiver hK hsalt hstep
  | receiverTimeout =>
    simp only [Tunnel.step] at hstep
    split at hstep
    · rename_i hfirst
      cases hstep
      exact ⟨h.receiverTimeout hfirst, [], rfl⟩
    · cases hstep
  | outbound ok =>
    simp only [Tunnel.step] at hstep
    split at hstep
    · rename_i addr hr
      cases ok with
      | false =>
        cases hstep
        exact ⟨h.receiverDrop, [], rfl⟩
      | true =>
        cases fastopen with
        | false =>
          cases hstep
          exact ⟨h.connect hr (Pump.wellFormed_transfer encryptedSize_pos) rfl rfl, [], rfl⟩
        | true =>
          cases hstep
          exact ⟨h.connect hr Pump.wellFormed_first rfl rfl, [], rfl⟩
    · cases hstep
  | receiverDrop =>
    cases hstep
    exact ⟨h.receiverDrop, [], rfl⟩

theorem inv_up (hsalt : salt.length = K.saltLen) {addr : Address} (hw : addr.writeToBuf = some header) (fastopen : Bool) :
    Inv K key salt header (some addr.canonical) (up K key salt addr fastopen).init where
  length := by
    obtain ⟨hlen, hle⟩ := Address.length_writeToBuf hw
    rw [hlen]
    exact hle
  address p _ := ⟨addr.canonical, rfl, fun more => Address.readFrom_ok_iff.2 ⟨rfl, addr, header, hw, rfl, rfl⟩⟩
  session := ⟨[], [], Session.inv_new hsalt⟩
  pump := Pump.wellFormed_first
  source := fun _ hsaw => by cases hsaw
  closed := nofun
  done := nofun
  sender := .connect addr hw rfl rfl rfl (Nat.zero_le _) (Or.inl rfl)
  receiver := .readFrom Address.readFrom (fun _ => rfl) Address.reads_readFrom Nat.one_pos rfl rfl rfl rfl rfl

theorem inv_down (hsalt : salt.length = K.saltLen) : Inv K key salt [] none (down K key salt).init where
  length := Nat.zero_le _
  address p hp := by cases hp
  session := ⟨[], [], Session.inv_new hsalt⟩
  pump := Pump.wellFormed_transfer size_pos
  source := fun _ hsaw => by cases hsaw
  closed := nofun
  done := nofun
  sender := .connected [] rfl rfl rfl (Or.inl rfl)
  receiver := .relay _ (Pump.wellFormed_transfer encryptedSize_pos) rfl (fun _ => ⟨rfl, rfl, rfl⟩) nofun List.prefix_rfl

/-- **A tunnel refines a stream**, on the way up and on the way down. -/
theorem up_refines (hK : K.Lawful) (hsalt : salt.length = K.saltLen) {addr : Address}
    (hw : addr.writeToBuf = some header) (fastopen : Bool) :
    (up K key salt addr fastopen).Refines (Fifo.machine UInt8) Machine.anyStep
      (Inv K key salt header (some addr.canonical)) fifo where
  init_inv := inv_up hsalt hw fastopen
  init_eq := rfl
  step _ _ _ h _ he := h.step hK hsalt he

theorem down_refines (hK : K.Lawful) (hsalt : salt.length = K.saltLen) :
    (down K key salt).Refines (Fifo.machine UInt8) Machine.anyStep (Inv K key salt [] none) fifo where
  init_inv := inv_down hsalt
  init_eq := rfl
  step _ _ _ h _ he := h.step hK hsalt he

/-- **What reaches the target**: in every run, however the two sides are polled and whatever fails, the server connects
to nobody but the address that the client was given, and what it writes there is the beginning of what the
application sent; when it shuts the target down, and the connection did not break, the application has closed and all
was written. The server never finds the client at fault. -/
theorem up_run (hK : K.Lawful) (hsalt : salt.length = K.saltLen) {addr : Address} (hw : addr.writeToBuf = some header)
    {fastopen : Bool} {es : List Event} {t : Tunnel}
    (h : (up K key salt addr fastopen).run (up K key salt addr fastopen).init es = some t) :
    (∃ ds, (Fifo.machine UInt8).run (Fifo.machine UInt8).init ds = some t.fifo) ∧
      ((t.target = none ∧ t.written = []) ∨ t.target = some addr.canonical) ∧ t.written <+: t.sent ∧
      (t.shut = true → t.shadow.stream.broken = false → t.source.eof = true ∧ t.written = t.sent) ∧
      ∀ e, t.receiver = .silentDrop e → e = .ioError .other := by
  have href : (up K key salt addr fastopen).Refines (Fifo.machine UInt8) Machine.anyStep
      (Inv K key salt header (some addr.canonical)) fifo := up_refines hK hsalt hw fastopen
  obtain ⟨hinv, hds⟩ := href.run href.init_inv (Machine.meetsFrom_anyStep es _) h
  have hreach := href.reach (Machine.Reach.run .init (Machine.meetsFrom_anyStep es _) h)
  obtain ⟨hpre, hend⟩ := Fifo.received_prefix hreach
  refine ⟨hds, hinv.target, hpre, hend, ?_⟩
  intro e he
  have hrec := hinv.receiver
  rw [he] at hrec
  cases hrec with
  | silentDrop => rfl

/-- Two bytes are sent, and the source is closed. -/
def twoBytes : List Event :=
  let ready : List Ready := [.upTo 99, .upTo 99, .upTo 99]
  [.send [8, 9], .sender ready, .sender ready, .close, .sender ready, .sender ready, .sender ready]

/-- The port 80 of 1.2.3.4. -/
def web : Address := .socketAddress (.v4 ⟨[1, 2, 3, 4], rfl⟩ 80)

theorem up_run_two_bytes :
    ∃ t, (up .marking [] [7] web false).run (up .marking [] [7] web false).init
        (twoBytes ++ List.replicate 5 (.receiver [.upTo 99, .upTo 99]) ++ [.outbound true] ++
          List.replicate 6 (.receiver [.upTo 99])) = some t ∧
      t.written = [8, 9] ∧ t.shut = true ∧ t.target = some web ∧
      (t.shut = true → t.shadow.stream.broken = false → t.source.eof = true ∧ t.written = t.sent) := by
  obtain ⟨t, hrun, hwritten, hshut, htarget⟩ : ∃ t, (up .marking [] [7] web false).run
      (up .marking [] [7] web false).init
        (twoBytes ++ List.replicate 5 (.receiver [.upTo 99, .upTo 99]) ++ [.outbound true] ++
          List.replicate 6 (.receiver [.upTo 99])) = some t ∧
      t.written = [8, 9] ∧ t.shut = true ∧ t.target = some web := ⟨_, rfl, rfl, rfl, rfl⟩
  obtain ⟨-, -, -, hend, -⟩ := up_run CipherKind.marking_lawful rfl rfl hrun
  exact ⟨t, hrun, hwritten, hshut, htarget, hend⟩

/-- **The way back**: what the application is given is the beginning of what the target sent, and, unless the
connection broke, all of it when the application is told that the target has closed. -/
theorem down_run (hK : K.Lawful) (hsalt : salt.length = K.saltLen) {es : List Event} {t : Tunnel}
    (h : (down K key salt).run (down K key salt).init es = some t) :
    (∃ ds, (Fifo.machine UInt8).run (Fifo.machine UInt8).init ds = some t.fifo) ∧ t.written <+: t.sent ∧
      (t.shut = true → t.shadow.stream.broken = false → t.source.eof = true ∧ t.written = t.sent) := by
  have href : (down K key salt).Refines (Fifo.machine UInt8) Machine.anyStep (Inv K key salt [] none) fifo :=
    down_refines hK hsalt
  obtain ⟨-, hds⟩ := href.run href.init_inv (Machine.meetsFrom_anyStep es _) h
  exact ⟨hds, Fifo.received_prefix (href.reach (Machine.Reach.run .init (Machine.meetsFrom_anyStep es _) h))⟩

theorem down_run_two_bytes :
    ∃ t, (down .marking [] [7]).run (down .marking [] [7]).init
        (twoBytes ++ List.replicate 9 (.receiver [.upTo 99, .upTo 99])) = some t ∧
      t.written = [8, 9] ∧ t.shut = true ∧
      (t.shut = true → t.shadow.stream.broken = false → t.source.eof = true ∧ t.written = t.sent) := by
  obtain ⟨t, hrun, hwritten, hshut⟩ : ∃ t, (down .marking [] [7]).run (down .marking [] [7]).init
        (twoBytes ++ List.replicate 9 (.receiver [.upTo 99, .upTo 99])) = some t ∧
      t.written = [8, 9] ∧ t.shut = true := ⟨_, rfl, rfl, rfl⟩
  obtain ⟨-, -, hend⟩ := down_run CipherKind.marking_lawful rfl hrun
  exact ⟨t, hrun, hwritten, hshut, hend⟩

end Tunnel

end Relay

end BlackButton
