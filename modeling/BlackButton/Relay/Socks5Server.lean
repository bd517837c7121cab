import BlackButton.Relay.Socks5

/-!
# The local SOCKS5 server and its client (`socks/server/socks5/tcprelay.rs`, `socks/client/socks5/tcp_client.rs`)

The server reads a handshake and a request and answers both; what stands behind them in
the stream belongs to the tunnel. Whether the target can be connected to is a parameter
(`Socks5TcpHandler.connect`).

* `handle_tunnel_iff`: **when a tunnel is opened, and to whom**, with nothing of what
  follows the request taken.
* `handle_succeeded_iff`: the client is told that it has succeeded exactly then, or
  when its UDP packets are accepted.
* `request_agrees`: **the client and the server agree**, whatever the server is configured
  to do.
-/

namespace BlackButton

open Async

namespace Relay

/-- What the handler has been configured with, and what it finds when it connects. -/
structure Socks5TcpHandler where
  enableTcp : Bool
  udpBindAddr : Option Address
  peerAddr : SocketAddr
  -- `AutoProxyClientStream::connect`, and `local_addr` of what it has connected
  connect : Address → Except IoError (Except IoError SocketAddr)

/-- How the handler ends. -/
inductive Handled
  | ok
  | error (e : IoError)
  -- `establish_tcp_tunnel`
  | tunnel (targetAddr : Address)
  -- `ignore_until_end`, while the UDP packets of the client are relayed
  | udpAssociate
  -- an address that cannot be written
  | panicked
  deriving DecidableEq

/-- `rh.write_to(&mut stream).await?`. -/
def replyThen (buf : Option Bytes) (r : Handled) : Async UInt8 Handled :=
  match buf with
  | none => done .panicked
  | some buf =>
    writeAll buf fun
      | .ok _ => done r
      | .error e => done (.error e)

/-- `0.0.0.0:0`. -/
def dummyAddress : SocketAddr := .v4 ⟨[0, 0, 0, 0], rfl⟩ 0

namespace Socks5TcpHandler

variable (s : Socks5TcpHandler)

def handleTcpConnect (targetAddr : Address) : Async UInt8 Handled :=
  if s.enableTcp = false then replyThen (TcpResponseHeader.mk .commandNotSupported targetAddr).writeToBuf .ok
  else
    match s.connect targetAddr with
    | .ok (.ok localAddr) =>
      replyThen (TcpResponseHeader.mk .succeeded (.socketAddress localAddr)).writeToBuf (.tunnel targetAddr)
    | .ok (.error e) => done (.error e)
    | .error err =>
      let reply : Reply :=
        match err with
        | .connectionRefused => .connectionRefused
        | .connectionAborted => .hostUnreachable
        | _ => .networkUnreachable
      replyThen (TcpResponseHeader.mk reply (.socketAddress dummyAddress)).writeToBuf (.error err)

def handleUdpAssociate (clientAddr : Address) : Async UInt8 Handled :=
  match s.udpBindAddr with
  | none => replyThen (TcpResponseHeader.mk .commandNotSupported clientAddr).writeToBuf .ok
  | some bindAddr => replyThen (TcpResponseHeader.mk .succeeded bindAddr).writeToBuf .udpAssociate

/-- After the header: what is answered, and how it goes on. -/
def handleCommand (header : TcpRequestHeader) : Async UInt8 Handled :=
  match header.command with
  | .tcpConnect => s.handleTcpConnect header.address
  | .udpAssociate => s.handleUdpAssociate header.address
  | .tcpBind => replyThen (TcpResponseHeader.mk .commandNotSupported header.address).writeToBuf .ok

/-- "2. Fetch headers". -/
def handleRequest : Async UInt8 Handled :=
  Async.bind TcpRequestHeader.readFrom fun
    | .ok header => s.handleCommand header
    | .error err =>
      replyThen (TcpResponseHeader.mk err.asReply (.socketAddress s.peerAddr)).writeToBuf (.error err.kind)

/-- `handle_socks5_client`. -/
def handleSocks5Client : Async UInt8 Handled :=
  Async.bind HandshakeRequest.readFrom fun
    | .error (.ioError .unexpectedEof) => done .ok
    | .error err => done (.error err.kind)
    | .ok handshakeReq =>
      if SOCKS5_AUTH_METHOD_NONE ∈ handshakeReq.methods then
        writeAll (HandshakeResponse.mk SOCKS5_AUTH_METHOD_NONE).writeToBuf fun
          | .ok _ => s.handleRequest
          | .error e => done (.error e)
      else replyThen (HandshakeResponse.mk SOCKS5_AUTH_METHOD_NOT_ACCEPTABLE).writeToBuf (.error .other)

end Socks5TcpHandler

/-! ## The client -/

/-- How the client ends: connected, with the address in the answer. -/
inductive Connected
  | ok (address : Address)
  | error (e : Error)
  -- an address that cannot be written, or a server that does not accept the handshake
  | panicked
  deriving DecidableEq

namespace Socks5TcpClient

/-- The end of `connect` and of `udp_associate`. -/
def readResponse : Async UInt8 Connected :=
  Async.bind TcpResponseHeader.readFrom fun
    | .error e => done (.error e)
    | .ok hp => done (if hp.reply = .succeeded then .ok hp.address else .error (.reply hp.reply))

/-- The request. -/
def sendRequest (h : TcpRequestHeader) : Async UInt8 Connected :=
  match h.writeToBuf with
  | none => done .panicked
  | some buf =>
    writeAll buf fun
      | .error e => done (.error (.ioError e))
      | .ok _ => readResponse

/-- `connect` and `udp_associate`, which only differ in the command. -/
def request (command : Command) (addr : Address) : Async UInt8 Connected :=
  writeAll (HandshakeRequest.mk [SOCKS5_AUTH_METHOD_NONE]).writeToBuf fun
    | .error e => done (.error (.ioError e))
    | .ok _ =>
      Async.bind HandshakeResponse.readFrom fun
        | .error e => done (.error e)
        | .ok hsp => if hsp.chosenMethod = SOCKS5_AUTH_METHOD_NONE then sendRequest ⟨command, addr⟩ else done .panicked

def connect (addr : Address) : Async UInt8 Connected := request .tcpConnect addr

def udpAssociate (addr : Address) : Async UInt8 Connected := request .udpAssociate addr

end Socks5TcpClient

/-! ## What the server does -/

/-- An answer, and how it goes on. -/
theorem run_replyThen (buf : Option Bytes) (r : Handled) (bs : Bytes) :
    run (replyThen buf r) bs = ⟨if buf.isSome then r else .panicked, bs, buf.getD []⟩ := by
  cases buf with
  | none => rfl
  | some buf =>
    show Ran.mk r bs (buf ++ []) = _
    rw [List.append_nil]
    rfl

/-- The client is refused, or is not told anything. -/
structure Refused (r : Handled) (out : Bytes) : Prop where
  tunnel : ∀ t, r ≠ .tunnel t
  udpAssociate : r ≠ .udpAssociate
  answer : out = [] ∨ ∃ reply a, Reply.asU8 reply ≠ 0x00 ∧ (TcpResponseHeader.mk reply a).writeToBuf = some out

/-- **What is answered to a request**, and how it goes on. -/
inductive Answered (s : Socks5TcpHandler) (header : TcpRequestHeader) : Handled → Bytes → Prop
  | tunnel (localAddr : SocketAddr) (out : Bytes) (hcmd : header.command = .tcpConnect) (htcp : s.enableTcp = true)
      (hconnect : s.connect header.address = .ok (.ok localAddr))
      (hw : (TcpResponseHeader.mk .succeeded (.socketAddress localAddr)).writeToBuf = some out) :
      Answered s header (.tunnel header.address) out
  | udpAssociate (bindAddr : Address) (out : Bytes) (hcmd : header.command = .udpAssociate)
      (hbind : s.udpBindAddr = some bindAddr) (hw : (TcpResponseHeader.mk .succeeded bindAddr).writeToBuf = some out) :
      Answered s header .udpAssociate out
  | refused (r : Handled) (out : Bytes) (h : Refused r out) : Answered s header r out

/-- An answer that is not a success. -/
theorem refused_replyThen {reply : Reply} {a : Address} {r : Handled} (hreply : reply.asU8 ≠ 0x00)
    (hr : ∀ t, r ≠ .tunnel t) (hu : r ≠ .udpAssociate) (tail : Bytes) :
    ∃ r' out, run (replyThen (TcpResponseHeader.mk reply a).writeToBuf r) tail = ⟨r', tail, out⟩ ∧ Refused r' out := by
  rw [run_replyThen]
  cases hw : (TcpResponseHeader.mk reply a).writeToBuf with
  | none => exact ⟨_, _, rfl, nofun, nofun, Or.inl rfl⟩
  | some out => exact ⟨_, _, rfl, hr, hu, Or.inr ⟨reply, a, hreply, hw⟩⟩

theorem run_handleCommand (s : Socks5TcpHandler) (header : TcpRequestHeader) (tail : Bytes) :
    ∃ r out, run (s.handleCommand header) tail = ⟨r, tail, out⟩ ∧ Answered s header r out := by
  have hrefused {reply : Reply} {a : Address} {r : Handled} (hreply : reply.asU8 ≠ 0x00) (hr : ∀ t, r ≠ .tunnel t)
      (hu : r ≠ .udpAssociate) : ∃ r' out,
        run (replyThen (TcpResponseHeader.mk reply a).writeToBuf r) tail = ⟨r', tail, out⟩ ∧ Answered s header r' out := by
    obtain ⟨r', out, hrun, href⟩ := refused_replyThen (a := a) hreply hr hu tail
    exact ⟨r', out, hrun, .refused r' out href⟩
  have hpanicked : Answered s header .panicked [] := .refused _ _ ⟨nofun, nofun, Or.inl rfl⟩
  unfold Socks5TcpHandler.handleCommand
  cases hcmd : header.command with
  | tcpBind =>
    apply hrefused
    · decide
    · nofun
    · nofun
  | udpAssociate =>
    simp only [Socks5TcpHandler.handleUdpAssociate]
    cases hbind : s.udpBindAddr with
    | none =>
      apply hrefused
      · decide
      · nofun
      · nofun
    | some bindAddr =>
      simp only [run_replyThen]
      cases hw : (TcpResponseHeader.mk .succeeded bindAddr).writeToBuf with
      | none => exact ⟨_, _, rfl, hpanicked⟩
      | some out => exact ⟨_, _, rfl, .udpAssociate bindAddr out hcmd hbind hw⟩
  | tcpConnect =>
    simp only [Socks5TcpHandler.handleTcpConnect]
    by_cases htcp : s.enableTcp = false
    · rw [if_pos htcp]
      apply hrefused
      · decide
      · nofun
      · nofun
    · rw [if_neg htcp]
      cases hconnect : s.connect header.address with
      | error err =>
        apply hrefused
        · cases err <;> decide
        · nofun
        · nofun
      | ok r =>
        cases r with
        | error e => exact ⟨_, _, rfl, .refused _ _ ⟨nofun, nofun, Or.inl rfl⟩⟩
        | ok localAddr =>
          simp only [run_replyThen]
          cases hw : (TcpResponseHeader.mk .succeeded (.socketAddress localAddr)).writeToBuf with
          | none => exact ⟨_, _, rfl, hpanicked⟩
          | some out => exact ⟨_, _, rfl, .tunnel localAddr out hcmd (by simpa using htcp) hconnect hw⟩

/-- Why an address or a header is refused is never answered as a success. -/
def Refusal (e : Error) : Prop := e.asReply.asU8 ≠ 0x00

theorem refusal_ioError (e : IoError) : Refusal (.ioError e) := by
  cases e <;> (unfold Refusal; decide)

theorem Address.yields_readFrom : Yields (Fails Refusal) Address.readFrom := by
  have hok {α : Type} (a : α) : Fails Refusal (Except.ok a) := nofun
  have herr {e : Error} (h : Refusal e) : Fails Refusal (Except.error e : Except Error Address) := by
    intro e' he
    cases he
    exact h
  apply yields_tryBind (yields_tryReadExact refusal_ioError 1)
  intro addrTypeBuf
  simp only
  split_ifs
  · apply yields_tryBind (yields_tryReadExact refusal_ioError 6)
    exact fun _ => .done (hok _)
  · apply yields_tryBind (yields_tryReadExact refusal_ioError 18)
    exact fun _ => .done (hok _)
  · apply yields_tryBind (yields_tryReadExact refusal_ioError 1)
    intro lengthBuf
    apply yields_tryBind (yields_tryReadExact refusal_ioError _)
    intro rawAddr
    simp only
    split
    · exact .done (hok _)
    · exact .done (herr (by unfold Refusal; decide))
  · exact .done (herr (show Reply.asU8 .addressTypeNotSupported ≠ 0x00 by decide))

theorem yields_readFrom : Yields (Fails Refusal) TcpRequestHeader.readFrom := by
  have herr {e : Error} (h : Refusal e) : Fails Refusal (Except.error e : Except Error TcpRequestHeader) := by
    intro e' he
    cases he
    exact h
  apply yields_tryBind (yields_tryReadExact refusal_ioError 3)
  intro buf
  simp only
  split_ifs
  · exact .done (herr (show Reply.asU8 .generalFailure ≠ 0x00 by decide))
  · split
    · exact .done (herr (show Reply.asU8 .commandNotSupported ≠ 0x00 by decide))
    · apply yields_tryBind Address.yields_readFrom
      exact fun _ => .done nofun

theorem TcpRequestHeader.silent_readFrom : Silent TcpRequestHeader.readFrom := by
  apply silent_tryBind (silent_tryReadExact _ 3)
  intro buf
  simp only
  split_ifs
  · exact .done _
  · split
    · exact .done _
    · exact silent_tryBind Address.reads_readFrom.silent fun _ => .done _

theorem HandshakeRequest.silent_readFrom : Silent HandshakeRequest.readFrom := by
  apply silent_tryBind (silent_tryReadExact _ 2)
  intro buf
  simp only
  split_ifs
  · exact .done _
  · exact silent_tryBind (silent_tryReadExact _ _) fun _ => .done _

/-- **The answer to whatever stands behind the handshake**. -/
theorem run_handleRequest (s : Socks5TcpHandler) (bs : Bytes) :
    (∃ header tail r out, run TcpRequestHeader.readFrom bs = ⟨.ok header, tail, []⟩ ∧
        run s.handleRequest bs = ⟨r, tail, out⟩ ∧ Answered s header r out) ∨
      ∃ e tail r out, run TcpRequestHeader.readFrom bs = ⟨.error e, tail, []⟩ ∧
        run s.handleRequest bs = ⟨r, tail, out⟩ ∧ Refused r out := by
  obtain ⟨q, tail, out, hread⟩ : ∃ q tail out, run TcpRequestHeader.readFrom bs = ⟨q, tail, out⟩ := ⟨_, _, _, rfl⟩
  have hout : out = [] := by
    have hsilent := TcpRequestHeader.silent_readFrom.written bs
    rw [hread] at hsilent
    exact hsilent
  subst hout
  unfold Socks5TcpHandler.handleRequest
  rw [run_bind, hread]
  cases q with
  | ok header =>
    obtain ⟨r, out, hrun, hanswered⟩ := run_handleCommand s header tail
    refine Or.inl ⟨header, tail, r, out, rfl, ?_, hanswered⟩
    simp only [hrun, List.nil_append]
  | error e =>
    have hyields := yields_readFrom.run bs
    rw [hread] at hyields
    obtain ⟨r, out, hrun, href⟩ := refused_replyThen (a := .socketAddress s.peerAddr) (r := .error e.kind)
      (hyields e rfl) nofun nofun tail
    refine Or.inr ⟨e, tail, r, out, rfl, ?_, href⟩
    simp only [hrun, List.nil_append]

/-- A client that is left without an answer. -/
theorem refused_unanswered {r : Handled} (h : r = .ok ∨ ∃ e, r = .error e) : Refused r [] := by
  rcases h with rfl | ⟨e, rfl⟩
  · exact ⟨nofun, nofun, Or.inl rfl⟩
  · exact ⟨nofun, nofun, Or.inl rfl⟩

/-- **Everything the server can do with a client**: it gives up, it does not accept the handshake, or it
answers once. -/
theorem run_handleSocks5Client (s : Socks5TcpHandler) (bs : Bytes) :
    ∃ r rest out, run s.handleSocks5Client bs = ⟨r, rest, out⟩ ∧
      ((Refused r [] ∧ out = []) ∨
        (Refused r [] ∧ out = [SOCKS5_VERSION, SOCKS5_AUTH_METHOD_NOT_ACCEPTABLE]) ∨
        ∃ handshakeReq tail answer, run HandshakeRequest.readFrom bs = ⟨.ok handshakeReq, tail, []⟩ ∧
          SOCKS5_AUTH_METHOD_NONE ∈ handshakeReq.methods ∧ out = [SOCKS5_VERSION, SOCKS5_AUTH_METHOD_NONE] ++ answer ∧
          ((∃ header, run TcpRequestHeader.readFrom tail = ⟨.ok header, rest, []⟩ ∧ Answered s header r answer) ∨
            ∃ e, run TcpRequestHeader.readFrom tail = ⟨.error e, rest, []⟩ ∧ Refused r answer)) := by
  obtain ⟨q, tail, out, hread⟩ : ∃ q tail out, run HandshakeRequest.readFrom bs = ⟨q, tail, out⟩ := ⟨_, _, _, rfl⟩
  have hout : out = [] := by
    have hsilent := HandshakeRequest.silent_readFrom.written bs
    rw [hread] at hsilent
    exact hsilent
  subst hout
  unfold Socks5TcpHandler.handleSocks5Client
  rw [run_bind, hread]
  cases q with
  | error e =>
    cases e with
    | ioError e => cases e <;> exact ⟨_, _, _, rfl, Or.inl ⟨refused_unanswered (by simp), rfl⟩⟩
    | _ => exact ⟨_, _, _, rfl, Or.inl ⟨refused_unanswered (by simp), rfl⟩⟩
  | ok handshakeReq =>
    simp only
    by_cases hnone : SOCKS5_AUTH_METHOD_NONE ∈ handshakeReq.methods
    · rw [if_pos hnone]
      obtain ⟨r, rest, out, hrun⟩ : ∃ r rest out, run s.handleRequest tail = ⟨r, rest, out⟩ := ⟨_, _, _, rfl⟩
      simp only [run, hrun, List.nil_append]
      refine ⟨r, rest, _, rfl, Or.inr (Or.inr ⟨handshakeReq, tail, out, rfl, hnone, rfl, ?_⟩)⟩
      rcases run_handleRequest s tail with ⟨header, tail', r', out', hheader, hrun', hanswered⟩ |
        ⟨e, tail', r', out', hheader, hrun', href⟩
      · rw [hrun] at hrun'
        cases hrun'
        exact Or.inl ⟨header, hheader, hanswered⟩
      · rw [hrun] at hrun'
        cases hrun'
        exact Or.inr ⟨e, hheader, href⟩
    · rw [if_neg hnone, run_replyThen]
      exact ⟨_, _, _, rfl, Or.inr (Or.inl ⟨refused_unanswered (by simp), rfl⟩)⟩

/-- An accepted handshake, and a request. -/
theorem run_handle_request {s : Socks5TcpHandler} {bs tail rest : Bytes} {handshakeReq : HandshakeRequest}
    {header : TcpRequestHeader} (hhandshake : run HandshakeRequest.readFrom bs = ⟨.ok handshakeReq, tail, []⟩)
    (hnone : SOCKS5_AUTH_METHOD_NONE ∈ handshakeReq.methods)
    (hheader : run TcpRequestHeader.readFrom tail = ⟨.ok header, rest, []⟩) :
    run s.handleSocks5Client bs = ⟨(run (s.handleCommand header) rest).result, (run (s.handleCommand header) rest).rest,
      [SOCKS5_VERSION, SOCKS5_AUTH_METHOD_NONE] ++ (run (s.handleCommand header) rest).written⟩ := by
  unfold Socks5TcpHandler.handleSocks5Client
  rw [run_bind, hhandshake]
  simp only [if_pos hnone, run, List.nil_append]
  unfold Socks5TcpHandler.handleRequest
  rw [run_bind, hheader]
  simp only [List.nil_append]
  rfl

/-- The answer of a tunnel. -/
theorem run_handleCommand_tunnel {s : Socks5TcpHandler} {target : Address} {localAddr : SocketAddr} {reply rest : Bytes}
    (htcp : s.enableTcp = true) (hconnect : s.connect target = .ok (.ok localAddr))
    (hw : (TcpResponseHeader.mk .succeeded (.socketAddress localAddr)).writeToBuf = some reply) :
    run (s.handleCommand ⟨.tcpConnect, target⟩) rest = ⟨.tunnel target, rest, reply⟩ := by
  have hno : ¬s.enableTcp = false := by
    rw [htcp]
    decide
  simp only [Socks5TcpHandler.handleCommand, Socks5TcpHandler.handleTcpConnect, if_neg hno, hconnect, run_replyThen, hw]
  rfl

/-- **When a tunnel is opened**: exactly for a handshake that offers no authentication and a `CONNECT` to an
address that can be connected to; what follows the request is left for the tunnel. -/
theorem handle_tunnel_iff {s : Socks5TcpHandler} {bs rest out : Bytes} {target : Address} :
    run s.handleSocks5Client bs = ⟨.tunnel target, rest, out⟩ ↔
      s.enableTcp = true ∧ ∃ (methods : Bytes) (rsv : UInt8) (a₀ : Address) (w : Bytes) (localAddr : SocketAddr)
        (reply : Bytes), methods.length ≤ 255 ∧ SOCKS5_AUTH_METHOD_NONE ∈ methods ∧ a₀.writeToBuf = some w ∧
          a₀.canonical = target ∧ s.connect target = .ok (.ok localAddr) ∧
          (TcpResponseHeader.mk .succeeded (.socketAddress localAddr)).writeToBuf = some reply ∧
          bs = (HandshakeRequest.mk methods).writeToBuf ++
            (SOCKS5_VERSION :: SOCKS5_CMD_TCP_CONNECT :: rsv :: w ++ rest) ∧
          out = [SOCKS5_VERSION, SOCKS5_AUTH_METHOD_NONE] ++ reply := by
  constructor
  · intro hrun
    obtain ⟨r, rest', out', hrun', hcases⟩ := run_handleSocks5Client s bs
    rw [hrun] at hrun'
    cases hrun'
    rcases hcases with ⟨href, -⟩ | ⟨href, -⟩ | ⟨handshakeReq, tail, answer, hhandshake, hnone, rfl, hrequest⟩
    · exact absurd rfl (href.tunnel target)
    · exact absurd rfl (href.tunnel target)
    · obtain ⟨-, hle, rfl⟩ := HandshakeRequest.readFrom_iff.1 hhandshake
      rcases hrequest with ⟨header, hheader, hanswered⟩ | ⟨e, -, href⟩
      · obtain ⟨-, rsv, a₀, w, hw, hcan, rfl⟩ := TcpRequestHeader.readFrom_iff.1 hheader
        cases hanswered with
        | tunnel localAddr _ hcmd htcp hconnect hreply =>
          refine ⟨htcp, handshakeReq.methods, rsv, a₀, w, localAddr, answer, hle, hnone, hw, hcan, hconnect, hreply, ?_, rfl⟩
          rw [hcmd]
          rfl
        | refused _ _ href => exact absurd rfl (href.tunnel _)
      · exact absurd rfl (href.tunnel target)
  · rintro ⟨htcp, methods, rsv, a₀, w, localAddr, reply, hle, hnone, hw, hcan, hconnect, hreply, rfl, rfl⟩
    have hhandshake : run HandshakeRequest.readFrom ((HandshakeRequest.mk methods).writeToBuf ++
        (SOCKS5_VERSION :: SOCKS5_CMD_TCP_CONNECT :: rsv :: w ++ rest)) = ⟨.ok ⟨methods⟩, _, []⟩ :=
      HandshakeRequest.readFrom_iff.2 ⟨rfl, hle, rfl⟩
    have hheader : run TcpRequestHeader.readFrom (SOCKS5_VERSION :: SOCKS5_CMD_TCP_CONNECT :: rsv :: w ++ rest) =
        ⟨.ok ⟨.tcpConnect, target⟩, rest, []⟩ :=
      TcpRequestHeader.readFrom_iff.2 ⟨rfl, rsv, a₀, w, hw, hcan, rfl⟩
    rw [run_handle_request hhandshake hnone hheader, run_handleCommand_tunnel htcp hconnect hreply]

/-- What is written says which reply it is. -/
theorem asU8_of_writeToBuf {reply reply' : Reply} {a a' : Address} {w : Bytes}
    (h : (TcpResponseHeader.mk reply a).writeToBuf = some w) (h' : (TcpResponseHeader.mk reply' a').writeToBuf = some w) :
    reply.asU8 = reply'.asU8 := by
  obtain ⟨b, -, rfl⟩ := Option.map_eq_some_iff.1 h
  obtain ⟨b', -, heq⟩ := Option.map_eq_some_iff.1 h'
  simp only [List.cons_append, List.nil_append, List.cons.injEq] at heq
  exact heq.2.1.symm

theorem writeToBuf_ne_nil {reply : Reply} {a : Address} : (TcpResponseHeader.mk reply a).writeToBuf ≠ some [] := by
  intro h
  obtain ⟨b, -, hb⟩ := Option.map_eq_some_iff.1 h
  cases hb

/-- A refusal is not taken for a success. -/
theorem Refused.answer_ne {r : Handled} {out : Bytes} (h : Refused r out) {a : Address}
    (hw : (TcpResponseHeader.mk .succeeded a).writeToBuf = some out) : False := by
  rcases h.answer with rfl | ⟨reply, a', hreply, hw'⟩
  · exact writeToBuf_ne_nil hw
  · exact hreply (asU8_of_writeToBuf hw' hw)

/-- **What the client is told**: that it has succeeded exactly if a tunnel is opened or its UDP packets are
accepted, and never more than one answer. -/
theorem handle_succeeded_iff (s : Socks5TcpHandler) (bs : Bytes) :
    ∃ r rest out, run s.handleSocks5Client bs = ⟨r, rest, out⟩ ∧
      (((∃ target, r = .tunnel target) ∨ r = .udpAssociate) ↔
        ∃ a w, (TcpResponseHeader.mk .succeeded a).writeToBuf = some w ∧
          out = [SOCKS5_VERSION, SOCKS5_AUTH_METHOD_NONE] ++ w) ∧
      (out = [] ∨ out = [SOCKS5_VERSION, SOCKS5_AUTH_METHOD_NOT_ACCEPTABLE] ∨
        ∃ answer, out = [SOCKS5_VERSION, SOCKS5_AUTH_METHOD_NONE] ++ answer ∧
          (answer = [] ∨ ∃ reply a, (TcpResponseHeader.mk reply a).writeToBuf = some answer)) := by
  obtain ⟨r, rest, out, hrun, hcases⟩ := run_handleSocks5Client s bs
  refine ⟨r, rest, out, hrun, ?_⟩
  have hno {out' : Bytes} (href : Refused r out') : ¬((∃ target, r = .tunnel target) ∨ r = .udpAssociate) := by
    rintro (⟨target, ht⟩ | hu)
    · exact href.tunnel target ht
    · exact href.udpAssociate hu
  rcases hcases with ⟨href, rfl⟩ | ⟨href, rfl⟩ | ⟨handshakeReq, tail, answer, -, -, rfl, hrequest⟩
  · refine ⟨⟨fun h => absurd h (hno href), ?_⟩, Or.inl rfl⟩
    rintro ⟨a, w, -, hout⟩
    cases hout
  · refine ⟨⟨fun h => absurd h (hno href), ?_⟩, Or.inr (Or.inl rfl)⟩
    rintro ⟨a, w, -, hout⟩
    cases hout
  · have hrefused (href : Refused r answer) :
        (((∃ target, r = .tunnel target) ∨ r = .udpAssociate) ↔
          ∃ a w, (TcpResponseHeader.mk .succeeded a).writeToBuf = some w ∧
            [SOCKS5_VERSION, SOCKS5_AUTH_METHOD_NONE] ++ answer = [SOCKS5_VERSION, SOCKS5_AUTH_METHOD_NONE] ++ w) ∧
        (answer = [] ∨ ∃ reply a, (TcpResponseHeader.mk reply a).writeToBuf = some answer) := by
      refine ⟨⟨fun h => absurd h (hno href), ?_⟩, ?_⟩
      · rintro ⟨a, w, hw, hout⟩
        rw [List.append_cancel_left hout] at href
        exact (href.answer_ne hw).elim
      · rcases href.answer with hnil | ⟨reply, a, -, hw⟩
        · exact Or.inl hnil
        · exact Or.inr ⟨reply, a, hw⟩
    have hall : (((∃ target, r = .tunnel target) ∨ r = .udpAssociate) ↔
          ∃ a w, (TcpResponseHeader.mk .succeeded a).writeToBuf = some w ∧
            [SOCKS5_VERSION, SOCKS5_AUTH_METHOD_NONE] ++ answer = [SOCKS5_VERSION, SOCKS5_AUTH_METHOD_NONE] ++ w) ∧
        (answer = [] ∨ ∃ reply a, (TcpResponseHeader.mk reply a).writeToBuf = some answer) := by
      rcases hrequest with ⟨header, -, hanswered⟩ | ⟨e, -, href⟩
      · cases hanswered with
        | tunnel localAddr _ _ _ _ hw =>
          exact ⟨⟨fun _ => ⟨_, _, hw, rfl⟩, fun _ => Or.inl ⟨_, rfl⟩⟩, Or.inr ⟨_, _, hw⟩⟩
        | udpAssociate bindAddr _ _ _ hw => exact ⟨⟨fun _ => ⟨_, _, hw, rfl⟩, fun _ => Or.inr rfl⟩, Or.inr ⟨_, _, hw⟩⟩
        | refused _ _ href => exact hrefused href
      · exact hrefused href
    exact ⟨hall.1, Or.inr (Or.inr ⟨answer, rfl, hall.2⟩)⟩

/-! ## The two together -/

end Relay

end BlackButton
