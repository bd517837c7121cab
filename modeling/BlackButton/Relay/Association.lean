import Mathlib.Data.List.Forall2
import Mathlib.Logic.Function.Basic
import BlackButton.Lib.Machine
import BlackButton.Relay.Packet

/-!
# UDP associations (`local/net/udp/association.rs`)

The packets of one client go through an association. One task takes them from a queue and
sends them, to the server or (bypassed) to where they are meant; it opens a socket when
there is none. Each socket has a task that receives the answers for the client. When the
association is dropped its sockets are aborted, one after the other, while the tasks
go on until they come to an `await`.

* `step_spec`: **everything a step can do** (`Stepped`).
* `run_forwards`: **what is sent is what was accepted**, in this order, each packet at most once.
* `run_answers`: what is handed to the client is what arrived, each packet at most once.
* `run_owned`: a receiving task that is not aborted is the one that a connected socket has.
* `run_closed`, `run_leaks`: after the drop no task is left, unless a socket is reset
  afterwards; what is left then is left for good.
-/

namespace BlackButton

open Async

namespace Relay

namespace Association

/-- `bypassed_ipv4_socket`, `bypassed_ipv6_socket` and `proxied_socket`. -/
inductive Kind
  | bypassedIpv4
  | bypassedIpv6
  | proxied
  deriving DecidableEq

/-- `UdpAssociationBypassState` and `UdpAssociationProxyState`. A connected socket has the number of the task that
receives on it. -/
inductive SocketState
  | empty
  | connected (task : ℕ)
  | aborted
  deriving DecidableEq

/-- A task that receives: `abort` has been called, it has ended, or `recv` has failed and the socket is to be
reset. -/
structure Task where
  kind : Kind
  aborted : Bool
  ended : Bool
  failing : Bool
  deriving DecidableEq

/-- The sockets of an association, and all the tasks that were spawned for them. -/
structure Sockets where
  state : Kind → SocketState
  tasks : List Task

namespace Sockets

def empty : Sockets := ⟨fun _ => .empty, []⟩

/-- `abort_inner`, and the `Drop` of `UdpAssociationBypassState`. -/
def abortInner (s : Sockets) (k : Kind) : Sockets :=
  match s.state k with
  | .connected t => { s with tasks := s.tasks.modify t fun x => { x with aborted := true } }
  | .empty => s
  | .aborted => s

/-- `abort`. -/
def abort (s : Sockets) (k : Kind) : Sockets :=
  let s := s.abortInner k
  { s with state := Function.update s.state k .aborted }

/-- `UdpAssociationProxyState::reset`. -/
def reset (s : Sockets) : Sockets :=
  let s := s.abortInner .proxied
  { s with state := Function.update s.state .proxied .empty }

/-- The receiving task is spawned, and `set_connected`; the state is `Empty` then. -/
def setConnected (s : Sockets) (k : Kind) : Sockets where
  state := Function.update s.state k (.connected s.tasks.length)
  tasks := s.tasks ++ [⟨k, false, false, false⟩]

def modifyTask (s : Sockets) (t : ℕ) (f : Task → Task) : Sockets := { s with tasks := s.tasks.modify t f }

end Sockets

/-- An element of the channel: the target and the data. -/
abbrev Packet := Address × Bytes

/-- Where `copy_l2r` stands. -/
inductive L2r
  | waiting
  -- the loop of `lookup_then!`, before the lock: the addresses that are left
  | bypassing (addrs : List SocketAddr) (packet : Packet)
  | sendingTo (task : ℕ) (addr : SocketAddr) (addrs : List SocketAddr) (packet : Packet)
  -- the loop of `copy_proxied_l2r`, before the lock
  | proxying (tried : ℕ) (packet : Packet)
  | sending (tried : ℕ) (task : ℕ) (packet : Packet)
  -- the send has failed, and the socket is to be reset
  | resetting (tried : ℕ) (packet : Packet)
  -- the channel is closed, or the task has panicked
  | returned
  deriving DecidableEq

/-- The packet that is being relayed. -/
def L2r.hand : L2r → List Packet
  | waiting => []
  | bypassing _ p => [p]
  | sendingTo _ _ _ p => [p]
  | proxying _ p => [p]
  | sending _ _ p => [p]
  | resetting _ p => [p]
  | returned => []

/-- What is put on a socket. -/
inductive Sent
  | bypassed (addr : SocketAddr) (data : Bytes)
  | proxied (packet : Bytes)
  deriving DecidableEq

/-- What is received on a socket. -/
inductive Arrival
  | datagram (source : SocketAddr) (data : Bytes)
  | packet (packet : Bytes)
  deriving DecidableEq

end Association

open Association

/-- `UdpAssociation` and its `UdpAssociationContext`. -/
structure Association where
  queue : List Packet
  -- what the `Drop` of `UdpAssociation` has still to abort; the sender is dropped after all
  dropping : Option (List Kind)
  l2r : L2r
  sockets : Sockets
  -- what was put into the channel, sent, received, and handed to the client
  accepted : List Packet
  -- what was looked up for the target of a packet
  resolved : List (Packet × List SocketAddr)
  sent : List Sent
  arrived : List Arrival
  delivered : List Bytes

namespace Association

/-- `UdpAssociation::new`. -/
def new : Association := ⟨[], none, .waiting, .empty, [], [], [], [], []⟩

/-- The capacity of the channel. -/
def CAPACITY : ℕ := 1024

/-- `try_send`: "udp relay channel full", also if the receiver is gone. -/
def trySend (s : Association) (p : Packet) : Option Association :=
  if s.dropping ≠ none then none
  else if s.l2r ≠ .returned ∧ s.queue.length < CAPACITY then
    some { s with queue := s.queue ++ [p], accepted := s.accepted ++ [p] }
  else some s

/-- The `Drop` of `UdpAssociation` begins. -/
def drop (s : Association) : Option Association :=
  if s.dropping = none then some { s with dropping := some [.bypassedIpv4, .bypassedIpv6, .proxied] } else none

/-- It goes on. -/
def abortNext (s : Association) : Option Association :=
  match s.dropping with
  | some (k :: ks) => some { s with sockets := s.sockets.abort k, dropping := some ks }
  | _ => none

/-- The start of `copy_bypassed_l2r`; `looked` is what `dns_resolve` gives. -/
def copyBypassedL2r (p : Packet) (looked : Option (List SocketAddr)) : L2r :=
  match p.1 with
  | .socketAddress sa => .bypassing [sa] p
  | .domainNameAddress _ _ =>
    match looked with
    | none => .waiting
    -- "resolved empty address"
    | some [] => .returned
    | some (addr :: addrs) => .bypassing (addr :: addrs) p

/-- The lookup of `copy_bypassed_l2r`, if there is one that succeeds. -/
def resolvedBy (p : Packet) (looked : Option (List SocketAddr)) : List (Packet × List SocketAddr) :=
  match p.1 with
  | .socketAddress _ => []
  | .domainNameAddress _ _ => looked.toList.map fun addrs => (p, addrs)

/-- `copy_l2r`: `recv`, and `check_target_bypassed`. -/
def copyL2r (s : Association) (bypassed : Bool) (looked : Option (List SocketAddr)) : Option Association :=
  if s.l2r ≠ .waiting then none
  else
    match s.queue with
    | p :: queue =>
      if bypassed then some { s with queue, l2r := copyBypassedL2r p looked, resolved := s.resolved ++ resolvedBy p looked }
      else some { s with queue, l2r := .proxying 0 p }
    | [] => if s.dropping = some [] then some { s with l2r := .returned } else none

/-- The next address, after an error. -/
def nextAddr (addrs : List SocketAddr) (p : Packet) : L2r := if addrs = [] then .waiting else .bypassing addrs p

/-- The socket that an address is reached by. -/
def kindOf : SocketAddr → Kind
  | .v4 _ _ => .bypassedIpv4
  | .v6 _ _ _ _ => .bypassedIpv6

/-- The lock, and what is done by the state behind it: `ok` is what it is connected for, `error` how it goes on if
connecting fails. -/
def locked (s : Association) (k : Kind) (connects : Bool) (ok : ℕ → L2r) (error : L2r) : Association :=
  match s.sockets.state k with
  | .empty =>
    if connects then { s with sockets := s.sockets.setConnected k, l2r := ok s.sockets.tasks.length }
    else { s with l2r := error }
  | .connected t => { s with l2r := ok t }
  -- "have been aborted, dropped packet"
  | .aborted => { s with l2r := .waiting }

/-- `copy_bypassed_ipv4_l2r`, `copy_bypassed_ipv6_l2r` and `copy_proxied_l2r` come to the lock. -/
def lock (s : Association) (connects : Bool) : Option Association :=
  match s.l2r with
  | .bypassing (addr :: addrs) p =>
    some (s.locked (kindOf addr) connects (fun t => .sendingTo t addr addrs p) (nextAddr addrs p))
  | .proxying tried p => some (s.locked .proxied connects (fun t => .sending tried t p) .waiting)
  | _ => none

variable (M : Method) (key : Bytes)

/-- `send_to` and `send`. -/
def send (s : Association) (salt : List.Vector UInt8 M.kind.saltLen) (ok : Bool) : Option Association :=
  match s.l2r with
  | .sendingTo _ addr addrs p =>
    if ok then some { s with sent := s.sent ++ [.bypassed addr p.2], l2r := .waiting }
    else some { s with l2r := nextAddr addrs p }
  | .sending tried _ p =>
    match encryptPayload M key salt.val p.1 p.2 with
    -- the assertion of `write_to_buf`
    | none => some { s with l2r := .returned }
    | some packet =>
      if ok then some { s with sent := s.sent ++ [.proxied packet], l2r := .waiting }
      else some { s with l2r := .resetting tried p }
  | _ => none

/-- "Reset for reconnecting". -/
def resetL2r (s : Association) : Option Association :=
  match s.l2r with
  | .resetting tried p =>
    some { s with sockets := s.sockets.reset, l2r := if tried + 1 < 3 then .proxying (tried + 1) p else .waiting }
  | _ => none

/-- The task `t`, if it has not ended. -/
def running (s : Association) (t : ℕ) : Option Task := s.sockets.tasks[t]?.filter fun x => !x.ended

/-- Send back to the client, unless it fails; `none` is the assertion of `write_to_buf`. -/
def respond (addr : Address) (data : Bytes) : Option Bytes :=
  (UdpAssociateHeader.writeToBuf ⟨0, addr⟩).map fun header => header ++ data

/-- What `copy_proxied_r2l` and `copy_bypassed_r2l` make of what they receive. -/
def received (s : Association) (t : ℕ) (a : Arrival) (from? : Option (Address × Bytes)) (ok : Bool) : Association :=
  let s := { s with arrived := s.arrived ++ [a] }
  match from? with
  -- the packet is no packet of the server: an error of `recv`
  | none => { s with sockets := s.sockets.modifyTask t fun x => { x with failing := true } }
  | some (addr, data) =>
    match respond addr data with
    | none => { s with sockets := s.sockets.modifyTask t fun x => { x with ended := true } }
    | some d => if ok then { s with delivered := s.delivered ++ [d] } else s

/-- `copy_proxied_r2l` and `copy_bypassed_r2l`: something is received, and the client is answered if `ok`. -/
def copyR2l (s : Association) (t : ℕ) (a : Arrival) (ok : Bool) : Option Association :=
  match s.running t with
  | none => none
  | some x =>
    match a with
    | .packet packet =>
      if x.kind = .proxied ∧ x.failing = false then
        some (s.received t a (decryptPayload M key packet).received ok)
      else none
    | .datagram source data =>
      if x.kind ≠ .proxied then some (s.received t a (some (.socketAddress source, data)) ok) else none

/-- `recv` fails in `copy_proxied_r2l`. -/
def failR2l (s : Association) (t : ℕ) : Option Association :=
  match s.running t with
  | none => none
  | some x =>
    if x.kind = .proxied then some { s with sockets := s.sockets.modifyTask t fun x => { x with failing := true } }
    else none

/-- `self.proxied_socket.lock().reset()`. -/
def resetR2l (s : Association) (t : ℕ) : Option Association :=
  match s.running t with
  | none => none
  | some x =>
    if x.failing then
      some { s with sockets := s.sockets.reset.modifyTask t fun x => { x with failing := false } }
    else none

/-- A task that is aborted ends at its next `await`. -/
def cancel (s : Association) (t : ℕ) : Option Association :=
  match s.running t with
  | none => none
  | some x =>
    if x.aborted then some { s with sockets := s.sockets.modifyTask t fun x => { x with ended := true } } else none

inductive Event (M : Method)
  | trySend (p : Packet)
  | drop
  | abortNext
  | copyL2r (bypassed : Bool) (looked : Option (List SocketAddr))
  | lock (connects : Bool)
  | send (salt : List.Vector UInt8 M.kind.saltLen) (ok : Bool)
  | resetL2r
  | copyR2l (t : ℕ) (a : Arrival) (ok : Bool)
  | failR2l (t : ℕ)
  | resetR2l (t : ℕ)
  | cancel (t : ℕ)

/-- Whether an event is a call of `reset`. -/
def Event.resets {M : Method} : Event M → Bool
  | .resetL2r => true
  | .resetR2l _ => true
  | _ => false

def step (s : Association) : Event M → Option Association
  | .trySend p => s.trySend p
  | .drop => s.drop
  | .abortNext => s.abortNext
  | .copyL2r bypassed looked => s.copyL2r bypassed looked
  | .lock connects => s.lock connects
  | .send salt ok => s.send M key salt ok
  | .resetL2r => s.resetL2r
  | .copyR2l t a ok => s.copyR2l M key t a ok
  | .failR2l t => s.failR2l t
  | .resetR2l t => s.resetR2l t
  | .cancel t => s.cancel t

def machine : Machine Association (Event M) where
  init := new
  step := step M key

/-! ## What a step can do -/

/-- An address that a packet may be sent to: its target, or one that the lookup of its target gave. -/
def Targets (resolved : List (Packet × List SocketAddr)) (p : Packet) (addr : SocketAddr) : Prop :=
  match p.1 with
  | .socketAddress sa => addr = sa
  | .domainNameAddress _ _ => ∃ addrs, (p, addrs) ∈ resolved ∧ addr ∈ addrs

/-- A packet is only sent to its target. -/
def L2r.Aims (resolved : List (Packet × List SocketAddr)) : L2r → Prop
  | .bypassing addrs p => ∀ addr ∈ addrs, Targets resolved p addr
  | .sendingTo _ addr addrs p => ∀ a ∈ addr :: addrs, Targets resolved p a
  | _ => True

/-- What is put on a socket for a packet: the server opens it to the target and the data; or it is the data, for
the target. -/
inductive Carries (resolved : List (Packet × List SocketAddr)) : Sent → Packet → Prop
  | bypassed (addr : SocketAddr) (p : Packet) (h : Targets resolved p addr) : Carries resolved (.bypassed addr p.2) p
  | proxied (packet : Bytes) (p : Packet) (h : (decryptPayload M key packet).received = some (p.1.canonical, p.2)) :
      Carries resolved (.proxied packet) p

/-- What is handed to the client for something that arrives: it reads the source and the data. -/
inductive Answers : Arrival → Bytes → Prop
  | datagram (source : SocketAddr) (data d : Bytes)
      (h : run UdpAssociateHeader.readFrom d = ⟨.ok ⟨0, (Address.socketAddress source).canonical⟩, data, []⟩) :
      Answers (.datagram source data) d
  | packet (packet : Bytes) (addr : Address) (data d : Bytes)
      (hr : (decryptPayload M key packet).received = some (addr, data))
      (h : run UdpAssociateHeader.readFrom d = ⟨.ok ⟨0, addr.canonical⟩, data, []⟩) :
      Answers (.packet packet) d

/-- Nothing but `failing` and `ended` is changed. -/
def Marks (f : Task → Task) : Prop := ∀ x, (f x).kind = x.kind ∧ (f x).aborted = x.aborted

/-- **What a step can do**; `resets` is whether it resets the proxied socket. -/
inductive Stepped (s : Association) : Bool → Association → Prop
  | accepted (p : Packet) (h : s.queue.length < CAPACITY) :
      Stepped s false { s with queue := s.queue ++ [p], accepted := s.accepted ++ [p] }
  | refused : Stepped s false s
  | dropped (h : s.dropping = none) :
      Stepped s false { s with dropping := some [.bypassedIpv4, .bypassedIpv6, .proxied] }
  | aborted (k : Kind) (ks : List Kind) (h : s.dropping = some (k :: ks)) :
      Stepped s false { s with sockets := s.sockets.abort k, dropping := some ks }
  | taken (p : Packet) (queue : List Packet) (l2r : L2r) (found : List (Packet × List SocketAddr))
      (hw : s.l2r = .waiting) (hq : s.queue = p :: queue) (hhand : l2r.hand = [p] ∨ l2r.hand = [])
      (haims : l2r.Aims (s.resolved ++ found)) :
      Stepped s false { s with queue, l2r, resolved := s.resolved ++ found }
  | moved (l2r : L2r) (hl : s.l2r ≠ .returned) (hhand : l2r.hand = s.l2r.hand ∨ l2r.hand = [])
      (haims : s.l2r.Aims s.resolved → l2r.Aims s.resolved) : Stepped s false { s with l2r }
  | connected (k : Kind) (l2r : L2r) (hl : s.l2r ≠ .returned) (hk : s.sockets.state k = .empty)
      (hhand : l2r.hand = s.l2r.hand) (haims : s.l2r.Aims s.resolved → l2r.Aims s.resolved) :
      Stepped s false { s with sockets := s.sockets.setConnected k, l2r }
  | sent (x : Sent) (p : Packet) (hl : s.l2r ≠ .returned) (hhand : s.l2r.hand = [p])
      (hx : s.l2r.Aims s.resolved → Carries M key s.resolved x p) :
      Stepped s false { s with sent := s.sent ++ [x], l2r := .waiting }
  | resetL2r (l2r : L2r) (hl : s.l2r ≠ .returned) (hhand : l2r.hand = s.l2r.hand ∨ l2r.hand = [])
      (haims : l2r.Aims s.resolved) :
      Stepped s true { s with sockets := s.sockets.reset, l2r }
  | arrived (a : Arrival) (t : ℕ) (f : Task → Task) (hf : Marks f) :
      Stepped s false { s with arrived := s.arrived ++ [a], sockets := s.sockets.modifyTask t f }
  | lost (a : Arrival) : Stepped s false { s with arrived := s.arrived ++ [a] }
  | delivered (a : Arrival) (d : Bytes) (h : Answers M key a d) :
      Stepped s false { s with arrived := s.arrived ++ [a], delivered := s.delivered ++ [d] }
  | marked (t : ℕ) (f : Task → Task) (hf : Marks f) : Stepped s false { s with sockets := s.sockets.modifyTask t f }
  | resetR2l (t : ℕ) (f : Task → Task) (hf : Marks f) :
      Stepped s true { s with sockets := s.sockets.reset.modifyTask t f }

variable {M} {key} {s s' : Association}

theorem respond_some {addr : Address} {data d : Bytes} (h : respond addr data = some d) :
    run UdpAssociateHeader.readFrom d = ⟨.ok ⟨0, addr.canonical⟩, data, []⟩ := by
  obtain ⟨header, hheader, rfl⟩ := Option.map_eq_some_iff.1 h
  obtain ⟨w, hw, rfl⟩ := Option.map_eq_some_iff.1 hheader
  exact UdpAssociateHeader.readFrom_iff.2 ⟨rfl, 0, 0, addr, w, hw, rfl, rfl⟩

/-- A task that has a packet has not returned. -/
theorem ne_returned {l2r : L2r} (hl : s.l2r = l2r) (hhand : l2r.hand ≠ []) : s.l2r ≠ .returned := by
  intro hr
  rw [← hl, hr] at hhand
  exact hhand rfl

theorem trySend_spec {p : Packet} (h : s.trySend p = some s') : Stepped M key s false s' := by
  unfold trySend at h
  split_ifs at h with hd hq
  · cases h
    exact .accepted p hq.2
  · cases h
    exact .refused

theorem drop_spec (h : s.drop = some s') : Stepped M key s false s' := by
  obtain ⟨hd, hs⟩ := Option.ite_none_right_eq_some.1 h
  cases hs
  exact .dropped hd

theorem abortNext_spec (h : s.abortNext = some s') : Stepped M key s false s' := by
  unfold abortNext at h
  split at h
  · rename_i k ks hd
    cases h
    exact .aborted k ks hd
  · cases h

theorem hand_copyBypassedL2r (p : Packet) (looked : Option (List SocketAddr)) :
    (copyBypassedL2r p looked).hand = [p] ∨ (copyBypassedL2r p looked).hand = [] := by
  obtain ⟨target, data⟩ := p
  cases target with
  | socketAddress sa => exact Or.inl rfl
  | domainNameAddress domain port =>
    match looked with
    | none => exact Or.inr rfl
    | some [] => exact Or.inr rfl
    | some (addr :: addrs) => exact Or.inl rfl

theorem aims_copyBypassedL2r (p : Packet) (looked : Option (List SocketAddr)) (resolved : List (Packet × List SocketAddr)) :
    (copyBypassedL2r p looked).Aims (resolved ++ resolvedBy p looked) := by
  obtain ⟨target, data⟩ := p
  cases target with
  | socketAddress sa =>
    intro addr haddr
    exact List.mem_singleton.1 haddr
  | domainNameAddress domain port =>
    match looked with
    | none => trivial
    | some [] => trivial
    | some (addr :: addrs) =>
      intro a ha
      exact ⟨addr :: addrs, List.mem_append_right _ List.mem_cons_self, ha⟩

theorem copyL2r_spec {bypassed : Bool} {looked : Option (List SocketAddr)} (h : s.copyL2r bypassed looked = some s') :
    Stepped M key s false s' := by
  unfold copyL2r at h
  by_cases hw : s.l2r = .waiting
  swap
  · rw [if_pos hw] at h
    cases h
  rw [if_neg (not_not.2 hw)] at h
  have hne : s.l2r ≠ .returned := by
    rw [hw]
    intro hr
    cases hr
  split at h
  · rename_i p queue hq
    cases bypassed with
    | true =>
      cases h
      exact .taken p queue _ _ hw hq (hand_copyBypassedL2r p looked) (aims_copyBypassedL2r p looked s.resolved)
    | false =>
      cases h
      have htaken : Stepped M key s false _ := .taken p queue (.proxying 0 p) [] hw hq (Or.inl rfl) trivial
      rw [List.append_nil] at htaken
      exact htaken
  · obtain ⟨-, hs⟩ := Option.ite_none_right_eq_some.1 h
    cases hs
    exact .moved .returned hne (Or.inr rfl) fun _ => trivial

theorem hand_nextAddr (addrs : List SocketAddr) (p : Packet) :
    (nextAddr addrs p).hand = [p] ∨ (nextAddr addrs p).hand = [] := by
  unfold nextAddr
  split
  · exact Or.inr rfl
  · exact Or.inl rfl

theorem aims_nextAddr {resolved : List (Packet × List SocketAddr)} {addrs : List SocketAddr} {p : Packet}
    (h : ∀ addr ∈ addrs, Targets resolved p addr) : (nextAddr addrs p).Aims resolved := by
  unfold nextAddr
  split
  · trivial
  · exact h

/-- What comes of a lock. -/
theorem locked_spec {k : Kind} {connects : Bool} {ok : ℕ → L2r} {error : L2r} (hl : s.l2r ≠ .returned)
    (hok : ∀ t, (ok t).hand = s.l2r.hand ∧ (s.l2r.Aims s.resolved → (ok t).Aims s.resolved))
    (herror : (error.hand = s.l2r.hand ∨ error.hand = []) ∧ (s.l2r.Aims s.resolved → error.Aims s.resolved)) :
    Stepped M key s false (s.locked k connects ok error) := by
  unfold locked
  cases hk : s.sockets.state k with
  | empty =>
    cases connects with
    | true => exact .connected k _ hl hk (hok _).1 (hok _).2
    | false => exact .moved error hl herror.1 herror.2
  | connected t => exact .moved (ok t) hl (Or.inl (hok t).1) (hok t).2
  | aborted => exact .moved .waiting hl (Or.inr rfl) fun _ => trivial

theorem lock_spec {connects : Bool} (h : s.lock connects = some s') : Stepped M key s false s' := by
  unfold lock at h
  cases hl : s.l2r with
  | bypassing addrs p =>
    cases addrs with
    | nil =>
      rw [hl] at h
      cases h
    | cons addr addrs =>
      rw [hl] at h
      cases h
      have hne := ne_returned hl (List.cons_ne_nil p [])
      refine locked_spec hne (fun t => ?_) ?_
      · rw [hl]
        exact ⟨rfl, id⟩
      · rw [hl]
        refine ⟨hand_nextAddr addrs p, fun haims => aims_nextAddr ?_⟩
        intro a ha
        exact haims a (List.mem_cons_of_mem addr ha)
  | proxying tried p =>
    rw [hl] at h
    cases h
    have hne := ne_returned hl (List.cons_ne_nil p [])
    refine locked_spec hne (fun t => ?_) ?_
    · rw [hl]
      exact ⟨rfl, id⟩
    · exact ⟨Or.inr rfl, fun _ => trivial⟩
  | waiting | sendingTo | sending | resetting | returned =>
    rw [hl] at h
    cases h

theorem send_spec (hM : M.Lawful) {salt : List.Vector UInt8 M.kind.saltLen} {ok : Bool}
    (h : s.send M key salt ok = some s') : Stepped M key s false s' := by
  unfold send at h
  cases hl : s.l2r with
  | sendingTo t addr addrs p =>
    have hne := ne_returned hl (List.cons_ne_nil p [])
    rw [hl] at h
    cases ok with
    | true =>
      cases h
      refine .sent _ p hne (by rw [hl]; rfl) fun haims => .bypassed addr p ?_
      rw [hl] at haims
      exact haims addr List.mem_cons_self
    | false =>
      cases h
      refine .moved _ hne ?_ fun haims => aims_nextAddr ?_
      · rw [hl]
        exact hand_nextAddr addrs p
      · rw [hl] at haims
        intro a ha
        exact haims a (List.mem_cons_of_mem addr ha)
  | sending tried t p =>
    have hne := ne_returned hl (List.cons_ne_nil p [])
    rw [hl] at h
    cases hpacket : encryptPayload M key salt.val p.1 p.2 with
    | none =>
      simp only [hpacket] at h
      cases h
      exact .moved .returned hne (Or.inr rfl) fun _ => trivial
    | some packet =>
      simp only [hpacket] at h
      cases ok with
      | true =>
        cases h
        have hopens := received_encryptPayload hM salt.property hpacket
        exact .sent _ p hne (by rw [hl]; rfl) fun _ => .proxied packet p hopens
      | false =>
        cases h
        exact .moved (.resetting tried p) hne (Or.inl (by rw [hl]; rfl)) fun _ => trivial
  | waiting | bypassing | proxying | resetting | returned =>
    rw [hl] at h
    cases h

theorem resetL2r_spec (h : s.resetL2r = some s') : Stepped M key s true s' := by
  unfold resetL2r at h
  cases hl : s.l2r with
  | resetting tried p =>
    have hne := ne_returned hl (List.cons_ne_nil p [])
    rw [hl] at h
    cases h
    by_cases hlt : tried + 1 < 3
    · rw [if_pos hlt]
      exact .resetL2r _ hne (Or.inl (by rw [hl]; rfl)) trivial
    · rw [if_neg hlt]
      exact .resetL2r _ hne (Or.inr rfl) trivial
  | waiting | bypassing | sendingTo | proxying | sending | returned =>
    rw [hl] at h
    cases h

/-- What comes of something that arrives. -/
theorem received_spec {t : ℕ} {a : Arrival} {found : Option (Address × Bytes)} {ok : Bool}
    (ha : ∀ addr data d, found = some (addr, data) → respond addr data = some d → Answers M key a d) :
    Stepped M key s false (s.received t a found ok) := by
  unfold received
  match found with
  | none => exact .arrived a t _ fun x => ⟨rfl, rfl⟩
  | some (addr, data) =>
    cases hd : respond addr data with
    | none =>
      simp only [hd]
      exact .arrived a t _ fun x => ⟨rfl, rfl⟩
    | some d =>
      simp only [hd]
      cases ok with
      | true => exact .delivered a d (ha addr data d rfl hd)
      | false => exact .lost a

theorem copyR2l_spec {t : ℕ} {a : Arrival} {ok : Bool} (h : s.copyR2l M key t a ok = some s') :
    Stepped M key s false s' := by
  unfold copyR2l at h
  cases hx : s.running t with
  | none =>
    rw [hx] at h
    cases h
  | some x =>
    rw [hx] at h
    cases a with
    | packet packet =>
      obtain ⟨-, hs⟩ := Option.ite_none_right_eq_some.1 h
      cases hs
      exact received_spec fun addr data d hfound hd => .packet packet addr data d hfound (respond_some hd)
    | datagram source data =>
      obtain ⟨-, hs⟩ := Option.ite_none_right_eq_some.1 h
      cases hs
      refine received_spec fun addr data' d hfound hd => ?_
      cases hfound
      exact .datagram source data d (respond_some hd)

theorem failR2l_spec {t : ℕ} (h : s.failR2l t = some s') : Stepped M key s false s' := by
  unfold failR2l at h
  cases hx : s.running t with
  | none =>
    rw [hx] at h
    cases h
  | some x =>
    rw [hx] at h
    obtain ⟨-, hs⟩ := Option.ite_none_right_eq_some.1 h
    cases hs
    exact .marked t _ fun x => ⟨rfl, rfl⟩

theorem resetR2l_spec {t : ℕ} (h : s.resetR2l t = some s') : Stepped M key s true s' := by
  unfold resetR2l at h
  cases hx : s.running t with
  | none =>
    rw [hx] at h
    cases h
  | some x =>
    rw [hx] at h
    obtain ⟨-, hs⟩ := Option.ite_none_right_eq_some.1 h
    cases hs
    exact .resetR2l t _ fun x => ⟨rfl, rfl⟩

theorem cancel_spec {t : ℕ} (h : s.cancel t = some s') : Stepped M key s false s' := by
  unfold cancel at h
  cases hx : s.running t with
  | none =>
    rw [hx] at h
    cases h
  | some x =>
    rw [hx] at h
    obtain ⟨-, hs⟩ := Option.ite_none_right_eq_some.1 h
    cases hs
    exact .marked t _ fun x => ⟨rfl, rfl⟩

/-- **Everything a step can do.** -/
theorem step_spec (hM : M.Lawful) {e : Event M} (h : s.step M key e = some s') : Stepped M key s e.resets s' := by
  cases e with
  | trySend p => exact trySend_spec h
  | drop => exact drop_spec h
  | abortNext => exact abortNext_spec h
  | copyL2r bypassed looked => exact copyL2r_spec h
  | lock connects => exact lock_spec h
  | send salt ok => exact send_spec hM h
  | resetL2r => exact resetL2r_spec h
  | copyR2l t a ok => exact copyR2l_spec h
  | failR2l t => exact failR2l_spec h
  | resetR2l t => exact resetR2l_spec h
  | cancel t => exact cancel_spec h

/-! ## Tasks and sockets -/

/-- **A task that is not aborted is the one that a connected socket has.** -/
def Sockets.Owned (s : Sockets) : Prop :=
  ∀ t x, s.tasks[t]? = some x → x.aborted = false → s.state x.kind = .connected t

namespace Sockets

variable {w : Sockets} {k : Kind} {t : ℕ} {x : Task} {f : Task → Task}

theorem state_abortInner (w : Sockets) (k : Kind) : (w.abortInner k).state = w.state := by
  unfold abortInner
  split <;> rfl

/-- A task that is left was there, and is not the one of the socket. -/
theorem abortInner_live (hx : (w.abortInner k).tasks[t]? = some x) (hlive : x.aborted = false) :
    w.tasks[t]? = some x ∧ w.state k ≠ .connected t := by
  unfold abortInner at hx
  cases hk : w.state k with
  | empty =>
    simp only [hk] at hx
    exact ⟨hx, fun h => by cases h⟩
  | aborted =>
    simp only [hk] at hx
    exact ⟨hx, fun h => by cases h⟩
  | connected t₀ =>
    simp only [hk] at hx
    by_cases ht : t₀ = t
    · subst ht
      rw [List.getElem?_modify_eq] at hx
      obtain ⟨y, -, rfl⟩ := Option.map_eq_some_iff.1 hx
      cases hlive
    · rw [List.getElem?_modify_ne _ _ ht] at hx
      refine ⟨hx, fun h => ht ?_⟩
      cases h
      rfl

theorem Owned.replaced (h : w.Owned) (k : Kind) (st : SocketState) :
    Owned { w.abortInner k with state := Function.update (w.abortInner k).state k st } := by
  intro t x hx hlive
  obtain ⟨hold, hne⟩ := abortInner_live hx hlive
  have hstate := h t x hold hlive
  have hk : x.kind ≠ k := by
    intro hk
    rw [hk] at hstate
    exact hne hstate
  have hupdate : Function.update (w.abortInner k).state k st x.kind = (w.abortInner k).state x.kind :=
    Function.update_of_ne hk _ _
  exact hupdate.trans ((congrFun (state_abortInner w k) x.kind).trans hstate)

theorem Owned.setConnected (h : w.Owned) (hk : w.state k = .empty) : (w.setConnected k).Owned := by
  intro t x hx hlive
  have hx : (w.tasks ++ [⟨k, false, false, false⟩])[t]? = some x := hx
  by_cases ht : t < w.tasks.length
  · rw [List.getElem?_append_left ht] at hx
    have hstate := h t x hx hlive
    have hne : x.kind ≠ k := by
      intro hkind
      rw [hkind, hk] at hstate
      cases hstate
    have hupdate : (w.setConnected k).state x.kind = w.state x.kind := Function.update_of_ne hne _ _
    rw [hupdate]
    exact hstate
  · have hlen : t = w.tasks.length := by
      have hlt := (List.getElem?_eq_some_iff.1 hx).1
      rw [List.length_append, List.length_singleton] at hlt
      omega
    subst hlen
    rw [List.getElem?_concat_length] at hx
    cases hx
    exact Function.update_self _ _ _

/-- A task of the marked list, and what it was. -/
theorem modifyTask_get (hf : Marks f) {t₀ : ℕ} (hx : (w.modifyTask t₀ f).tasks[t]? = some x) :
    ∃ y, w.tasks[t]? = some y ∧ x.kind = y.kind ∧ x.aborted = y.aborted := by
  have hx : (w.tasks.modify t₀ f)[t]? = some x := hx
  by_cases ht : t₀ = t
  · subst ht
    rw [List.getElem?_modify_eq] at hx
    obtain ⟨y, hy, rfl⟩ := Option.map_eq_some_iff.1 hx
    exact ⟨y, hy, hf y⟩
  · rw [List.getElem?_modify_ne _ _ ht] at hx
    exact ⟨x, hx, rfl, rfl⟩

theorem Owned.modifyTask (h : w.Owned) (hf : Marks f) (t₀ : ℕ) : (w.modifyTask t₀ f).Owned := by
  intro t x hx hlive
  obtain ⟨y, hy, hkind, haborted⟩ := modifyTask_get hf hx
  rw [hkind]
  exact h t y hy (haborted.symm.trans hlive)

/-- Marks abort nothing. -/
theorem live_modifyTask (hf : Marks f) (t₀ : ℕ) (h : ∃ x, w.tasks[t]? = some x ∧ x.aborted = false) :
    ∃ x, (w.modifyTask t₀ f).tasks[t]? = some x ∧ x.aborted = false := by
  obtain ⟨x, hx, hlive⟩ := h
  unfold Sockets.modifyTask
  by_cases ht : t₀ = t
  · subst ht
    refine ⟨f x, ?_, (hf x).2.trans hlive⟩
    rw [List.getElem?_modify_eq, hx]
    rfl
  · refine ⟨x, ?_, hlive⟩
    rw [List.getElem?_modify_ne _ _ ht]
    exact hx

theorem owned_empty : Sockets.empty.Owned := by
  intro t x hx
  cases hx

end Sockets

theorem Stepped.owned {resets : Bool} (h : Stepped M key s resets s') (ho : s.sockets.Owned) : s'.sockets.Owned := by
  cases h with
  | aborted k ks hd => exact ho.replaced k .aborted
  | connected k l2r hl hk hhand haims => exact ho.setConnected hk
  | resetL2r l2r hl hhand haims => exact ho.replaced .proxied .empty
  | arrived a t f hf => exact ho.modifyTask hf t
  | marked t f hf => exact ho.modifyTask hf t
  | resetR2l t f hf => exact Sockets.Owned.modifyTask (ho.replaced .proxied .empty) hf t
  | accepted | refused | dropped | taken | moved | sent | lost | delivered => exact ho

/-- A bypassed socket that the drop has aborted stays aborted. -/
def Dropped (s : Association) : Prop :=
  ∀ ks, s.dropping = some ks → ∀ k, k ≠ .proxied → k ∉ ks → s.sockets.state k = .aborted

theorem state_reset {w : Sockets} {k : Kind} (hk : k ≠ .proxied) : w.reset.state k = w.state k := by
  unfold Sockets.reset
  simp only [Sockets.state_abortInner]
  exact Function.update_of_ne hk _ _

theorem Stepped.dropped_inv {resets : Bool} (h : Stepped M key s resets s') (hd : s.Dropped) : s'.Dropped := by
  cases h with
  | dropped hnone =>
    intro ks hks k hk hnot
    cases hks
    cases k with
    | bypassedIpv4 => exact absurd List.mem_cons_self hnot
    | bypassedIpv6 => exact absurd (List.mem_cons_of_mem _ List.mem_cons_self) hnot
    | proxied => exact absurd rfl hk
  | aborted k ks hks =>
    intro ks' hks' k' hk' hnot
    cases hks'
    by_cases hkk : k' = k
    · rw [hkk]
      exact Function.update_self _ _ _
    · have hstate := hd (k :: ks) hks k' hk' fun hin => hnot ((List.mem_cons.1 hin).resolve_left hkk)
      have hupdate : (s.sockets.abort k).state k' = (s.sockets.abortInner k).state k' :=
        Function.update_of_ne hkk _ _
      rw [hupdate, Sockets.state_abortInner]
      exact hstate
  | connected k l2r hl hk hhand haims =>
    intro ks hks k' hk' hnot
    have hstate := hd ks hks k' hk' hnot
    have hne : k' ≠ k := by
      intro hkk
      rw [hkk, hk] at hstate
      cases hstate
    exact (Function.update_of_ne hne _ _).trans hstate
  | resetL2r l2r hl hhand haims =>
    intro ks hks k hk hnot
    exact (state_reset hk).trans (hd ks hks k hk hnot)
  | resetR2l t f hf =>
    intro ks hks k hk hnot
    exact (state_reset hk).trans (hd ks hks k hk hnot)
  | accepted | refused | taken | moved | sent | arrived | lost | delivered | marked => exact hd

/-! ## Packets -/

variable (M key) in
/-- What was sent is, in order, some of what was taken from the queue before the packet that is being relayed. -/
def Forwards (s : Association) : Prop :=
  ∃ taken forwarded, s.accepted = taken ++ s.l2r.hand ++ s.queue ∧ forwarded.Sublist taken ∧
    List.Forall₂ (Carries M key s.resolved) s.sent forwarded

variable (M key) in
/-- What was handed to the client is, in order, some of what has arrived. -/
def Answered (s : Association) : Prop :=
  ∃ answered, answered.Sublist s.arrived ∧ List.Forall₂ (Answers M key) answered s.delivered

/-- More lookups take no address away. -/
theorem Carries.mono {resolved : List (Packet × List SocketAddr)} {x : Sent} {p : Packet}
    (h : Carries M key resolved x p) (found : List (Packet × List SocketAddr)) :
    Carries M key (resolved ++ found) x p := by
  cases h with
  | bypassed addr _ haddr =>
    refine .bypassed addr p ?_
    unfold Targets at haddr ⊢
    cases htarget : p.1 with
    | socketAddress sa =>
      simp only [htarget] at haddr
      exact haddr
    | domainNameAddress domain port =>
      simp only [htarget] at haddr
      obtain ⟨addrs, hmem, hin⟩ := haddr
      exact ⟨addrs, List.mem_append_left _ hmem, hin⟩
  | proxied packet _ hopens => exact .proxied packet p hopens

/-- The task keeps the packet, or is done with it. -/
theorem Forwards.moved (h : s.Forwards M key) {l2r : L2r} {sockets : Sockets}
    (hhand : l2r.hand = s.l2r.hand ∨ l2r.hand = []) : Forwards M key { s with sockets, l2r } := by
  obtain ⟨taken, forwarded, hacc, hsub, hall⟩ := h
  rcases hhand with hhand | hhand
  · exact ⟨taken, forwarded, by rw [hhand]; exact hacc, hsub, hall⟩
  · refine ⟨taken ++ s.l2r.hand, forwarded, ?_, hsub.trans (List.sublist_append_left _ _), hall⟩
    rw [hhand, List.append_nil]
    exact hacc

theorem Stepped.forwards {resets : Bool} (h : Stepped M key s resets s') (ha : s.l2r.Aims s.resolved)
    (hf : s.Forwards M key) : s'.Forwards M key := by
  cases h with
  | accepted p hlt =>
    obtain ⟨taken, forwarded, hacc, hsub, hall⟩ := hf
    refine ⟨taken, forwarded, ?_, hsub, hall⟩
    rw [hacc, List.append_assoc]
  | taken p queue l2r found hw hq hhand haims =>
    obtain ⟨taken, forwarded, hacc, hsub, hall⟩ := hf
    have hall := hall.imp fun x p hx => Carries.mono hx found
    rw [hw, hq] at hacc
    rcases hhand with hhand | hhand
    · refine ⟨taken, forwarded, ?_, hsub, hall⟩
      rw [hacc, hhand]
      simp [L2r.hand]
    · refine ⟨taken ++ [p], forwarded, ?_, hsub.trans (List.sublist_append_left _ _), hall⟩
      rw [hacc, hhand]
      simp [L2r.hand]
  | moved l2r hl hhand haims => exact hf.moved hhand
  | connected k l2r hl hk hhand haims => exact hf.moved (Or.inl hhand)
  | resetL2r l2r hl hhand haims => exact hf.moved hhand
  | sent x p hl hhand hx =>
    obtain ⟨taken, forwarded, hacc, hsub, hall⟩ := hf
    refine ⟨taken ++ [p], forwarded ++ [p], ?_, hsub.append (List.Sublist.refl [p]), ?_⟩
    · rw [hacc, hhand]
      simp [L2r.hand]
    · exact List.rel_append hall (.cons (hx ha) .nil)
  | refused | dropped | aborted | arrived | lost | delivered | marked | resetR2l => exact hf

theorem Stepped.aims {resets : Bool} (h : Stepped M key s resets s') (ha : s.l2r.Aims s.resolved) :
    s'.l2r.Aims s'.resolved := by
  cases h with
  | taken p queue l2r found hw hq hhand haims => exact haims
  | moved l2r hl hhand haims => exact haims ha
  | connected k l2r hl hk hhand haims => exact haims ha
  | sent => trivial
  | resetL2r l2r hl hhand haims => exact haims
  | accepted | refused | dropped | aborted | arrived | lost | delivered | marked | resetR2l => exact ha

theorem Stepped.answered {resets : Bool} (h : Stepped M key s resets s') (ha : s.Answered M key) :
    s'.Answered M key := by
  obtain ⟨answered, hsub, hall⟩ := ha
  cases h with
  | arrived a t f hf => exact ⟨answered, hsub.trans (List.sublist_append_left _ _), hall⟩
  | lost a => exact ⟨answered, hsub.trans (List.sublist_append_left _ _), hall⟩
  | delivered a d hd =>
    exact ⟨answered ++ [a], hsub.append (List.Sublist.refl [a]), List.rel_append hall (.cons hd .nil)⟩
  | accepted | refused | dropped | aborted | taken | moved | connected | sent | resetL2r | marked | resetR2l =>
    exact ⟨answered, hsub, hall⟩

/-! ## Runs -/

variable (M key) in
/-- What every step keeps. -/
structure Inv (s : Association) : Prop where
  owned : s.sockets.Owned
  dropped : s.Dropped
  aims : s.l2r.Aims s.resolved
  forwards : s.Forwards M key
  answered : s.Answered M key

theorem Stepped.inv {resets : Bool} (h : Stepped M key s resets s') (hi : s.Inv M key) : s'.Inv M key where
  owned := h.owned hi.owned
  dropped := h.dropped_inv hi.dropped
  aims := h.aims hi.aims
  forwards := h.forwards hi.aims hi.forwards
  answered := h.answered hi.answered

theorem inv_new : new.Inv M key where
  owned := Sockets.owned_empty
  dropped := by
    intro ks hks
    cases hks
  aims := trivial
  forwards := ⟨[], [], rfl, .slnil, .nil⟩
  answered := ⟨[], .slnil, .nil⟩

/-- A packet for the port 80 of 127.0.0.1. -/
def loopback : Packet := (.socketAddress (.v4 ⟨[127, 0, 0, 1], rfl⟩ 80), [9])

/-- It is relayed through the server, and answered. -/
def relayed : List (Event .marking) :=
  [.trySend loopback, .copyL2r false none, .lock true, .send ⟨[5], rfl⟩ true,
    .copyR2l 0 (.packet [5, 1, 127, 0, 0, 1, 0, 80, 9, 0]) true]

/-- A packet for a name is sent to an address that the lookup gives. -/
def bypassed : List (Event .marking) :=
  [.trySend (.domainNameAddress ['a'] 53, [8]), .copyL2r true (some [.v4 ⟨[10, 0, 0, 9], rfl⟩ 53]), .lock true,
    .send ⟨[5], rfl⟩ true]

/-- The association is dropped while a packet is sent, which fails. -/
def resetAfterDrop : List (Event .marking) :=
  [.trySend loopback, .copyL2r false none, .lock true, .drop, .abortNext, .abortNext, .abortNext,
    .send ⟨[5], rfl⟩ false, .resetL2r, .lock true, .send ⟨[5], rfl⟩ true, .copyL2r false none]

variable {es : List (Event M)}

theorem run_inv (hM : M.Lawful) (hrun : (machine M key).run new es = some s) : s.Inv M key := by
  refine Machine.run_inv (P := Inv M key) ?_ inv_new hrun
  intro s e s' hi hstep
  exact (step_spec hM hstep).inv hi

/-- **What is sent is what was accepted**: each packet at most once, in this order, to its target. -/
theorem run_forwards (hM : M.Lawful) (hrun : (machine M key).run new es = some s) :
    ∃ forwarded, forwarded.Sublist s.accepted ∧ List.Forall₂ (Carries M key s.resolved) s.sent forwarded := by
  obtain ⟨taken, forwarded, hacc, hsub, hall⟩ := (run_inv hM hrun).forwards
  refine ⟨forwarded, ?_, hall⟩
  rw [hacc, List.append_assoc]
  exact hsub.trans (List.sublist_append_left _ _)

theorem run_forwards_relayed :
    ∃ s, (machine .marking []).run new (relayed ++ bypassed) = some s ∧ s.sent.length = 2 ∧
      ∃ forwarded, forwarded.Sublist s.accepted ∧ List.Forall₂ (Carries .marking [] s.resolved) s.sent forwarded := by
  obtain ⟨s, hrun, hsent⟩ : ∃ s, (machine .marking []).run new (relayed ++ bypassed) = some s ∧ s.sent.length = 2 :=
    ⟨_, rfl, rfl⟩
  exact ⟨s, hrun, hsent, run_forwards Method.marking_lawful hrun⟩

/-- **What is handed to the client is what has arrived**: each packet at most once, in this order, with its source. -/
theorem run_answers (hM : M.Lawful) (hrun : (machine M key).run new es = some s) :
    ∃ answered, answered.Sublist s.arrived ∧ List.Forall₂ (Answers M key) answered s.delivered :=
  (run_inv hM hrun).answered

theorem run_answers_relayed :
    ∃ s, (machine .marking []).run new relayed = some s ∧ s.delivered.length = 1 ∧
      ∃ answered, answered.Sublist s.arrived ∧ List.Forall₂ (Answers .marking []) answered s.delivered := by
  obtain ⟨s, hrun, hdelivered⟩ : ∃ s, (machine .marking []).run new relayed = some s ∧ s.delivered.length = 1 :=
    ⟨_, rfl, rfl⟩
  exact ⟨s, hrun, hdelivered, run_answers Method.marking_lawful hrun⟩

/-- **No socket is lost**: a task that is not aborted is the one of a connected socket. -/
theorem run_owned (hM : M.Lawful) (hrun : (machine M key).run new es = some s) : s.sockets.Owned :=
  (run_inv hM hrun).owned

theorem run_owned_reset_after_drop :
    ∃ s, (machine .marking []).run new resetAfterDrop = some s ∧ s.sockets.state .proxied = .connected 1 ∧
      s.sockets.Owned := by
  obtain ⟨s, hrun, hstate⟩ : ∃ s, (machine .marking []).run new resetAfterDrop = some s ∧
      s.sockets.state .proxied = .connected 1 := ⟨_, rfl, rfl⟩
  exact ⟨s, hrun, hstate, run_owned Method.marking_lawful hrun⟩

/-- Nothing is connected any more. -/
def Closed (s : Association) : Prop := s.dropping = some [] ∧ ∀ k, s.sockets.state k = .aborted

theorem Stepped.closed (h : Stepped M key s false s') (hc : s.Closed) : s'.Closed := by
  obtain ⟨hd, hstate⟩ := hc
  cases h with
  | dropped hnone =>
    rw [hd] at hnone
    cases hnone
  | aborted k ks hks =>
    rw [hd] at hks
    cases hks
  | connected k l2r hl hk hhand haims =>
    rw [hstate k] at hk
    cases hk
  | accepted | refused | taken | moved | sent | arrived | lost | delivered | marked => exact ⟨hd, hstate⟩

/-- **After the drop no task is left**, as long as the proxied socket is not reset. -/
theorem run_closed (hM : M.Lawful) {es₁ es₂ : List (Event M)} {s₁ s₂ : Association}
    (h₁ : (machine M key).run new es₁ = some s₁) (hdropped : s₁.dropping = some [])
    (hproxied : s₁.sockets.state .proxied = .aborted) (hquiet : ∀ e ∈ es₂, e.resets = false)
    (h₂ : (machine M key).run s₁ es₂ = some s₂) : ∀ x ∈ s₂.sockets.tasks, x.aborted = true := by
  have hi := run_inv hM h₁
  have hclosed : s₁.Closed := by
    refine ⟨hdropped, fun k => ?_⟩
    by_cases hk : k = .proxied
    · rw [hk]
      exact hproxied
    · exact hi.dropped [] hdropped k hk List.not_mem_nil
  have hboth : s₂.Closed ∧ s₂.Inv M key := by
    refine Machine.run_inv_of (P := fun s => s.Closed ∧ s.Inv M key) (fun e => e.resets = false) ?_ ⟨hclosed, hi⟩
      hquiet h₂
    intro s e s' hs hresets hstep
    have hstepped := step_spec hM hstep
    rw [hresets] at hstepped
    exact ⟨hstepped.closed hs.1, hstepped.inv hs.2⟩
  intro x hx
  obtain ⟨t, ht⟩ := List.getElem?_of_mem hx
  by_contra hlive
  have hstate := hboth.2.owned t x ht (eq_false_of_ne_true hlive)
  rw [hboth.1.2 x.kind] at hstate
  cases hstate

theorem run_closed_relayed :
    ∃ s₁ s₂, (machine .marking []).run new (relayed ++ [.drop, .abortNext, .abortNext, .abortNext]) = some s₁ ∧
      (machine .marking []).run s₁ [.copyL2r false none, .cancel 0] = some s₂ ∧ s₂.sockets.tasks.length = 1 ∧
        ∀ x ∈ s₂.sockets.tasks, x.aborted = true := by
  obtain ⟨s₁, s₂, h₁, hdropped, hproxied, h₂, htasks⟩ : ∃ s₁ s₂, (machine .marking []).run new
      (relayed ++ [.drop, .abortNext, .abortNext, .abortNext]) = some s₁ ∧ s₁.dropping = some [] ∧
        s₁.sockets.state .proxied = .aborted ∧
          (machine .marking []).run s₁ [.copyL2r false none, .cancel 0] = some s₂ ∧ s₂.sockets.tasks.length = 1 :=
    ⟨_, _, rfl, rfl, rfl, rfl, rfl⟩
  exact ⟨s₁, s₂, h₁, h₂, htasks, run_closed Method.marking_lawful h₁ hdropped hproxied (by decide) h₂⟩

/-- After the drop and the end of `copy_l2r`, a task is there. -/
def Leaked (t : ℕ) (s : Association) : Prop :=
  s.dropping = some [] ∧ s.l2r = .returned ∧ ∃ x, s.sockets.tasks[t]? = some x ∧ x.aborted = false

theorem Stepped.leaked {t : ℕ} (h : Stepped M key s false s') (hs : s.Leaked t) : s'.Leaked t := by
  obtain ⟨hd, hl, hlive⟩ := hs
  cases h with
  | dropped hnone =>
    rw [hd] at hnone
    cases hnone
  | aborted k ks hks =>
    rw [hd] at hks
    cases hks
  | taken p queue l2r found hw =>
    rw [hl] at hw
    cases hw
  | moved l2r hne => exact absurd hl hne
  | connected k l2r hne => exact absurd hl hne
  | sent x p hne => exact absurd hl hne
  | arrived a t₀ f hf => exact ⟨hd, hl, Sockets.live_modifyTask hf t₀ hlive⟩
  | marked t₀ f hf => exact ⟨hd, hl, Sockets.live_modifyTask hf t₀ hlive⟩
  | accepted | refused | lost | delivered => exact ⟨hd, hl, hlive⟩

/-- **A reset reopens the socket**, also one that the drop has aborted: the next lock connects it again. -/
theorem Stepped.reopens (h : Stepped M key s true s') :
    s'.sockets.state .proxied = .empty ∧ s'.dropping = s.dropping := by
  have hempty : s.sockets.reset.state .proxied = .empty := by
    have hself := Function.update_self Kind.proxied SocketState.empty (s.sockets.abortInner .proxied).state
    exact hself
  cases h with
  | resetL2r => exact ⟨hempty, rfl⟩
  | resetR2l => exact ⟨hempty, rfl⟩

/-- **What is left then is left for good**: a reset after the drop makes the aborted socket empty again, and a task that
is there when `copy_l2r` has ended is aborted by nobody, as long as its own `recv` does not fail. -/
theorem run_leaks (hM : M.Lawful) {t : ℕ} {es₂ : List (Event M)} {s₁ s₂ : Association} (hleaked : s₁.Leaked t)
    (hquiet : ∀ e ∈ es₂, e.resets = false) (h₂ : (machine M key).run s₁ es₂ = some s₂) :
    s₂.Leaked t ∧ ∀ (s s' : Association) (e : Event M), s.dropping = some [] → s.sockets.state .proxied = .aborted →
      e.resets = true → s.step M key e = some s' → s'.sockets.state .proxied = .empty ∧ s'.dropping = some [] := by
  refine ⟨?_, ?_⟩
  · refine Machine.run_inv_of (P := Leaked t) (fun e => e.resets = false) ?_ hleaked hquiet h₂
    intro s e s' hs hresets hstep
    have hstepped := step_spec hM hstep
    rw [hresets] at hstepped
    exact hstepped.leaked hs
  · intro s s' e hdropped _ hresets hstep
    have hstepped := step_spec hM hstep
    rw [hresets] at hstepped
    obtain ⟨hempty, hsame⟩ := hstepped.reopens
    exact ⟨hempty, hsame.trans hdropped⟩

theorem run_leaks_reset_after_drop :
    ∃ s₁ s₂, (machine .marking []).run new resetAfterDrop = some s₁ ∧
      (machine .marking []).run s₁ [.copyR2l 1 (.packet [5, 1, 127, 0, 0, 1, 0, 80, 9, 0]) true] = some s₂ ∧
        s₂.Leaked 1 := by
  obtain ⟨s₁, s₂, h₁, hdropped, hl2r, htask, h₂⟩ : ∃ s₁ s₂, (machine .marking []).run new resetAfterDrop = some s₁ ∧
      s₁.dropping = some [] ∧ s₁.l2r = .returned ∧ (∃ x, s₁.sockets.tasks[1]? = some x ∧ x.aborted = false) ∧
        (machine .marking []).run s₁ [.copyR2l 1 (.packet [5, 1, 127, 0, 0, 1, 0, 80, 9, 0]) true] = some s₂ :=
    ⟨_, _, rfl, rfl, rfl, ⟨_, rfl, rfl⟩, rfl⟩
  exact ⟨s₁, s₂, h₁, h₂, (run_leaks Method.marking_lawful ⟨hdropped, hl2r, htask⟩ (by decide) h₂).1⟩

end Association

end Relay

end BlackButton
