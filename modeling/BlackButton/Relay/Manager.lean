import BlackButton.Lib.Assoc
import BlackButton.Relay.Association

/-!
# The UDP side of the local SOCKS5 server (`socks5/udprelay.rs`, `local/net/udp/association.rs`)

All clients send their datagrams to one socket. The server takes the header off, and the
`UdpAssociationManager` keeps an association for each client in a map, which forgets
associations that expire or are too many.

* `Relaying.step`: what every step keeps; each association makes a run of its own.
* `run_relays`: **what is put on the sockets of a client's association is what this client sent**, each
  datagram at most once and in order.
* `run_single`: **a client has one association at a time**, the one in the map; all others are dropped.
* `inbound_iff`: what a datagram must be to be relayed.
-/

namespace BlackButton

open Async

namespace Relay

open Association

/-- What `Socks5UdpServer::run` makes of a datagram; `none` is "invalid UDP associate packet" or "frag != 0". -/
def inbound (data : Bytes) : Option Packet :=
  match run UdpAssociateHeader.readFrom data with
  | ⟨.ok header, payload, _⟩ => if header.frag ≠ 0 then none else some (header.address, payload)
  | ⟨.error _, _, _⟩ => none

/-- **What is relayed**: a header with two bytes that may be anything and fragment 0, and what follows the header. -/
theorem inbound_iff {data : Bytes} {address : Address} {payload : Bytes} :
    inbound data = some (address, payload) ↔ ∃ (rsv₀ rsv₁ : UInt8) (a₀ : Address) (w : Bytes),
      a₀.writeToBuf = some w ∧ a₀.canonical = address ∧ data = rsv₀ :: rsv₁ :: 0 :: w ++ payload := by
  unfold inbound
  constructor
  · intro h
    split at h
    · rename_i header rest out hrun
      split_ifs at h with hfrag
      cases h
      obtain ⟨-, rsv₀, rsv₁, a₀, w, hw, hcan, hdata⟩ := UdpAssociateHeader.readFrom_iff.1 hrun
      rw [not_not.1 hfrag] at hdata
      exact ⟨rsv₀, rsv₁, a₀, w, hw, hcan, hdata⟩
    · cases h
  · rintro ⟨rsv₀, rsv₁, a₀, w, hw, hcan, hdata⟩
    have hrun : run UdpAssociateHeader.readFrom data = ⟨.ok ⟨0, address⟩, payload, []⟩ :=
      UdpAssociateHeader.readFrom_iff.2 ⟨rfl, rsv₀, rsv₁, a₀, w, hw, hcan, hdata⟩
    simp [hrun]

/-- `UdpAssociationManager`, with all the associations it has created, and what the server has received. -/
structure UdpAssociationManager where
  assocMap : SocketAddr → Option ℕ
  assocs : List (SocketAddr × Association)
  received : List (SocketAddr × Bytes)

namespace UdpAssociationManager

/-- `UdpAssociationManager::new`. -/
def new : UdpAssociationManager := ⟨fun _ => none, [], []⟩

/-- An operation of an association. One that fails changes nothing. -/
def modify (m : UdpAssociationManager) (i : ℕ) (f : Association → Option Association) : UdpAssociationManager :=
  { m with assocs := m.assocs.modify i fun (peer, a) => (peer, (f a).getD a) }

/-- `send_to`. -/
def sendTo (m : UdpAssociationManager) (peer : SocketAddr) (p : Packet) : UdpAssociationManager :=
  match m.assocMap peer with
  | some i => m.modify i fun a => a.trySend p
  | none =>
    -- the channel of a new one has room
    let assoc := Association.new
    { m with
      assocMap := Function.update m.assocMap peer (some m.assocs.length)
      assocs := m.assocs ++ [(peer, (assoc.trySend p).getD assoc)] }

/-- The body of the loop of `Socks5UdpServer::run`. -/
def recvFrom (m : UdpAssociationManager) (peer : SocketAddr) (data : Bytes) : UdpAssociationManager :=
  let m := { m with received := m.received ++ [(peer, data)] }
  match inbound data with
  | some p => m.sendTo peer p
  | none => m

/-- The map drops an association, which has expired or makes room. -/
def expire (m : UdpAssociationManager) (peer : SocketAddr) : Option UdpAssociationManager :=
  (m.assocMap peer).map fun i =>
    { m.modify i fun a => a.drop with assocMap := Function.update m.assocMap peer none }

variable (M : Method) (key : Bytes)

inductive Event (M : Method)
  | recvFrom (peer : SocketAddr) (data : Bytes)
  | expire (peer : SocketAddr)
  -- a step of one of the tasks of the `i`-th association, or of its drop
  | assoc (i : ℕ) (e : Association.Event M)

/-- The events of an association that are not the manager's. -/
def isOwn {M : Method} : Association.Event M → Bool
  | .trySend _ => false
  | .drop => false
  | _ => true

def step (m : UdpAssociationManager) : Event M → Option UdpAssociationManager
  | .recvFrom peer data => some (m.recvFrom peer data)
  | .expire peer => m.expire peer
  | .assoc i e => if isOwn e then some (m.modify i fun a => a.step M key e) else none

def machine : Machine UdpAssociationManager (Event M) where
  init := new
  step := step M key

/-- What a client has sent. -/
def datagrams (received : List (SocketAddr × Bytes)) (peer : SocketAddr) : List Bytes :=
  (received.filter fun x => x.1 = peer).map Prod.snd

/-! ## What an association gets -/

variable {M} {key}

/-- Neither what was accepted nor whether it is dropped is changed. -/
def Keeps (a a' : Association) : Prop := a'.accepted = a.accepted ∧ (a'.dropping = none ↔ a.dropping = none)

theorem keeps_received (a : Association) (t : ℕ) (x : Arrival) (found : Option (Address × Bytes)) (ok : Bool) :
    Keeps a (a.received t x found ok) := by
  unfold Keeps Association.received
  match found with
  | none => exact ⟨rfl, Iff.rfl⟩
  | some (addr, data) =>
    cases hd : respond addr data with
    | none => simp [hd]
    | some d =>
      cases ok with
      | true => simp [hd]
      | false => simp [hd]

theorem copyR2l_keeps {a a' : Association} {t : ℕ} {x : Arrival} {ok : Bool} (h : a.copyR2l M key t x ok = some a') :
    Keeps a a' := by
  unfold copyR2l at h
  cases hrunning : a.running t with
  | none =>
    rw [hrunning] at h
    cases h
  | some task =>
    rw [hrunning] at h
    cases x with
    | packet packet =>
      obtain ⟨-, hs⟩ := Option.ite_none_right_eq_some.1 h
      cases hs
      exact keeps_received a t _ _ ok
    | datagram source data =>
      obtain ⟨-, hs⟩ := Option.ite_none_right_eq_some.1 h
      cases hs
      exact keeps_received a t _ _ ok

theorem own_keeps {a a' : Association} {e : Association.Event M} (he : isOwn e = true) (h : a.step M key e = some a') :
    Keeps a a' := by
  cases e with
  | trySend p => cases he
  | drop => cases he
  | abortNext => grind [Keeps, Association.step, abortNext]
  | copyL2r bypassed looked => grind [Keeps, Association.step, copyL2r]
  | lock connects => grind [Keeps, Association.step, lock, locked]
  | send salt ok => grind [Keeps, Association.step, send]
  | resetL2r => grind [Keeps, Association.step, resetL2r]
  | copyR2l t x ok => exact copyR2l_keeps h
  | failR2l t => grind [Keeps, Association.step, failR2l]
  | resetR2l t => grind [Keeps, Association.step, resetR2l]
  | cancel t => grind [Keeps, Association.step, cancel]

/-- An association of `peer`: it makes a run of its own, and was given, in order, some of what the client sent. -/
structure Fed (M : Method) (key : Bytes) (received : List (SocketAddr × Bytes)) (peer : SocketAddr) (a : Association) :
    Prop where
  run : ∃ es, (Association.machine M key).run Association.new es = some a
  accepted : ∃ ds, ds.Sublist (datagrams received peer) ∧ List.Forall₂ (fun p d => inbound d = some p) a.accepted ds

variable {received : List (SocketAddr × Bytes)} {peer : SocketAddr} {a a' : Association}

theorem datagrams_append (received : List (SocketAddr × Bytes)) (peer peer' : SocketAddr) (data : Bytes) :
    datagrams (received ++ [(peer', data)]) peer =
      datagrams received peer ++ if peer' = peer then [data] else [] := by
  unfold datagrams
  rw [List.filter_append, List.map_append]
  by_cases hp : peer' = peer
  · simp [hp]
  · simp [hp]

theorem Fed.mono (h : Fed M key received peer a) (x : SocketAddr × Bytes) : Fed M key (received ++ [x]) peer a := by
  obtain ⟨ds, hsub, hall⟩ := h.accepted
  refine ⟨h.run, ds, ?_, hall⟩
  rw [datagrams_append]
  exact hsub.trans (List.sublist_append_left _ _)

/-- A step of its own. -/
theorem Fed.step {e : Association.Event M} (h : Fed M key received peer a) (hstep : a.step M key e = some a')
    (hacc : a'.accepted = a.accepted) : Fed M key received peer a' := by
  obtain ⟨es, hrun⟩ := h.run
  refine ⟨⟨es ++ [e], ?_⟩, ?_⟩
  · rw [Machine.run_append, hrun, Option.bind_some]
    have hone : (Association.machine M key).step a e = some a' := hstep
    rw [Machine.run, hone]
    rfl
  · rw [hacc]
    exact h.accepted

/-- A packet comes into the queue, or is refused. -/
theorem trySend_cases (hd : a.dropping = none) (p : Packet) :
    ∃ a', a.trySend p = some a' ∧ a'.dropping = none ∧
      (a'.accepted = a.accepted ∨ a'.accepted = a.accepted ++ [p]) := by
  unfold trySend
  rw [if_neg (not_not.2 hd)]
  by_cases hq : a.l2r ≠ .returned ∧ a.queue.length < CAPACITY
  · exact ⟨_, if_pos hq, hd, Or.inr rfl⟩
  · exact ⟨_, if_neg hq, hd, Or.inl rfl⟩

theorem Fed.trySend (h : Fed M key received peer a) (hd : a.dropping = none) {data : Bytes} {p : Packet}
    (hp : inbound data = some p) :
    Fed M key (received ++ [(peer, data)]) peer ((a.trySend p).getD a) ∧ ((a.trySend p).getD a).dropping = none := by
  obtain ⟨a', hsend, hd', hacc⟩ := trySend_cases hd p
  rw [hsend, Option.getD_some]
  refine ⟨?_, hd'⟩
  have hstep : a.step M key (.trySend p) = some a' := hsend
  rcases hacc with hacc | hacc
  · exact (h.step hstep hacc).mono _
  · obtain ⟨es, hrun⟩ := h.run
    obtain ⟨ds, hsub, hall⟩ := h.accepted
    refine ⟨⟨es ++ [.trySend p], ?_⟩, ds ++ [data], ?_, ?_⟩
    · rw [Machine.run_append, hrun, Option.bind_some]
      have hone : (Association.machine M key).step a (.trySend p) = some a' := hstep
      rw [Machine.run, hone]
      rfl
    · rw [datagrams_append, if_pos rfl]
      exact hsub.append (List.Sublist.refl _)
    · rw [hacc]
      exact List.rel_append hall (.cons hp .nil)

theorem fed_new (M : Method) (key : Bytes) (received : List (SocketAddr × Bytes)) (peer : SocketAddr) :
    Fed M key received peer Association.new where
  run := ⟨[], rfl⟩
  accepted := ⟨[], List.nil_sublist _, .nil⟩

/-! ## What the manager keeps -/

variable {m m' : UdpAssociationManager} {f : Association → Option Association} {i j : ℕ}

/-- An association after an operation of the `i`-th. -/
theorem modify_get (h : (m.modify i f).assocs[j]? = some (peer, a')) :
    ∃ a, m.assocs[j]? = some (peer, a) ∧ ((i = j ∧ a' = (f a).getD a) ∨ (i ≠ j ∧ a' = a)) := by
  have h : (m.assocs.modify i fun (peer, a) => (peer, (f a).getD a))[j]? = some (peer, a') := h
  by_cases hij : i = j
  · subst hij
    rw [List.getElem?_modify_eq] at h
    obtain ⟨⟨peer₀, a⟩, ha, heq⟩ := Option.map_eq_some_iff.1 h
    cases heq
    exact ⟨a, ha, Or.inl ⟨rfl, rfl⟩⟩
  · rw [List.getElem?_modify_ne _ _ hij] at h
    exact ⟨a', h, Or.inr ⟨hij, rfl⟩⟩

theorem modify_found (h : ∃ a, m.assocs[j]? = some (peer, a)) : ∃ a, (m.modify i f).assocs[j]? = some (peer, a) := by
  obtain ⟨a, ha⟩ := h
  unfold modify
  by_cases hij : i = j
  · subst hij
    refine ⟨(f a).getD a, ?_⟩
    rw [List.getElem?_modify_eq, ha]
    rfl
  · refine ⟨a, ?_⟩
    rw [List.getElem?_modify_ne _ _ hij]
    exact ha

/-- An association of the longer list is an old one, or the new one. -/
theorem concat_get {assocs : List (SocketAddr × Association)} {peer' : SocketAddr}
    (h : (assocs ++ [(peer, a)])[j]? = some (peer', a')) :
    (j < assocs.length ∧ assocs[j]? = some (peer', a')) ∨ (j = assocs.length ∧ peer' = peer ∧ a' = a) := by
  by_cases hj : j < assocs.length
  · rw [List.getElem?_append_left hj] at h
    exact Or.inl ⟨hj, h⟩
  · have hlt := (List.getElem?_eq_some_iff.1 h).1
    rw [List.length_append, List.length_singleton] at hlt
    have hlen : j = assocs.length := by omega
    subst hlen
    rw [List.getElem?_concat_length] at h
    cases h
    exact Or.inr ⟨rfl, rfl, rfl⟩

/-- **What every step keeps**: the associations that are not dropped are those in the map. -/
structure Relaying (M : Method) (key : Bytes) (m : UdpAssociationManager) : Prop where
  fed : ∀ (i : ℕ) (peer : SocketAddr) (a : Association), m.assocs[i]? = some (peer, a) → Fed M key m.received peer a
  mapped : ∀ (i : ℕ) (peer : SocketAddr) (a : Association), m.assocs[i]? = some (peer, a) →
    (m.assocMap peer = some i ↔ a.dropping = none)
  found : ∀ (peer : SocketAddr) (i : ℕ), m.assocMap peer = some i → ∃ a : Association, m.assocs[i]? = some (peer, a)

/-- The client has an association. -/
theorem Relaying.send_mapped (h : m.Relaying M key) {data : Bytes} {p : Packet} (hp : inbound data = some p)
    (hi : m.assocMap peer = some i) :
    Relaying M key ({ m with received := m.received ++ [(peer, data)] }.modify i fun a => a.trySend p) := by
  obtain ⟨a₀, ha₀⟩ := h.found peer i hi
  have hopen : a₀.dropping = none := (h.mapped i peer a₀ ha₀).1 hi
  have hsend := (h.fed i peer a₀ ha₀).trySend hopen hp
  constructor
  · intro j peer' a' ha'
    obtain ⟨a, ha, ⟨rfl, rfl⟩ | ⟨-, rfl⟩⟩ := modify_get ha'
    · have heq := ha₀.symm.trans ha
      cases heq
      exact hsend.1
    · exact (h.fed j peer' _ ha).mono _
  · intro j peer' a' ha'
    obtain ⟨a, ha, ⟨rfl, rfl⟩ | ⟨-, rfl⟩⟩ := modify_get ha'
    · have heq := ha₀.symm.trans ha
      cases heq
      exact ⟨fun _ => hsend.2, fun _ => hi⟩
    · exact h.mapped j peer' _ ha
  · intro peer' j hj
    exact modify_found (h.found peer' j hj)

/-- The client has none: one is created. -/
theorem Relaying.send_new (h : m.Relaying M key) {data : Bytes} {p : Packet} (hp : inbound data = some p)
    (hnone : m.assocMap peer = none) :
    Relaying M key ⟨Function.update m.assocMap peer (some m.assocs.length),
      m.assocs ++ [(peer, (Association.new.trySend p).getD Association.new)], m.received ++ [(peer, data)]⟩ := by
  have hsend := (fed_new M key m.received peer).trySend rfl hp
  have hself : Function.update m.assocMap peer (some m.assocs.length) peer = some m.assocs.length :=
    Function.update_self _ _ _
  have hother : ∀ {peer'}, peer' ≠ peer →
      Function.update m.assocMap peer (some m.assocs.length) peer' = m.assocMap peer' :=
    fun hne => Function.update_of_ne hne _ _
  constructor
  · intro j peer' a' ha'
    rcases concat_get ha' with ⟨-, ha⟩ | ⟨-, rfl, rfl⟩
    · exact (h.fed j peer' a' ha).mono _
    · exact hsend.1
  · intro j peer' a' ha'
    rcases concat_get ha' with ⟨hj, ha⟩ | ⟨rfl, rfl, rfl⟩
    · have hold := h.mapped j peer' a' ha
      by_cases hpeer : peer' = peer
      · subst hpeer
        rw [hnone] at hold
        constructor
        · intro hmap
          have hlen := hself.symm.trans hmap
          cases hlen
          omega
        · intro hd
          exact absurd (hold.2 hd) (Option.some_ne_none _).symm
      · exact (Iff.of_eq (congrArg (fun x => x = some j) (hother hpeer))).trans hold
    · exact ⟨fun _ => hsend.2, fun _ => hself⟩
  · intro peer' j hj
    by_cases hpeer : peer' = peer
    · subst hpeer
      have hlen := hself.symm.trans hj
      cases hlen
      exact ⟨_, List.getElem?_concat_length⟩
    · obtain ⟨a, ha⟩ := h.found peer' j ((hother hpeer).symm.trans hj)
      have hlt := (List.getElem?_eq_some_iff.1 ha).1
      exact ⟨a, (List.getElem?_append_left hlt).trans ha⟩

theorem Relaying.recvFrom (h : m.Relaying M key) (peer : SocketAddr) (data : Bytes) :
    (m.recvFrom peer data).Relaying M key := by
  unfold UdpAssociationManager.recvFrom
  cases hp : inbound data with
  | none =>
    exact ⟨fun i peer' a ha => (h.fed i peer' a ha).mono _, h.mapped, h.found⟩
  | some p =>
    unfold sendTo
    cases hi : m.assocMap peer with
    | some i =>
      simp only [hi]
      exact h.send_mapped hp hi
    | none =>
      simp only [hi]
      exact h.send_new hp hi

theorem Relaying.expire (h : m.Relaying M key) (hstep : m.expire peer = some m') : m'.Relaying M key := by
  obtain ⟨i, hi, rfl⟩ := Option.map_eq_some_iff.1 hstep
  obtain ⟨a₀, ha₀⟩ := h.found peer i hi
  have hopen : a₀.dropping = none := (h.mapped i peer a₀ ha₀).1 hi
  obtain ⟨a₁, hdrop, hdropped, hacc⟩ : ∃ a₁, a₀.drop = some a₁ ∧ a₁.dropping ≠ none ∧ a₁.accepted = a₀.accepted := by
    refine ⟨_, if_pos hopen, ?_, rfl⟩
    intro hd
    cases hd
  have hself : Function.update m.assocMap peer none peer = none := Function.update_self _ _ _
  have hother : ∀ {peer'}, peer' ≠ peer → Function.update m.assocMap peer none peer' = m.assocMap peer' :=
    fun hne => Function.update_of_ne hne _ _
  constructor
  · intro j peer' a' ha'
    obtain ⟨a, ha, ⟨rfl, rfl⟩ | ⟨-, rfl⟩⟩ := modify_get ha'
    · have heq := ha₀.symm.trans ha
      cases heq
      rw [hdrop, Option.getD_some]
      exact Fed.step (e := .drop) (h.fed i _ a₀ ha₀) hdrop hacc
    · exact h.fed j peer' _ ha
  · intro j peer' a' ha'
    obtain ⟨a, ha, ⟨rfl, rfl⟩ | ⟨hij, rfl⟩⟩ := modify_get ha'
    · have heq := ha₀.symm.trans ha
      cases heq
      rw [hdrop, Option.getD_some]
      exact ⟨fun hmap => absurd (hself.symm.trans hmap) (Option.some_ne_none _).symm,
        fun hd => absurd hd hdropped⟩
    · have hold := h.mapped j peer' _ ha
      by_cases hpeer : peer' = peer
      · subst hpeer
        refine ⟨fun hmap => absurd (hself.symm.trans hmap) (Option.some_ne_none _).symm, fun hd => ?_⟩
        have hij' := hi.symm.trans (hold.2 hd)
        cases hij'
        exact absurd rfl hij
      · exact (Iff.of_eq (congrArg (fun x => x = some j) (hother hpeer))).trans hold
  · intro peer' j hj
    by_cases hpeer : peer' = peer
    · subst hpeer
      exact absurd (hself.symm.trans hj) (Option.some_ne_none _).symm
    · exact modify_found (h.found peer' j ((hother hpeer).symm.trans hj))

theorem Relaying.assoc (h : m.Relaying M key) {e : Association.Event M} (he : isOwn e = true) (i : ℕ) :
    (m.modify i fun a => a.step M key e).Relaying M key := by
  -- the association goes on, or is as it was
  have hcases : ∀ a : Association, (a.step M key e).getD a = a ∨
      ∃ a', a.step M key e = some a' ∧ (a.step M key e).getD a = a' ∧ Keeps a a' := by
    intro a
    cases hstep : a.step M key e with
    | none => exact Or.inl rfl
    | some a' => exact Or.inr ⟨a', rfl, rfl, own_keeps he hstep⟩
  constructor
  · intro j peer' a' ha'
    obtain ⟨a, ha, ⟨rfl, rfl⟩ | ⟨-, rfl⟩⟩ := modify_get ha'
    · have hfed := h.fed i peer' a ha
      rcases hcases a with hsame | ⟨a₁, hstep, hget, hkeeps⟩
      · rw [hsame]
        exact hfed
      · rw [hget]
        exact hfed.step hstep hkeeps.1
    · exact h.fed j peer' _ ha
  · intro j peer' a' ha'
    obtain ⟨a, ha, ⟨rfl, rfl⟩ | ⟨-, rfl⟩⟩ := modify_get ha'
    · have hold := h.mapped i peer' a ha
      rcases hcases a with hsame | ⟨a₁, hstep, hget, hkeeps⟩
      · rw [hsame]
        exact hold
      · rw [hget]
        exact hold.trans hkeeps.2.symm
    · exact h.mapped j peer' _ ha
  · intro peer' j hj
    exact modify_found (h.found peer' j hj)

theorem Relaying.step {e : Event M} (h : m.Relaying M key) (hstep : m.step M key e = some m') : m'.Relaying M key := by
  cases e with
  | recvFrom peer data =>
    cases hstep
    exact h.recvFrom peer data
  | expire peer => exact h.expire hstep
  | assoc i e =>
    obtain ⟨he, hs⟩ := Option.ite_none_right_eq_some.1 hstep
    cases hs
    exact h.assoc he i

theorem relaying_new : new.Relaying M key where
  fed := by
    intro i peer a ha
    cases ha
  mapped := by
    intro i peer a ha
    cases ha
  found := by
    intro peer i hi
    cases hi

variable {es : List (Event M)}

theorem run_relaying (hrun : (machine M key).run new es = some m) : m.Relaying M key := by
  refine Machine.run_inv (P := Relaying M key) ?_ relaying_new hrun
  intro m e m' h hstep
  exact h.step hstep

def client : SocketAddr := .v4 ⟨[192, 168, 1, 2], rfl⟩ 4000

def other : SocketAddr := .v4 ⟨[192, 168, 1, 3], rfl⟩ 4000

/-- A datagram for 127.0.0.1:80. -/
def outgoing (frag payload : UInt8) : Bytes := [0, 0, frag, 1, 127, 0, 0, 1, 0, 80, payload]

/-- Two clients; a fragment is not relayed. The first association expires, and another one is created. -/
def relayed : List (Event .marking) :=
  [.recvFrom client (outgoing 1 8), .recvFrom client (outgoing 0 9), .recvFrom other (outgoing 0 7),
    .assoc 0 (.copyL2r false none), .assoc 0 (.lock true), .assoc 0 (.send ⟨[7], rfl⟩ true), .expire client,
    .recvFrom client (outgoing 0 6)]

/-- **What is put on the sockets of a client's association is what this client sent**: each datagram at most once,
in this order. -/
theorem run_relays (hM : M.Lawful) (hrun : (machine M key).run new es = some m)
    (ha : m.assocs[i]? = some (peer, a)) :
    ∃ ds, ds.Sublist (datagrams m.received peer) ∧
      List.Forall₂ (fun x d => ∃ p, inbound d = some p ∧ Carries M key a.resolved x p) a.sent ds := by
  have hfed := (run_relaying hrun).fed i peer a ha
  obtain ⟨es', hown⟩ := hfed.run
  obtain ⟨forwarded, hsub, hsent⟩ := run_forwards hM hown
  obtain ⟨ds, hds, hall⟩ := hfed.accepted
  obtain ⟨ds', hds', hall'⟩ := sublist_of_forall₂ hsub hall
  exact ⟨ds', hds'.trans hds, comp_of_forall₂ hsent hall'⟩

theorem run_relays_two_clients :
    ∃ m a, (machine .marking []).run new relayed = some m ∧ m.assocs[0]? = some (client, a) ∧ a.sent.length = 1 ∧
      ∃ ds, ds.Sublist (datagrams m.received client) ∧
        List.Forall₂ (fun x d => ∃ p, inbound d = some p ∧ Carries .marking [] a.resolved x p) a.sent ds := by
  obtain ⟨m, a, hrun, ha, hsent⟩ : ∃ m a, (machine .marking []).run new relayed = some m ∧
      m.assocs[0]? = some (client, a) ∧ a.sent.length = 1 := ⟨_, _, rfl, rfl, rfl⟩
  exact ⟨m, a, hrun, ha, hsent, run_relays Method.marking_lawful hrun ha⟩

/-- **A client has one association at a time**: the map has the one that is not dropped. -/
theorem run_single (hrun : (machine M key).run new es = some m) :
    m.assocMap peer = some i ↔ ∃ a, m.assocs[i]? = some (peer, a) ∧ a.dropping = none := by
  have h := run_relaying hrun
  constructor
  · intro hi
    obtain ⟨a, ha⟩ := h.found peer i hi
    exact ⟨a, ha, (h.mapped i peer a ha).1 hi⟩
  · rintro ⟨a, ha, hopen⟩
    exact (h.mapped i peer a ha).2 hopen

theorem run_single_expired :
    ∃ m, (machine .marking []).run new relayed = some m ∧ m.assocs.length = 3 ∧ m.assocMap client = some 2 ∧
      ∃ a, m.assocs[2]? = some (client, a) ∧ a.dropping = none := by
  obtain ⟨m, hrun, hlength, hmap⟩ : ∃ m, (machine .marking []).run new relayed = some m ∧ m.assocs.length = 3 ∧
      m.assocMap client = some 2 := ⟨_, rfl, rfl, rfl⟩
  exact ⟨m, hrun, hlength, hmap, (run_single hrun).1 hmap⟩

end UdpAssociationManager

end Relay

end BlackButton
