import BlackButton.Relay.Association

/-!
# When a UDP association loses a packet (`local/net/udp/association.rs`)

Whatever fails, `run_forwards` says that packets go out in order and at most once. Here it is counted
which of them go out at all. A failed send to the server is tried again, on a new socket.

* `step_count`: **the balance of a step**. What was sent and what may still be grows with what is accepted,
  and falls by one if the step gives a packet up.
* `run_lossless`: **nothing is lost exactly if no step gives a packet up**, in every run; then each accepted packet
  is sent once, or is being relayed, or waits.
-/

namespace BlackButton

open Async

namespace Relay

namespace Association

variable {M : Method} {key : Bytes} {s s' : Association} {es : List (Event M)}

/-! ## The balance of a step -/

/-- Whether a packet is given up at a lock; `last` is whether there is no other address. -/
def SocketState.givesUp (state : SocketState) (connects last : Bool) : Bool :=
  match state with
  | .empty => !connects && last
  | .connected _ => false
  | .aborted => true

variable (M key) in
/-- Whether a packet is given up: its name has no address, no socket for it can be opened or is left, it cannot be
written, or it cannot be sent: to the last address, or three times to the server. -/
def givesUp (s : Association) : Event M → Bool
  | .copyL2r bypassed looked =>
    match s.queue with
    | (.domainNameAddress _ _, _) :: _ => bypassed && (looked.getD []).isEmpty
    | _ => false
  | .lock connects =>
    match s.l2r with
    | .bypassing (addr :: addrs) _ => (s.sockets.state (kindOf addr)).givesUp connects addrs.isEmpty
    | .proxying _ _ => (s.sockets.state .proxied).givesUp connects true
    | _ => false
  | .send salt ok =>
    match s.l2r with
    | .sendingTo _ _ addrs _ => !ok && addrs.isEmpty
    | .sending _ _ p => (encryptPayload M key salt.val p.1 p.2).isNone
    | _ => false
  | .resetL2r =>
    match s.l2r with
    | .resetting tried _ => 3 ≤ tried + 1
    | _ => false
  | _ => false

variable (M key) in
/-- **Nothing is lost**: what was accepted was sent, in order, or is in the hand or in the queue. -/
def Lossless (s : Association) : Prop :=
  ∃ forwarded, s.accepted = forwarded ++ s.l2r.hand ++ s.queue ∧ List.Forall₂ (Carries M key s.resolved) s.sent forwarded

/-- Those that were sent and those that may still be. -/
def tally (s : Association) : ℕ := s.sent.length + s.l2r.hand.length + s.queue.length

/-- Nothing is lost if the number is right: the order is kept anyway. -/
theorem lossless_iff (hf : s.Forwards M key) : s.Lossless M key ↔ s.accepted.length = s.tally := by
  unfold tally
  constructor
  · rintro ⟨forwarded, hacc, hall⟩
    have hlength := hall.length_eq
    rw [hacc, List.length_append, List.length_append]
    omega
  · intro hcount
    obtain ⟨taken, forwarded, hacc, hsub, hall⟩ := hf
    have hlength := hall.length_eq
    rw [hacc, List.length_append, List.length_append] at hcount
    -- as many were sent as were taken
    have heq : forwarded = taken := hsub.eq_of_length (by omega)
    subst heq
    exact ⟨forwarded, hacc, hall⟩

theorem length_nextAddr (addrs : List SocketAddr) (p : Packet) :
    (nextAddr addrs p).hand.length + addrs.isEmpty.toNat = 1 := by
  cases addrs with
  | nil => rfl
  | cons addr addrs => rfl

/-- A lock gives up the packet, or keeps it. -/
theorem locked_count {k : Kind} {connects last : Bool} {ok : ℕ → L2r} {error : L2r}
    (hhand : s.l2r.hand.length = 1) (hok : ∀ t, (ok t).hand.length = 1) (herror : error.hand.length + last.toNat = 1) :
    (s.locked k connects ok error).tally + ((s.sockets.state k).givesUp connects last).toNat = s.tally ∧
      (s.locked k connects ok error).accepted = s.accepted := by
  unfold locked SocketState.givesUp tally
  cases hk : s.sockets.state k with
  | empty =>
    cases connects with
    | true =>
      have hlength := hok s.sockets.tasks.length
      refine ⟨?_, rfl⟩
      simp
      omega
    | false =>
      refine ⟨?_, rfl⟩
      simp
      omega
  | connected t =>
    have hlength := hok t
    refine ⟨?_, rfl⟩
    simp
    omega
  | aborted =>
    refine ⟨?_, rfl⟩
    have hwaiting : L2r.waiting.hand.length = 0 := rfl
    simp
    omega

variable (M key) in
theorem lock_count {connects : Bool} (h : s.lock connects = some s') :
    s'.tally + (s.givesUp M key (.lock connects)).toNat = s.tally ∧ s'.accepted = s.accepted := by
  unfold lock at h
  unfold givesUp
  cases hl : s.l2r with
  | bypassing addrs p =>
    cases addrs with
    | nil =>
      rw [hl] at h
      cases h
    | cons addr addrs =>
      rw [hl] at h
      cases h
      exact locked_count (by rw [hl]; rfl) (fun t => rfl) (length_nextAddr addrs p)
  | proxying tried p =>
    rw [hl] at h
    cases h
    exact locked_count (by rw [hl]; rfl) (fun t => rfl) rfl
  | waiting | sendingTo | sending | resetting | returned =>
    rw [hl] at h
    cases h

theorem send_count {salt : List.Vector UInt8 M.kind.saltLen} {ok : Bool} (h : s.send M key salt ok = some s') :
    s'.tally + (s.givesUp M key (.send salt ok)).toNat = s.tally ∧ s'.accepted = s.accepted := by
  unfold send at h
  unfold givesUp tally
  cases hl : s.l2r with
  | sendingTo t addr addrs p =>
    rw [hl] at h
    cases ok with
    | true =>
      cases h
      refine ⟨?_, rfl⟩
      simp [L2r.hand]
    | false =>
      cases h
      have hnext := length_nextAddr addrs p
      have hhand : (L2r.sendingTo t addr addrs p).hand.length = 1 := rfl
      refine ⟨?_, rfl⟩
      simp
      omega
  | sending tried t p =>
    rw [hl] at h
    cases hpacket : encryptPayload M key salt.val p.1 p.2 with
    | none =>
      simp only [hpacket] at h
      cases h
      refine ⟨?_, rfl⟩
      simp [L2r.hand, hpacket]
      omega
    | some packet =>
      simp only [hpacket] at h
      cases ok with
      | true =>
        cases h
        refine ⟨?_, rfl⟩
        simp [L2r.hand, hpacket]
      | false =>
        cases h
        refine ⟨?_, rfl⟩
        simp [L2r.hand, hpacket]
  | waiting | bypassing | proxying | resetting | returned =>
    rw [hl] at h
    cases h

variable (M key) in
theorem resetL2r_count (h : s.resetL2r = some s') :
    s'.tally + (s.givesUp M key .resetL2r).toNat = s.tally ∧ s'.accepted = s.accepted := by
  unfold resetL2r at h
  unfold givesUp tally
  cases hl : s.l2r with
  | resetting tried p =>
    rw [hl] at h
    cases h
    refine ⟨?_, rfl⟩
    by_cases hlt : tried + 1 < 3
    · have hle : ¬3 ≤ tried + 1 := by omega
      simp [hlt, hle, L2r.hand]
    · have hle : 3 ≤ tried + 1 := by omega
      simp [hlt, hle, L2r.hand]
      omega
  | waiting | bypassing | sendingTo | proxying | sending | returned =>
    rw [hl] at h
    cases h

/-- A packet is taken from the queue, and kept or given up. -/
theorem taken_count {p : Packet} {queue : List Packet} {l2r : L2r} {resolved : List (Packet × List SocketAddr)}
    {lost : Bool} (hw : s.l2r = .waiting) (hq : s.queue = p :: queue) (hhand : l2r.hand.length + lost.toNat = 1) :
    tally { s with queue, l2r, resolved } + lost.toNat = s.tally := by
  unfold tally
  have hwaiting : s.l2r.hand.length = 0 := by
    rw [hw]
    rfl
  rw [hq, List.length_cons]
  simp only
  omega

variable (M key) in
theorem copyL2r_count {bypassed : Bool} {looked : Option (List SocketAddr)} (h : s.copyL2r bypassed looked = some s') :
    s'.tally + (s.givesUp M key (.copyL2r bypassed looked)).toNat = s.tally ∧ s'.accepted = s.accepted := by
  unfold copyL2r at h
  unfold givesUp
  by_cases hw : s.l2r = .waiting
  swap
  · rw [if_pos hw] at h
    cases h
  rw [if_neg (not_not.2 hw)] at h
  cases hq : s.queue with
  | nil =>
    simp only [hq] at h
    obtain ⟨-, hs⟩ := Option.ite_none_right_eq_some.1 h
    cases hs
    refine ⟨?_, rfl⟩
    simp [hw, hq, tally, L2r.hand]
  | cons p queue =>
    simp only [hq] at h
    obtain ⟨target, data⟩ := p
    cases bypassed with
    | false =>
      cases h
      refine ⟨taken_count hw hq ?_, rfl⟩
      cases target <;> rfl
    | true =>
      cases h
      refine ⟨taken_count hw hq ?_, rfl⟩
      cases target with
      | socketAddress sa => rfl
      | domainNameAddress domain port =>
        -- without an address it is given up
        cases looked with
        | none => rfl
        | some addrs => cases addrs <;> rfl

theorem trySend_count {p : Packet} (h : s.trySend p = some s') :
    s'.tally + s.accepted.length = s.tally + s'.accepted.length := by
  unfold trySend at h
  unfold tally
  split_ifs at h with hd hq
  · cases h
    simp
    omega
  · cases h
    rfl

theorem received_count (t : ℕ) (a : Arrival) (found : Option (Address × Bytes)) (ok : Bool) :
    (s.received t a found ok).tally = s.tally ∧ (s.received t a found ok).accepted = s.accepted := by
  unfold received
  match found with
  | none => exact ⟨rfl, rfl⟩
  | some (addr, data) =>
    cases hd : respond addr data with
    | none => simp [hd, tally]
    | some d =>
      cases ok with
      | true => simp [hd, tally]
      | false => simp [hd, tally]

theorem copyR2l_count {t : ℕ} {a : Arrival} {ok : Bool} (h : s.copyR2l M key t a ok = some s') :
    s'.tally = s.tally ∧ s'.accepted = s.accepted := by
  unfold copyR2l at h
  cases hx : s.running t with
  | none =>
    rw [hx] at h
    cases h
  | some x =>
    rw [hx] at h
    cases a with
    | packet packet =>
      obtain ⟨-, hs⟩ := Option.ite_none_right_eq_some.1 h
      cases hs
      exact received_count t _ _ ok
    | datagram source data =>
      obtain ⟨-, hs⟩ := Option.ite_none_right_eq_some.1 h
      cases hs
      exact received_count t _ _ ok

/-- **The balance of a step**: what is accepted is to be sent, and one packet less if it is given up. -/
theorem step_count {e : Event M} (h : s.step M key e = some s') :
    s'.tally + (s.givesUp M key e).toNat + s.accepted.length = s.tally + s'.accepted.length := by
  cases e with
  | trySend p => exact trySend_count h
  | copyL2r bypassed looked =>
    obtain ⟨hcount, hacc⟩ := copyL2r_count M key h
    rw [hcount, hacc]
  | lock connects =>
    obtain ⟨hcount, hacc⟩ := lock_count M key h
    rw [hcount, hacc]
  | send salt ok =>
    obtain ⟨hcount, hacc⟩ := send_count h
    rw [hcount, hacc]
  | resetL2r =>
    obtain ⟨hcount, hacc⟩ := resetL2r_count M key h
    rw [hcount, hacc]
  | copyR2l t a ok =>
    obtain ⟨hcount, hacc⟩ := copyR2l_count h
    rw [hcount, hacc]
    rfl
  | drop =>
    obtain ⟨-, hs⟩ := Option.ite_none_right_eq_some.1 h
    cases hs
    rfl
  | abortNext =>
    have h : s.abortNext = some s' := h
    unfold abortNext at h
    split at h
    · cases h
      rfl
    · cases h
  | failR2l t =>
    have h : s.failR2l t = some s' := h
    unfold failR2l at h
    cases hx : s.running t with
    | none =>
      rw [hx] at h
      cases h
    | some x =>
      rw [hx] at h
      obtain ⟨-, hs⟩ := Option.ite_none_right_eq_some.1 h
      cases hs
      rfl
  | resetR2l t =>
    have h : s.resetR2l t = some s' := h
    unfold resetR2l at h
    cases hx : s.running t with
    | none =>
      rw [hx] at h
      cases h
    | some x =>
      rw [hx] at h
      obtain ⟨-, hs⟩ := Option.ite_none_right_eq_some.1 h
      cases hs
      rfl
  | cancel t =>
    have h : s.cancel t = some s' := h
    unfold cancel at h
    cases hx : s.running t with
    | none =>
      rw [hx] at h
      cases h
    | some x =>
      rw [hx] at h
      obtain ⟨-, hs⟩ := Option.ite_none_right_eq_some.1 h
      cases hs
      rfl

/-! ## Runs -/

variable (M key) in
/-- No packet is given up in the step. -/
def GivesUpNone (s : Association) (e : Event M) : Prop := s.givesUp M key e = false

instance : DecidableRel (GivesUpNone M key) := fun s e => inferInstanceAs (Decidable (s.givesUp M key e = false))

/-- **When nothing is lost**: up to every state of a run exactly if no step of it gives a packet up. -/
theorem run_lossless (hM : M.Lawful) (hrun : (machine M key).run new es = some s) :
    (machine M key).AlongFrom (Lossless M key) new es ↔ (machine M key).MeetsFrom (GivesUpNone M key) new es := by
  refine Machine.along_iff_meets (I := fun s => s.Inv M key ∧ s.Lossless M key) (fun s h => h.2) ?_ ?_ es
    ⟨inv_new, [], rfl, .nil⟩ hrun
  · rintro s e s' ⟨hi, hl⟩ hnone hstep
    have hi' := (step_spec hM hstep).inv hi
    have hcount := step_count hstep
    have hkept : s.givesUp M key e = false := hnone
    rw [hkept, Bool.toNat_false] at hcount
    refine ⟨hi', (lossless_iff hi'.forwards).2 ?_⟩
    have heq := (lossless_iff hi.forwards).1 hl
    omega
  · rintro s e s' ⟨hi, hl⟩ hsome hstep hl'
    have hi' := (step_spec hM hstep).inv hi
    have hcount := step_count hstep
    have hlost : s.givesUp M key e = true := Bool.not_eq_false _ ▸ hsome
    rw [hlost, Bool.toNat_true] at hcount
    have heq := (lossless_iff hi.forwards).1 hl
    have heq' := (lossless_iff hi'.forwards).1 hl'
    omega

/-- Two sends to the server fail, and the third does not. -/
def retried : List (Event .marking) :=
  [.trySend loopback, .copyL2r false none, .lock true, .send ⟨[6], rfl⟩ false, .resetL2r, .lock true,
    .send ⟨[6], rfl⟩ false, .resetL2r, .lock true, .send ⟨[6], rfl⟩ true]

theorem run_lossless_retried :
    ∃ s, (machine .marking []).run new retried = some s ∧ s.sent.length = 1 ∧
      (machine .marking []).AlongFrom (Lossless .marking []) new retried := by
  obtain ⟨s, hrun, hsent⟩ : ∃ s, (machine .marking []).run new retried = some s ∧ s.sent.length = 1 := ⟨_, rfl, rfl⟩
  exact ⟨s, hrun, hsent, (run_lossless Method.marking_lawful hrun).2 (by decide)⟩

end Association

end Relay

end BlackButton
