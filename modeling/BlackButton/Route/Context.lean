import Mathlib.Data.List.Dedup
import BlackButton.Acl.AccessControl
import BlackButton.Lib.Lru
import BlackButton.Lib.Machine
import BlackButton.Relay.Socks5

/-!
# What goes around the proxy (`acl/mod.rs`, `local/context.rs`)

The ACL decides by host or address. For addresses that the local DNS server has given
out, the decision that was made for the name is remembered where it differs from the
ACL's own (`reverse_lookup_cache`); lookups and connections come in any order.

The cache is that of the crate `lru_time_cache`; what is relied on of it is `LruCache.Lawful`.

* `AccessControl.checkTargetBypassed`: the ACL alone.
* `ServiceContext.run_peek`: only exceptions are remembered, and only what was learned last.
* `ServiceContext.run_routes`: **a connection goes where the name was looked up**: what was last
  learned of an address decides, until 10240 other addresses have been used or three
  days have passed; then, and for addresses never learned, the ACL does.
-/

namespace BlackButton

namespace Relay

/-- `SocketAddr::ip`, as its octets. -/
def SocketAddr.ip : SocketAddr → List UInt8
  | .v4 ip _ => ip.val
  | .v6 ip _ _ _ => ip.val.flatMap putU16

end Relay

namespace Sslocal

/-! ## The ACL -/

/-- `Rules::is_ip_empty`. -/
def Rules.isIpEmpty (r : Rules) : Bool := r.ipv4.isEmpty && r.ipv6.isEmpty

/-- `Rules::is_host_empty`. -/
def Rules.isHostEmpty (r : Rules) : Bool := r.rule.isEmpty

/-- `Rules::check_host_matched`. -/
def Rules.checkHostMatched (X : Crates) (r : Rules) (host : Str) : Bool := r.rule.any (X.isMatch · host)

namespace AccessControl

variable (X : Crates)

/-- `check_host_in_proxy_list`. -/
def checkHostInProxyList (c : AccessControl) (host : Str) : Option Bool :=
  if c.whiteList.checkHostMatched X host then some true
  else if c.blackList.checkHostMatched X host then some false
  else none

/-- `AccessControl::is_ip_empty`. -/
def isIpEmpty (c : AccessControl) : Bool :=
  match c.mode with
  | .blackList => c.blackList.isIpEmpty
  | .whiteList => c.whiteList.isIpEmpty

/-- `AccessControl::is_host_empty`. -/
def isHostEmpty (c : AccessControl) : Bool := c.blackList.isHostEmpty && c.whiteList.isHostEmpty

/-- `AccessControl::check_target_bypassed`; `vaddr` is what `dns_resolve` gives, if it is asked. -/
def checkTargetBypassed (c : AccessControl) (vaddr : Option (List Relay.SocketAddr)) : Relay.Address → Bool
  | .socketAddress addr => !c.checkIpInProxyList X addr.ip
  | .domainNameAddress host _ =>
    match c.checkHostInProxyList X host with
    | some value => !value
    | none =>
      if c.isIpEmpty then !c.isDefaultInProxyList
      else
        match vaddr with
        | some vaddr => vaddr.any fun addr => !c.checkIpInProxyList X addr.ip
        | none => false

end AccessControl

/-! ## The context of the service -/

/-- `ServiceContext`, as far as it decides where connections go, with the crate's cache `C`. -/
structure ServiceContext (C : LruCache (List UInt8) Bool) where
  acl : Option AccessControl
  reverseLookupCache : C.Cache

namespace ServiceContext

variable {C : LruCache (List UInt8) Bool} (X : Crates)

/-- The capacity of the cache; "it should be enough for a normal user". -/
def CAPACITY : ℕ := 10240

/-- `ServiceContext::new`, with the ACL set. -/
def new (acl : Option AccessControl) : ServiceContext C := ⟨acl, C.empty⟩

/-- Whether an address is proxied without any lookup; "proxy everything by default". -/
def isProxied (s : ServiceContext C) (ip : List UInt8) : Bool :=
  match s.acl with
  | none => true
  | some a => a.checkIpInProxyList X ip

/-- `ServiceContext::check_target_bypassed`. -/
def checkTargetBypassed (s : ServiceContext C) (addr : Relay.Address) (vaddr : Option (List Relay.SocketAddr)) :
    Bool × ServiceContext C :=
  match s.acl with
  | none => (false, s)
  | some acl =>
    match addr with
    | .socketAddress saddr =>
      let found := C.get s.reverseLookupCache saddr.ip
      let s := { s with reverseLookupCache := found.2 }
      match found.1 with
      | some forward => (!forward, s)
      | none => (acl.checkTargetBypassed X vaddr addr, s)
    | .domainNameAddress _ _ => (acl.checkTargetBypassed X vaddr addr, s)

/-- `add_to_reverse_lookup_cache`. -/
def addToReverseLookupCache (s : ServiceContext C) (addr : List UInt8) (forward : Bool) : ServiceContext C :=
  let isException := forward != s.isProxied X addr
  let found := C.getMut s.reverseLookupCache addr fun value => if isException then forward else value
  match found.1 with
  | some _ =>
    if isException then { s with reverseLookupCache := found.2 }
    -- "we do not need to remember the entry if it is already matched correctly"
    else { s with reverseLookupCache := C.remove found.2 addr }
  | none =>
    if isException then { s with reverseLookupCache := C.insert found.2 addr forward }
    else { s with reverseLookupCache := found.2 }

/-- What happens to the context, by whichever task. -/
inductive Event
  -- an address of an answer of the DNS server, with the side that has answered
  | learn (ip : List UInt8) (forward : Bool)
  | connect (addr : Relay.Address) (vaddr : Option (List Relay.SocketAddr))
  -- three days without a use
  | expire (ip : List UInt8)

def step (s : ServiceContext C) : Event → Option (ServiceContext C)
  | .learn ip forward => some (s.addToReverseLookupCache X ip forward)
  | .connect addr vaddr => some (s.checkTargetBypassed X addr vaddr).2
  | .expire ip => some { s with reverseLookupCache := C.expire s.reverseLookupCache ip }

variable (C) in
def machine (acl : Option AccessControl) : Machine (ServiceContext C) Event where
  init := new acl
  step := step X

/-! ## What is remembered -/

/-- The entries of the cache, the most recently used first. -/
def remembered (s : ServiceContext C) : List (List UInt8 × Bool) := C.peekIter s.reverseLookupCache

/-- What is remembered of an address. -/
def peek (s : ServiceContext C) (ip : List UInt8) : Option Bool := Assoc.get s.remembered ip

/-- Where a connection to an address goes: through the proxy or not. -/
def decide (s : ServiceContext C) (ip : List UInt8) : Bool := (s.peek ip).getD (s.isProxied X ip)

variable {X} {s s' : ServiceContext C} {ip ip' : List UInt8} {forward : Bool}

theorem decide_of_peek (h : s.peek ip = some forward) : s.decide X ip = forward := by
  unfold decide
  rw [h, Option.getD_some]

theorem decide_of_peek_none (h : s.peek ip = none) : s.decide X ip = s.isProxied X ip := by
  unfold decide
  rw [h, Option.getD_none]

/-- **What `check_target_bypassed` answers** for an address. -/
theorem checkTargetBypassed_eq (hC : C.Lawful CAPACITY) {acl : AccessControl} (hacl : s.acl = some acl)
    (saddr : Relay.SocketAddr) (vaddr : Option (List Relay.SocketAddr)) :
    (s.checkTargetBypassed X (.socketAddress saddr) vaddr).1 = !s.decide X saddr.ip := by
  have hproxied : s.isProxied X saddr.ip = acl.checkIpInProxyList X saddr.ip := by
    unfold isProxied
    rw [hacl]
  have hvalue : (C.get s.reverseLookupCache saddr.ip).1 = s.peek saddr.ip := hC.get_value _ _
  unfold checkTargetBypassed
  simp only [hacl, hvalue]
  cases hpeek : s.peek saddr.ip with
  | some forward => rw [decide_of_peek hpeek]
  | none =>
    rw [decide_of_peek_none hpeek, hproxied]
    rfl

/-- **What a step does to the entries**: an address is learned, used or expires. -/
theorem remembered_connect (hC : C.Lawful CAPACITY) (X : Crates) (s : ServiceContext C) (addr : Relay.Address)
    (vaddr : Option (List Relay.SocketAddr)) :
    (s.checkTargetBypassed X addr vaddr).2.acl = s.acl ∧
      ((s.checkTargetBypassed X addr vaddr).2.remembered = s.remembered ∨
        ∃ saddr, addr = .socketAddress saddr ∧
          (s.checkTargetBypassed X addr vaddr).2.remembered = Lru.touched s.remembered saddr.ip id) := by
  unfold checkTargetBypassed
  cases hacl : s.acl with
  | none => exact ⟨hacl, Or.inl rfl⟩
  | some acl =>
    cases addr with
    | domainNameAddress host port => exact ⟨hacl, Or.inl rfl⟩
    | socketAddress saddr =>
      have htouched := hC.get s.reverseLookupCache saddr.ip
      cases hfound : (C.get s.reverseLookupCache saddr.ip).1 with
      | none =>
        simp only [hfound]
        exact ⟨trivial, Or.inr ⟨saddr, rfl, htouched⟩⟩
      | some forward =>
        simp only [hfound]
        exact ⟨trivial, Or.inr ⟨saddr, rfl, htouched⟩⟩

/-- The entries after something is learned. -/
def learned (m : List (List UInt8 × Bool)) (proxied : Bool) (ip : List UInt8) (forward : Bool) :
    List (List UInt8 × Bool) :=
  if forward ≠ proxied then
    if (Assoc.get m ip).isSome then Lru.touched m ip fun _ => forward else Lru.inserted CAPACITY m ip forward
  else Assoc.remove m ip

theorem remembered_learn (hC : C.Lawful CAPACITY) (X : Crates) (s : ServiceContext C) (ip : List UInt8)
    (forward : Bool) :
    (s.addToReverseLookupCache X ip forward).acl = s.acl ∧
      (s.addToReverseLookupCache X ip forward).remembered = learned s.remembered (s.isProxied X ip) ip forward := by
  have hvalue := hC.getMut_value s.reverseLookupCache ip
    fun value => if (forward != s.isProxied X ip) = true then forward else value
  have htouched := hC.getMut s.reverseLookupCache ip
    fun value => if (forward != s.isProxied X ip) = true then forward else value
  unfold addToReverseLookupCache learned
  by_cases hexc : forward ≠ s.isProxied X ip
  · have hbne : (forward != s.isProxied X ip) = true := by simpa using hexc
    simp only [hbne, if_true] at hvalue htouched
    simp only [hbne, if_true, if_pos hexc, hvalue]
    cases hget : Assoc.get (C.peekIter s.reverseLookupCache) ip with
    | none =>
      have hnone : Assoc.get s.remembered ip = none := hget
      refine ⟨rfl, ?_⟩
      -- nothing was found, so nothing was used
      have hsame : Lru.touched (C.peekIter s.reverseLookupCache) ip (fun _ => forward) =
          C.peekIter s.reverseLookupCache := by
        unfold Lru.touched
        rw [hget]
      rw [hnone, Option.isSome_none, if_neg (by simp)]
      exact (hC.insert _ ip forward).trans (by rw [htouched, hsame]; rfl)
    | some old =>
      have hsome : Assoc.get s.remembered ip = some old := hget
      refine ⟨rfl, ?_⟩
      rw [hsome, Option.isSome_some, if_pos rfl]
      exact htouched
  · have hbne : (forward != s.isProxied X ip) = false := by simpa using hexc
    simp only [hbne, Bool.false_eq_true, if_false] at hvalue htouched
    simp only [hbne, Bool.false_eq_true, if_false, if_neg hexc, hvalue]
    have hremove : Assoc.remove (Lru.touched s.remembered ip fun value => value) ip = Assoc.remove s.remembered ip :=
      Lru.remove_touched s.remembered ip _
    cases hget : Assoc.get (C.peekIter s.reverseLookupCache) ip with
    | none =>
      refine ⟨rfl, ?_⟩
      have hnone : Assoc.get s.remembered ip = none := hget
      rw [Lru.remove_of_get_none hnone]
      refine htouched.trans ?_
      unfold Lru.touched
      rw [hget]
      rfl
    | some old =>
      refine ⟨rfl, (hC.remove _ ip).trans ?_⟩
      rw [htouched]
      exact hremove

/-- A connection does not change what is remembered, only how long. -/
theorem peek_connect (hC : C.Lawful CAPACITY) (X : Crates) (s : ServiceContext C) (ip : List UInt8)
    (addr : Relay.Address) (vaddr : Option (List Relay.SocketAddr)) :
    (s.checkTargetBypassed X addr vaddr).2.peek ip = s.peek ip := by
  unfold peek
  rcases (remembered_connect hC X s addr vaddr).2 with hsame | ⟨saddr, -, htouched⟩
  · rw [hsame]
  · rw [htouched, Lru.get_touched]
    by_cases hip : saddr.ip = ip
    · rw [if_pos hip, ← hip, Option.map_id, id]
    · rw [if_neg hip]

/-- **What is learned** decides at once; of the other addresses at most one is forgotten. -/
theorem peek_learn (hC : C.Lawful CAPACITY) (X : Crates) (s : ServiceContext C) (ip : List UInt8) (forward : Bool) :
    (s.addToReverseLookupCache X ip forward).peek ip = (if forward ≠ s.isProxied X ip then some forward else none) ∧
      ∀ ip', ip' ≠ ip → (s.addToReverseLookupCache X ip forward).peek ip' = none ∨
        (s.addToReverseLookupCache X ip forward).peek ip' = s.peek ip' := by
  unfold peek
  rw [(remembered_learn hC X s ip forward).2]
  unfold learned
  by_cases hexc : forward ≠ s.isProxied X ip
  · simp only [if_pos hexc]
    cases hget : Assoc.get s.remembered ip with
    | some old =>
      rw [Option.isSome_some, if_pos rfl]
      refine ⟨?_, ?_⟩
      · rw [Lru.get_touched, if_pos rfl, hget, Option.map_some]
      · intro ip' hip'
        rw [Lru.get_touched, if_neg (fun h => hip' h.symm)]
        exact Or.inr rfl
    | none =>
      rw [Option.isSome_none, if_neg (by simp)]
      exact Lru.get_inserted (by decide) s.remembered ip forward
  · simp only [if_neg hexc]
    refine ⟨?_, ?_⟩
    · rw [Assoc.get_remove, if_pos rfl]
    · intro ip' hip'
      rw [Assoc.get_remove, if_neg (fun h => hip' h.symm)]
      exact Or.inr rfl

theorem isProxied_congr {t : ServiceContext C} (h : t.acl = s.acl) (ip : List UInt8) :
    t.isProxied X ip = s.isProxied X ip := by
  unfold isProxied
  rw [h]

/-- An event of another address. -/
def Event.spares (ip : List UInt8) : Event → Prop
  | .learn ip' _ => ip' ≠ ip
  | .connect _ _ => True
  | .expire ip' => ip' ≠ ip

/-- The address that an event uses. -/
def Event.uses : Event → List (List UInt8)
  | .learn ip _ => [ip]
  | .connect (.socketAddress saddr) _ => [saddr.ip]
  | .connect (.domainNameAddress _ _) _ => []
  | .expire _ => []

/-- **One step**: an address is forgotten, stays as it is, or is learned as an exception. -/
theorem step_peek (hC : C.Lawful CAPACITY) {e : Event} (h : step X s e = some s') (ip : List UInt8) :
    s'.acl = s.acl ∧ (s'.peek ip = none ∨ (e.spares ip ∧ s'.peek ip = s.peek ip) ∨
      ∃ forward, e = .learn ip forward ∧ forward ≠ s.isProxied X ip ∧ s'.peek ip = some forward) := by
  cases e with
  | learn ip' forward =>
    cases h
    obtain ⟨hnew, hothers⟩ := peek_learn hC X s ip' forward
    refine ⟨(remembered_learn hC X s ip' forward).1, ?_⟩
    by_cases hip : ip' = ip
    · subst hip
      by_cases hexc : forward ≠ s.isProxied X ip'
      · rw [if_pos hexc] at hnew
        exact Or.inr (Or.inr ⟨forward, rfl, hexc, hnew⟩)
      · rw [if_neg hexc] at hnew
        exact Or.inl hnew
    · rcases hothers ip (fun h => hip h.symm) with hnone | hsame
      · exact Or.inl hnone
      · exact Or.inr (Or.inl ⟨hip, hsame⟩)
  | connect addr vaddr =>
    cases h
    have hacl := (remembered_connect hC X s addr vaddr).1
    exact ⟨hacl, Or.inr (Or.inl ⟨trivial, peek_connect hC X s ip addr vaddr⟩)⟩
  | expire ip' =>
    cases h
    refine ⟨rfl, ?_⟩
    have hpeek : peek { s with reverseLookupCache := C.expire s.reverseLookupCache ip' } ip =
        Assoc.get (Assoc.remove s.remembered ip') ip := congrArg (Assoc.get · ip) (hC.expire _ ip')
    rw [Assoc.get_remove] at hpeek
    by_cases hip : ip' = ip
    · rw [if_pos hip] at hpeek
      exact Or.inl hpeek
    · rw [if_neg hip] at hpeek
      exact Or.inr (Or.inl ⟨hip, hpeek⟩)

/-- What was last learned of an address. -/
def lastLearned (ip : List UInt8) (es : List Event) : Option Bool :=
  es.foldl (fun last e =>
    match e with
    | .learn ip' forward => if ip' = ip then some forward else last
    | _ => last) none

theorem lastLearned_concat (ip : List UInt8) (es : List Event) (e : Event) :
    (e.spares ip → lastLearned ip (es ++ [e]) = lastLearned ip es) ∧
      ∀ forward, e = .learn ip forward → lastLearned ip (es ++ [e]) = some forward := by
  unfold lastLearned
  rw [List.foldl_append]
  refine ⟨fun hsp => ?_, ?_⟩
  · cases e with
    | learn ip' forward => exact if_neg hsp
    | connect addr vaddr => rfl
    | expire ip' => rfl
  · rintro forward rfl
    exact if_pos rfl

/-- **Only what was learned last** is remembered, and only as an exception. -/
theorem run_peek (hC : C.Lawful CAPACITY) {acl : Option AccessControl} {es : List Event} :
    ∀ {s : ServiceContext C}, (machine C X acl).run (machine C X acl).init es = some s →
      s.acl = acl ∧ ∀ ip forward, s.peek ip = some forward →
        forward ≠ s.isProxied X ip ∧ lastLearned ip es = some forward := by
  induction es using List.reverseRecOn with
  | nil =>
    intro s h
    cases h
    refine ⟨rfl, ?_⟩
    intro ip forward hpeek
    unfold peek remembered at hpeek
    have hempty : C.peekIter (machine C X acl).init.reverseLookupCache = [] := hC.empty
    rw [hempty] at hpeek
    cases hpeek
  | append_singleton es e ih =>
    intro s' h
    rw [Machine.run_append] at h
    obtain ⟨s, hs, hrun⟩ := Option.bind_eq_some_iff.1 h
    obtain ⟨s₁, hstep, heq⟩ := Option.bind_eq_some_iff.1 hrun
    cases heq
    obtain ⟨hacl, hpeeked⟩ := ih hs
    refine ⟨(step_peek hC hstep []).1.trans hacl, fun ip forward hpeek => ?_⟩
    obtain ⟨hacl', hcases⟩ := step_peek hC hstep ip
    obtain ⟨hspared, hlearned⟩ := lastLearned_concat ip es e
    rw [isProxied_congr hacl']
    rcases hcases with hnone | ⟨hsp, hsame⟩ | ⟨forward', he, hne, hnew⟩
    · rw [hnone] at hpeek
      cases hpeek
    · rw [hspared hsp]
      exact hpeeked ip forward (hsame.symm.trans hpeek)
    · rw [hnew] at hpeek
      cases hpeek
      exact ⟨hne, hlearned _ he⟩

variable (X) in
/-- `forward` was learned of an address and is not forgotten; `us` are addresses used since. -/
def Kept (s : ServiceContext C) (ip : List UInt8) (forward : Bool) (us : List (List UInt8)) : Prop :=
  (forward ≠ s.isProxied X ip ∧ Lru.Newer s.remembered ip forward us) ∨
    (forward = s.isProxied X ip ∧ s.peek ip = none)

theorem Kept.decide_eq {us : List (List UInt8)} (h : s.Kept X ip forward us) : s.decide X ip = forward := by
  rcases h with ⟨-, hnewer⟩ | ⟨heq, hnone⟩
  · exact decide_of_peek hnewer.get
  · exact (decide_of_peek_none hnone).trans heq.symm

theorem kept_learn (hC : C.Lawful CAPACITY) (X : Crates) (s : ServiceContext C) (ip : List UInt8) (forward : Bool)
    (us : List (List UInt8)) : (s.addToReverseLookupCache X ip forward).Kept X ip forward us := by
  obtain ⟨hacl, hremembered⟩ := remembered_learn hC X s ip forward
  have hpeek := (peek_learn hC X s ip forward).1
  unfold Kept
  rw [isProxied_congr hacl]
  by_cases hexc : forward ≠ s.isProxied X ip
  · refine Or.inl ⟨hexc, ?_⟩
    rw [hremembered, learned, if_pos hexc]
    cases hget : Assoc.get s.remembered ip with
    | some old =>
      rw [Option.isSome_some, if_pos rfl]
      exact Lru.newer_touched hget fun _ => forward
    | none =>
      rw [Option.isSome_none, if_neg (by simp)]
      exact Lru.newer_inserted (by decide) s.remembered ip forward us
  · rw [if_neg hexc] at hpeek
    exact Or.inr ⟨not_not.1 hexc, hpeek⟩

/-- What is newer stays so when something else is learned. -/
theorem newer_learned {us : List (List UInt8)} {m : List (List UInt8 × Bool)} (h : Lru.Newer m ip forward us)
    (hip : ip ≠ ip') (hmem : ip' ∈ us) (hfew : us.dedup.length < CAPACITY) (proxied forward' : Bool) :
    Lru.Newer (learned m proxied ip' forward') ip forward us := by
  unfold learned
  by_cases hexc : forward' ≠ proxied
  · rw [if_pos hexc]
    by_cases hsome : (Assoc.get m ip').isSome
    · rw [if_pos hsome]
      exact h.touched hip hmem fun _ => forward'
    · rw [if_neg hsome]
      exact h.inserted hip hmem hfew forward'
  · rw [if_neg hexc]
    exact h.remove hip

/-- **What is kept stays**, as long as few other addresses are used. -/
theorem Kept.step (hC : C.Lawful CAPACITY) {us : List (List UInt8)} (h : s.Kept X ip forward us) {e : Event}
    (he : step X s e = some s') (hsp : e.spares ip) (huses : e.uses ⊆ us) (hfew : us.dedup.length < CAPACITY) :
    s'.Kept X ip forward us := by
  obtain ⟨hacl, hcases⟩ := step_peek hC he ip
  unfold Kept
  rw [isProxied_congr hacl]
  rcases h with ⟨hne, hnewer⟩ | ⟨heq, hnone⟩
  · refine Or.inl ⟨hne, ?_⟩
    cases e with
    | learn ip' forward' =>
      cases he
      rw [(remembered_learn hC X s ip' forward').2]
      exact newer_learned hnewer (fun h => hsp h.symm) (huses List.mem_cons_self) hfew _ forward'
    | connect addr vaddr =>
      cases he
      rcases (remembered_connect hC X s addr vaddr).2 with hsame | ⟨saddr, rfl, htouched⟩
      · rw [hsame]
        exact hnewer
      · rw [htouched]
        by_cases hip : ip = saddr.ip
        · subst hip
          exact Lru.newer_touched hnewer.get id
        · exact hnewer.touched hip (huses List.mem_cons_self) id
    | expire ip' =>
      cases he
      have hremembered : remembered { s with reverseLookupCache := C.expire s.reverseLookupCache ip' } =
          Assoc.remove s.remembered ip' := hC.expire _ ip'
      rw [hremembered]
      exact hnewer.remove fun h => hsp h.symm
  · refine Or.inr ⟨heq, ?_⟩
    rcases hcases with hnone' | ⟨-, hsame⟩ | ⟨forward', rfl, -, -⟩
    · exact hnone'
    · exact hsame.trans hnone
    · exact absurd rfl hsp

theorem Kept.run (hC : C.Lawful CAPACITY) {us : List (List UInt8)} {fs : List Event} {acl : Option AccessControl} :
    ∀ {s s' : ServiceContext C}, s.Kept X ip forward us → (machine C X acl).run s fs = some s' →
      (∀ e ∈ fs, e.spares ip) → fs.flatMap Event.uses ⊆ us → us.dedup.length < CAPACITY → s'.Kept X ip forward us := by
  induction fs with
  | nil =>
    intro s s' h hrun _ _ _
    cases hrun
    exact h
  | cons e fs ih =>
    intro s s' h hrun hsp huses hfew
    obtain ⟨s₁, hs₁, hrest⟩ := Option.bind_eq_some_iff.1 hrun
    rw [List.flatMap_cons, List.append_subset] at huses
    have hkept := h.step hC hs₁ (hsp e List.mem_cons_self) huses.1 hfew
    exact ih hkept hrest (fun e' he' => hsp e' (List.mem_cons_of_mem e he')) huses.2 hfew

/-- **A connection goes where the name was looked up.** In every run of lookups and connections: an address goes by
what was last learned of it or by the ACL, and by what was last learned of it for sure while fewer than 10240
addresses have been used since and it has not expired. -/
theorem run_routes (hC : C.Lawful CAPACITY) {acl : AccessControl} {es : List Event} {s : ServiceContext C}
    (h : (machine C X (some acl)).run (machine C X (some acl)).init es = some s) (saddr : Relay.SocketAddr)
    (vaddr : Option (List Relay.SocketAddr)) :
    ((s.checkTargetBypassed X (.socketAddress saddr) vaddr).1 = (!acl.checkIpInProxyList X saddr.ip) ∨
      lastLearned saddr.ip es = some !(s.checkTargetBypassed X (.socketAddress saddr) vaddr).1) ∧
    ∀ before forward after, es = before ++ .learn saddr.ip forward :: after → (∀ e ∈ after, e.spares saddr.ip) →
      (after.flatMap Event.uses).dedup.length < 10240 →
      (s.checkTargetBypassed X (.socketAddress saddr) vaddr).1 = !forward := by
  obtain ⟨hacl, hpeeked⟩ := run_peek hC h
  rw [checkTargetBypassed_eq hC hacl, Bool.not_not]
  refine ⟨?_, ?_⟩
  · cases hpeek : s.peek saddr.ip with
    | none =>
      have hproxied : s.isProxied X saddr.ip = acl.checkIpInProxyList X saddr.ip := by
        unfold isProxied
        rw [hacl]
      rw [decide_of_peek_none hpeek, hproxied]
      exact Or.inl rfl
    | some forward =>
      rw [decide_of_peek hpeek]
      exact Or.inr (hpeeked saddr.ip forward hpeek).2
  · rintro before forward after rfl hsp hfew
    rw [Machine.run_append] at h
    obtain ⟨s₀, -, hrun⟩ := Option.bind_eq_some_iff.1 h
    obtain ⟨s₁, hs₁, hafter⟩ := Option.bind_eq_some_iff.1 hrun
    cases hs₁
    have hlearned := kept_learn hC X s₀ saddr.ip forward (after.flatMap Event.uses)
    have hkept := hlearned.run hC hafter hsp (List.Subset.refl _) hfew
    rw [hkept.decide_eq]

/-- A name of a proxied address was looked up directly, and two other addresses were used. -/
def lookedUp : List Event :=
  [.learn [1, 2, 3, 4] true, .learn [1, 2, 3, 4] false, .learn [9, 9, 9, 9] false,
    .connect (.socketAddress (.v4 ⟨[8, 8, 8, 8], rfl⟩ 53)) none]

/-- A cache that is a list. -/
abbrev listCache : LruCache (List UInt8) Bool := .lists _ _ CAPACITY

theorem run_routes_looked_up :
    ∃ s, (machine listCache Crates.plain (some ⟨.empty, .empty, .empty, .blackList⟩)).run
        (machine listCache Crates.plain (some ⟨.empty, .empty, .empty, .blackList⟩)).init lookedUp = some s ∧
      (s.checkTargetBypassed Crates.plain (.socketAddress (.v4 ⟨[1, 2, 3, 4], rfl⟩ 443)) none).1 = true := by
  obtain ⟨s, hrun⟩ : ∃ s, (machine listCache Crates.plain (some ⟨.empty, .empty, .empty, .blackList⟩)).run
      (machine listCache Crates.plain (some ⟨.empty, .empty, .empty, .blackList⟩)).init lookedUp = some s :=
    ⟨_, rfl⟩
  have hC : listCache.Lawful CAPACITY := LruCache.lists_lawful _ _ CAPACITY
  refine ⟨s, hrun, (run_routes hC hrun (.v4 ⟨[1, 2, 3, 4], rfl⟩ 443) none).2 [.learn [1, 2, 3, 4] true] false
    [.learn [9, 9, 9, 9] false, .connect (.socketAddress (.v4 ⟨[8, 8, 8, 8], rfl⟩ 53)) none] rfl ?_ (by decide)⟩
  simp [Event.spares, Relay.SocketAddr.ip]

end ServiceContext

end Sslocal

end BlackButton
