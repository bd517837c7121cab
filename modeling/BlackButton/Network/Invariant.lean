import BlackButton.Network.Actor
import Mathlib.Data.List.Chain

/-!
# The invariant of the network actor

What listeners were told, which requests were completed and when the system callback
was registered are read off the calls of the actor.

* `step_inv`: every message keeps `World.Inv`.
* `requests_run`: **no `Get` is dropped**: each one that was handled is completed or waits.
* `actor_invariant`: notified values, pending requests and registrations after any
  sequence of messages that the actor's own check lets through.
-/

namespace BlackButton.Network

/-! ## What the calls say -/

section Calls

variable {K L N : Type}

/-- The calls of `register()` (`true`) and `unregister()` (`false`). -/
def registrations (log : List (Call K L N)) : List Bool :=
  log.filterMap fun
    | .register => some true
    | .unregister => some false
    | _ => none

/-- The last of these calls was `register()`. -/
def callbackRegistered (log : List (Call K L N)) : Bool := (registrations log).getLast?.getD false

/-- `register()` comes first, and the calls alternate. -/
def Alternates (rs : List Bool) : Prop := rs.head? ≠ some false ∧ rs.IsChain (· ≠ ·)

/-- The requests that were completed, in order. -/
def completions (log : List (Call K L N)) : List ℕ :=
  log.filterMap fun
    | .completed r _ => some r
    | _ => none

theorem registrations_append (log calls : List (Call K L N)) :
    registrations (log ++ calls) = registrations log ++ registrations calls := List.filterMap_append

theorem completions_append (log calls : List (Call K L N)) :
    completions (log ++ calls) = completions log ++ completions calls := List.filterMap_append

/-- One more call keeps the alternation if it is the other one. -/
theorem Alternates.concat {rs : List Bool} (h : Alternates rs) {b : Bool} (hb : rs.getLast?.getD false = !b) :
    Alternates (rs ++ [b]) := by
  cases rs with
  | nil =>
    cases b with
    | true => exact ⟨by simp, List.isChain_singleton _⟩
    | false => cases hb
  | cons r rs =>
    refine ⟨h.1, ?_⟩
    rw [List.isChain_append]
    refine ⟨h.2, List.isChain_singleton _, ?_⟩
    intro x hx y hy
    rw [Option.mem_def] at hx hy
    cases hy
    rw [hx, Option.getD_some] at hb
    rw [hb]
    simp

/-- Calls other than registrations and starts. -/
def Quiet (calls : List (Call K L N)) : Prop :=
  ∀ c ∈ calls, (∃ l v, c = .notified l v) ∨ (∃ r n, c = .completed r n) ∨ ∃ m, c = .handled m

theorem Quiet.registrations {calls : List (Call K L N)} (h : Quiet calls) : registrations calls = [] := by
  apply List.filterMap_eq_nil_iff.2
  intro c hc
  rcases h c hc with ⟨l, v, rfl⟩ | ⟨r, n, rfl⟩ | ⟨m, rfl⟩ <;> rfl

theorem Quiet.started_not_mem {calls : List (Call K L N)} (h : Quiet calls) (l : L) :
    Call.started l ∉ calls := by
  intro hc
  rcases h _ hc with ⟨_, _, h⟩ | ⟨_, _, h⟩ | ⟨_, h⟩ <;> cases h

theorem quiet_notifyAll (a : Actor K L N) (v : Option N) : Quiet (a.notifyAll v) := by
  intro c hc
  obtain ⟨e, -, rfl⟩ := List.mem_map.1 hc
  exact Or.inl ⟨e.2, v, rfl⟩

theorem completions_notifyAll (a : Actor K L N) (v : Option N) : completions (a.notifyAll v) = [] := by
  apply List.filterMap_eq_nil_iff.2
  intro c hc
  obtain ⟨e, -, rfl⟩ := List.mem_map.1 hc
  rfl

theorem completions_map (rs : List ℕ) (n : N) :
    completions (rs.map fun r => (.completed r n : Call K L N)) = rs := by
  unfold completions
  rw [List.filterMap_map]
  exact List.filterMap_some

/-- The calls of `Start`. -/
def startCalls (a : Actor K L N) (key : K) (l : L) : List (Call K L N) :=
  .handled (.start key l) :: ((if a.listeners = [] then [.register] else []) ++ [.started l] ++
    a.network.elim [] fun n => [.notified l (some n)])

theorem registrations_startCalls (a : Actor K L N) (key : K) (l : L) :
    registrations (startCalls a key l) = if a.listeners = [] then [true] else [] := by
  unfold startCalls
  by_cases h : a.listeners = [] <;> cases a.network <;> simp [h, registrations]

theorem completions_startCalls (a : Actor K L N) (key : K) (l : L) : completions (startCalls a key l) = [] := by
  unfold startCalls
  by_cases h : a.listeners = [] <;> cases a.network <;> simp [h, completions]

variable [DecidableEq L]

/-- The value a listener was last notified with, after one more call. -/
def noteNotified (l : L) (v : Option N) : Call K L N → Option N
  | .notified l' w => if l' = l then w else v
  | _ => v

/-- The same, forgotten when the listener is started. -/
def noteSince (l : L) (v : Option N) : Call K L N → Option N
  | .started l' => if l' = l then none else v
  | .notified l' w => if l' = l then w else v
  | _ => v

/-- The last value a listener was notified with; null if it never was. -/
def lastNotified (log : List (Call K L N)) (l : L) : Option N := log.foldl (noteNotified l) none

/-- The last value a listener was notified with since it was last started; null if it was not. -/
def lastSince (log : List (Call K L N)) (l : L) : Option N := log.foldl (noteSince l) none

theorem lastSince_append (log calls : List (Call K L N)) (l : L) :
    lastSince (log ++ calls) l = calls.foldl (noteSince l) (lastSince log l) := List.foldl_append

theorem lastNotified_append (log calls : List (Call K L N)) (l : L) :
    lastNotified (log ++ calls) l = calls.foldl (noteNotified l) (lastNotified log l) := List.foldl_append

theorem Quiet.foldl_note {calls : List (Call K L N)} (h : Quiet calls) (l : L) (v : Option N) :
    calls.foldl (noteNotified l) v = calls.foldl (noteSince l) v := by
  apply List.foldl_ext
  intro v c hc
  rcases h c hc with ⟨l, v, rfl⟩ | ⟨r, n, rfl⟩ | ⟨m, rfl⟩ <;> rfl

/-- Who is not a listener is not notified. -/
theorem foldl_notifyAll_of_not_mem {a : Actor K L N} {l : L} (hl : l ∉ a.listeners.map Prod.snd)
    (v u : Option N) : (a.notifyAll v).foldl (noteSince l) u = u := by
  unfold Actor.notifyAll
  generalize a.listeners = ls at hl ⊢
  induction ls with
  | nil => rfl
  | cons e ls ih =>
    rw [List.map_cons, List.mem_cons, not_or] at hl
    rw [List.map_cons, List.foldl_cons, noteSince, if_neg (Ne.symm hl.1)]
    exact ih hl.2

/-- Every listener is. -/
theorem foldl_notifyAll_of_mem {a : Actor K L N} {l : L} (hl : l ∈ a.listeners.map Prod.snd)
    (v u : Option N) : (a.notifyAll v).foldl (noteSince l) u = v := by
  unfold Actor.notifyAll
  generalize a.listeners = ls at hl ⊢
  induction ls generalizing u with
  | nil => cases hl
  | cons e ls ih =>
    rw [List.map_cons, List.foldl_cons]
    by_cases htail : l ∈ ls.map Prod.snd
    · exact ih _ htail
    · have he : e.2 = l := by
        rcases List.mem_cons.1 hl with h | h
        · exact h.symm
        · exact absurd h htail
      rw [noteSince, if_pos he]
      -- the later listeners are others
      have hrest := foldl_notifyAll_of_not_mem (a := ⟨ls, none, []⟩) htail v v
      exact hrest

theorem foldl_completed (rs : List ℕ) (n : N) (l : L) (v : Option N) :
    (rs.map fun r => (.completed r n : Call K L N)).foldl (noteSince l) v = v := by
  induction rs with
  | nil => rfl
  | cons r rs ih => exact ih

theorem since_startCalls (a : Actor K L N) (key : K) (l l' : L) (v : Option N) :
    (startCalls a key l).foldl (noteSince l') v = if l = l' then a.network else v := by
  unfold startCalls
  by_cases h : a.listeners = [] <;> cases a.network <;> by_cases hl : l = l' <;> simp [h, hl, noteSince]

theorem notified_startCalls (a : Actor K L N) (key : K) (l l' : L) (v : Option N) :
    (startCalls a key l).foldl (noteNotified l') v = if l = l' then a.network.or v else v := by
  unfold startCalls
  by_cases h : a.listeners = [] <;> cases a.network <;> by_cases hl : l = l' <;> simp [h, hl, noteNotified]

end Calls

/-! ## The invariant -/

section Invariant

variable {K L N : Type} [DecidableEq K] [DecidableEq L] [DecidableEq N]

/-- What holds after any sequence of messages. -/
structure World.Inv (w : World K L N) : Prop where
  nodup : (Assoc.keys w.actor.listeners).Nodup
  -- each listener has seen the current network
  since : ∀ e ∈ w.actor.listeners, lastSince w.log e.2 = w.actor.network
  started : ∀ e ∈ w.actor.listeners, Call.started e.2 ∈ w.log
  -- a listener that was started only once has seen nothing before
  once : ∀ l, w.log.count (.started l) ≤ 1 → lastNotified w.log l = lastSince w.log l
  never : ∀ l, Call.started l ∉ w.log → lastNotified w.log l = none
  pending : w.actor.network ≠ none → w.actor.pendingRequests = []
  fresh : (completions w.log ++ w.actor.pendingRequests).Nodup
  below : ∀ r ∈ completions w.log ++ w.actor.pendingRequests, r < w.handled
  alternates : Alternates (registrations w.log)
  registered : callbackRegistered w.log = true ↔ w.actor.listeners ≠ []

theorem inv_init : (World.init : World K L N).Inv where
  nodup := List.nodup_nil
  since := by simp [World.init, Actor.init]
  started := by simp [World.init, Actor.init]
  once := fun _ _ => rfl
  never := fun _ _ => rfl
  pending := fun _ => rfl
  fresh := List.nodup_nil
  below := by simp [World.init, Actor.init, completions]
  alternates := ⟨by simp [World.init, registrations], List.isChain_nil⟩
  registered := by simp [World.init, Actor.init, callbackRegistered, registrations]

/-- A message that adds no listener and does not remove the last one: the listeners see the new network
and no one else sees anything, and only pending requests or the message itself are completed. -/
theorem World.Inv.quiet {w : World K L N} (h : w.Inv) {calls : List (Call K L N)} (hq : Quiet calls)
    {a : Actor K L N} (hnodup : (Assoc.keys a.listeners).Nodup)
    (hsubset : ∀ e ∈ a.listeners, e ∈ w.actor.listeners) (hempty : a.listeners = [] ↔ w.actor.listeners = [])
    (hvalue : ∀ e ∈ a.listeners, calls.foldl (noteSince e.2) w.actor.network = a.network)
    (hframe : ∀ l, l ∉ w.actor.listeners.map Prod.snd → ∀ v, calls.foldl (noteSince l) v = v)
    (hpending : a.network ≠ none → a.pendingRequests = [])
    (hrequests : (completions calls ++ a.pendingRequests).Sublist (w.actor.pendingRequests ++ [w.handled])) :
    (⟨a, w.log ++ calls, w.handled + 1⟩ : World K L N).Inv := by
  have hregs : registrations (w.log ++ calls) = registrations w.log := by
    rw [registrations_append, hq.registrations, List.append_nil]
  have hsub : (completions (w.log ++ calls) ++ a.pendingRequests).Sublist
      (completions w.log ++ w.actor.pendingRequests ++ [w.handled]) := by
    rw [completions_append, List.append_assoc, List.append_assoc]
    exact (List.Sublist.refl _).append hrequests
  refine ⟨hnodup, ?_, ?_, ?_, ?_, hpending, ?_, ?_, ?_, ?_⟩
  · intro e he
    rw [lastSince_append, h.since e (hsubset e he)]
    exact hvalue e he
  · intro e he
    exact List.mem_append_left _ (h.started e (hsubset e he))
  · intro l hl
    have hcount : calls.count (.started l) = 0 := List.count_eq_zero.2 (hq.started_not_mem l)
    rw [List.count_append, hcount] at hl
    rw [lastNotified_append, lastSince_append, h.once l hl, hq.foldl_note]
  · intro l hl
    rw [List.mem_append, not_or] at hl
    have hnot : l ∉ w.actor.listeners.map Prod.snd := by
      intro hmem
      obtain ⟨e, he, rfl⟩ := List.mem_map.1 hmem
      exact hl.1 (h.started e he)
    rw [lastNotified_append, h.never l hl.1, hq.foldl_note, hframe l hnot]
  · refine List.Nodup.sublist hsub ?_
    rw [List.nodup_append]
    refine ⟨h.fresh, List.nodup_singleton _, ?_⟩
    intro r hr r' hr'
    have hlt := h.below r hr
    rw [List.mem_singleton] at hr'
    omega
  · intro r hr
    have hmem := hsub.subset hr
    rcases List.mem_append.1 hmem with hmem | hmem
    · have hlt := h.below r hmem
      exact Nat.lt_succ_of_lt hlt
    · rw [List.mem_singleton.1 hmem]
      exact Nat.lt_succ_self _
  · rw [hregs]
    exact h.alternates
  · rw [callbackRegistered, hregs, ne_eq, hempty]
    exact h.registered

theorem count_startCalls (a : Actor K L N) (key : K) (l l' : L) :
    (startCalls a key l).count (.started l') = if l = l' then 1 else 0 := by
  unfold startCalls
  by_cases h : a.listeners = [] <;> cases a.network <;> by_cases hl : l = l' <;> simp [h, hl]

theorem World.Inv.start {w : World K L N} (h : w.Inv) (key : K) (l : L) :
    (⟨{ w.actor with listeners := Assoc.put w.actor.listeners key l }, w.log ++ startCalls w.actor key l,
      w.handled + 1⟩ : World K L N).Inv := by
  have hne : Assoc.put w.actor.listeners key l ≠ [] := Assoc.put_ne_nil _ _ _
  have hmem : Call.started l ∈ startCalls w.actor key l := by
    rw [← List.count_pos_iff, count_startCalls, if_pos rfl]
    exact Nat.one_pos
  have hregs : registrations (w.log ++ startCalls w.actor key l) =
      registrations w.log ++ if w.actor.listeners = [] then [true] else [] := by
    rw [registrations_append, registrations_startCalls]
  have hcomp : completions (w.log ++ startCalls w.actor key l) = completions w.log := by
    rw [completions_append, completions_startCalls, List.append_nil]
  refine ⟨Assoc.nodup_put h.nodup key l, ?_, ?_, ?_, ?_, h.pending, ?_, ?_, ?_, ?_⟩
  · intro e he
    rw [lastSince_append, since_startCalls]
    by_cases hl : l = e.2
    · rw [if_pos hl]
    · rw [if_neg hl]
      rcases Assoc.mem_put he with he | rfl
      · exact h.since e he
      · exact absurd rfl hl
  · intro e he
    rcases Assoc.mem_put he with he | rfl
    · exact List.mem_append_left _ (h.started e he)
    · exact List.mem_append_right _ hmem
  · intro l' hl'
    rw [List.count_append, count_startCalls] at hl'
    rw [lastNotified_append, lastSince_append, notified_startCalls, since_startCalls]
    by_cases hl : l = l'
    · -- it is started for the first time
      rw [if_pos hl] at hl'
      have hzero : Call.started l' ∉ w.log := List.count_eq_zero.1 (by omega)
      rw [if_pos hl, if_pos hl, h.never l' hzero, Option.or_none]
    · rw [if_neg hl, if_neg hl]
      exact h.once l' (by omega)
  · intro l' hl'
    rw [List.mem_append, not_or] at hl'
    have hl : l ≠ l' := by
      rintro rfl
      exact hl'.2 hmem
    rw [lastNotified_append, notified_startCalls, if_neg hl]
    exact h.never l' hl'.1
  · rw [hcomp]
    exact h.fresh
  · intro r hr
    rw [hcomp] at hr
    exact Nat.lt_succ_of_lt (h.below r hr)
  · rw [hregs]
    by_cases hnil : w.actor.listeners = []
    · rw [if_pos hnil]
      apply h.alternates.concat
      have hfalse : callbackRegistered w.log ≠ true := fun hr => h.registered.1 hr hnil
      simpa [callbackRegistered] using hfalse
    · rw [if_neg hnil, List.append_nil]
      exact h.alternates
  · rw [callbackRegistered, hregs]
    by_cases hnil : w.actor.listeners = []
    · rw [if_pos hnil, List.getLast?_concat]
      exact ⟨fun _ => hne, fun _ => rfl⟩
    · rw [if_neg hnil, List.append_nil]
      exact ⟨fun _ => hne, fun _ => h.registered.2 hnil⟩

theorem World.Inv.stopLast {w : World K L N} (h : w.Inv) (key : K)
    (hkey : (Assoc.get w.actor.listeners key).isSome) (hlast : Assoc.remove w.actor.listeners key = []) :
    (⟨{ w.actor with listeners := Assoc.remove w.actor.listeners key, network := none },
      w.log ++ [.handled (.stop key), .unregister], w.handled + 1⟩ : World K L N).Inv := by
  have hne : w.actor.listeners ≠ [] := by
    intro hnil
    rw [hnil] at hkey
    cases hkey
  have hnone : ∀ e, e ∉ Assoc.remove w.actor.listeners key := by
    intro e he
    rw [hlast] at he
    cases he
  have hregs : registrations (w.log ++ [.handled (.stop key), .unregister]) = registrations w.log ++ [false] :=
    registrations_append _ _
  have hcomp : completions (w.log ++ [.handled (.stop key), .unregister]) = completions w.log := by
    rw [completions_append]
    exact List.append_nil _
  have hcount : ∀ l, Call.started l ∉ ([.handled (.stop key), .unregister] : List (Call K L N)) := by simp
  refine ⟨Assoc.nodup_remove h.nodup key, fun e he => absurd he (hnone e), fun e he => absurd he (hnone e),
    ?_, ?_, fun hn => absurd rfl hn, ?_, ?_, ?_, ?_⟩
  · intro l hl
    rw [List.count_append, List.count_eq_zero.2 (hcount l)] at hl
    rw [lastNotified_append, lastSince_append]
    exact h.once l hl
  · intro l hl
    rw [List.mem_append, not_or] at hl
    rw [lastNotified_append]
    exact h.never l hl.1
  · rw [hcomp]
    exact h.fresh
  · intro r hr
    rw [hcomp] at hr
    exact Nat.lt_succ_of_lt (h.below r hr)
  · rw [hregs]
    exact h.alternates.concat (h.registered.2 hne)
  · rw [callbackRegistered, hregs, List.getLast?_concat]
    exact ⟨fun hf => absurd hf (by simp), fun hn => absurd hlast hn⟩

omit [DecidableEq K] [DecidableEq L] [DecidableEq N] in
theorem quiet_handled (m : Message K L N) {calls : List (Call K L N)} (h : Quiet calls) :
    Quiet (.handled m :: calls) := by
  intro c hc
  rcases List.mem_cons.1 hc with rfl | hc
  · exact Or.inr (Or.inr ⟨m, rfl⟩)
  · exact h c hc

omit [DecidableEq K] [DecidableEq L] [DecidableEq N] in
theorem quiet_nil : Quiet ([] : List (Call K L N)) := fun _ hc => absurd hc List.not_mem_nil

/-- `Update` and `Lost`: the listeners see the new network. -/
theorem World.Inv.notify {w : World K L N} (h : w.Inv) (m : Message K L N) (v : Option N)
    (hpending : v ≠ none → w.actor.pendingRequests = []) :
    (⟨{ w.actor with network := v }, w.log ++ .handled m :: w.actor.notifyAll v, w.handled + 1⟩ :
      World K L N).Inv := by
  refine h.quiet (quiet_handled m (quiet_notifyAll _ _)) h.nodup (fun _ he => he) Iff.rfl ?_ ?_ hpending ?_
  · intro e he
    exact foldl_notifyAll_of_mem (List.mem_map_of_mem he) _ _
  · intro l hl v'
    exact foldl_notifyAll_of_not_mem hl _ _
  · change (completions (w.actor.notifyAll v) ++ _).Sublist _
    rw [completions_notifyAll]
    exact List.sublist_append_left _ _

/-- `Put`: the requests are completed, and the listeners see the network. -/
theorem World.Inv.put {w : World K L N} (h : w.Inv) (n : N) :
    (⟨{ w.actor with network := some n, pendingRequests := [] },
      w.log ++ .handled (.put n) ::
        (w.actor.pendingRequests.map (fun r => .completed r n) ++ w.actor.notifyAll (some n)),
      w.handled + 1⟩ : World K L N).Inv := by
  have hq : Quiet (w.actor.pendingRequests.map (fun r => .completed r n) ++ w.actor.notifyAll (some n)) := by
    intro c hc
    rcases List.mem_append.1 hc with hc | hc
    · obtain ⟨r, -, rfl⟩ := List.mem_map.1 hc
      exact Or.inr (Or.inl ⟨_, _, rfl⟩)
    · exact quiet_notifyAll _ _ c hc
  have hfold : ∀ l v, (Call.handled (.put n) :: (w.actor.pendingRequests.map (fun r => .completed r n) ++
      w.actor.notifyAll (some n))).foldl (noteSince l) v = (w.actor.notifyAll (some n)).foldl (noteSince l) v := by
    intro l v
    rw [List.foldl_cons, List.foldl_append, foldl_completed]
    rfl
  have hcomp : completions (Call.handled (.put n) :: (w.actor.pendingRequests.map (fun r => .completed r n) ++
      w.actor.notifyAll (some n))) = w.actor.pendingRequests := by
    change completions (_ ++ _) = _
    rw [completions_append, completions_map, completions_notifyAll, List.append_nil]
  refine h.quiet (quiet_handled _ hq) h.nodup (fun _ he => he) Iff.rfl ?_ ?_ (fun _ => rfl) ?_
  · intro e he
    rw [hfold]
    exact foldl_notifyAll_of_mem (List.mem_map_of_mem he) _ _
  · intro l hl v
    rw [hfold]
    exact foldl_notifyAll_of_not_mem hl _ _
  · rw [hcomp, List.append_nil]
    exact List.sublist_append_left _ _

/-- **Every message keeps the invariant.** -/
theorem step_inv {w w' : World K L N} {m : Message K L N} (h : w.Inv) (hstep : w.step m = some w') : w'.Inv := by
  -- a message that changes nothing the listeners see
  have hskip : Quiet (.handled m :: ([] : List (Call K L N))) := quiet_handled m quiet_nil
  obtain ⟨a, calls, hhandled, rfl⟩ := handled_of_step hstep
  cases hhandled with
  | start key l => exact h.start key l
  | stopLast key hkey hlast => exact h.stopLast key hkey hlast
  | stop key hnot =>
    exact h.quiet hskip (Assoc.nodup_remove h.nodup key) (fun _ he => List.mem_of_mem_filter he)
      (Assoc.remove_eq_nil hnot) (fun _ _ => rfl) (fun _ _ _ => rfl) h.pending (List.sublist_append_left _ _)
  | wait hl hn =>
    exact h.quiet hskip h.nodup (fun _ he => he) Iff.rfl (fun _ _ => rfl) (fun _ _ _ => rfl)
      (fun hne => absurd hn hne) (List.Sublist.refl _)
  | @answer hl n hn =>
    have hpend : w.actor.pendingRequests = [] := h.pending (by rw [hn]; simp)
    have hq : Quiet ([.completed w.handled n] : List (Call K L N)) := by
      intro c hc
      rw [List.mem_singleton.1 hc]
      exact Or.inr (Or.inl ⟨_, _, rfl⟩)
    refine h.quiet (quiet_handled _ hq) h.nodup (fun _ he => he) Iff.rfl (fun _ _ => rfl) (fun _ _ _ => rfl)
      h.pending ?_
    rw [hpend]
    exact List.Sublist.refl _
  | put n => exact h.put n
  | @update n hn =>
    have hsame : { w.actor with network := some n } = w.actor := by rw [← hn]
    have hnotify := h.notify (.update n) (some n) fun _ => h.pending (by rw [hn]; simp)
    rw [hsame] at hnotify
    exact hnotify
  | @lost n hn => exact h.notify (.lost n) none fun hne => absurd rfl hne
  | updateOther hn =>
    exact h.quiet hskip h.nodup (fun _ he => he) Iff.rfl (fun _ _ => rfl) (fun _ _ _ => rfl) h.pending
      (List.sublist_append_left _ _)
  | lostOther hn =>
    exact h.quiet hskip h.nodup (fun _ he => he) Iff.rfl (fun _ _ => rfl) (fun _ _ _ => rfl) h.pending
      (List.sublist_append_left _ _)

omit [DecidableEq L] in
/-- Every pending request is completed by a `Put`, with its network. -/
theorem completed_of_put (w : World K L N) (n : N) :
    ∃ w' calls, w.step (.put n) = some w' ∧ w'.log = w.log ++ calls ∧
      ∀ r ∈ w.actor.pendingRequests, Call.completed r n ∈ calls := by
  refine ⟨_, _, rfl, rfl, ?_⟩
  intro r hr
  exact List.mem_cons_of_mem _ (List.mem_append_left _ (List.mem_map_of_mem hr))

/-! ## No request is dropped -/

omit [DecidableEq L] [DecidableEq N] in
/-- **One message**: a `Get` is completed or waits, and what waits is completed or waits on. -/
theorem Handled.requests {request : ℕ} {a a' : Actor K L N} {m : Message K L N} {calls : List (Call K L N)}
    (h : Handled request a m a' calls) (r : ℕ) :
    (r ∈ completions calls ∨ r ∈ a'.pendingRequests) ↔
      r ∈ a.pendingRequests ∨ (r = request ∧ m = .get) := by
  cases h with
  | start key l =>
    have hnone : completions ((if a.listeners = [] then [Call.register] else []) ++ [.started l] ++
        a.network.elim [] fun n => [.notified l (some n)]) = [] := completions_startCalls a key l
    rw [hnone]
    simp
  | wait hl hn => simp [completions]
  | @answer hl n hn =>
    have hone : completions ([.completed request n] : List (Call K L N)) = [request] := rfl
    rw [hone, List.mem_singleton, and_iff_left rfl]
    exact or_comm
  | put n =>
    rw [completions_append, completions_map, completions_notifyAll]
    simp
  | update hn =>
    rw [completions_notifyAll]
    simp
  | lost hn =>
    rw [completions_notifyAll]
    simp
  | stopLast | stop | updateOther | lostOther => simp [completions]

omit [DecidableEq L] in
/-- **Every `Get` is completed or waits**, and nothing else is or does. -/
theorem requests_run (ms : List (Message K L N)) :
    ∀ w, (machine K L N).run World.init ms = some w → w.handled = ms.length ∧
      ∀ r, (r ∈ completions w.log ∨ r ∈ w.actor.pendingRequests) ↔ ms[r]? = some .get := by
  induction ms using List.reverseRecOn with
  | nil =>
    intro w h
    cases h
    exact ⟨rfl, fun r => by simp [World.init, Actor.init, completions]⟩
  | append_singleton ms m ih =>
    intro w' h
    rw [Machine.run_append] at h
    obtain ⟨w, hw, hrun⟩ := Option.bind_eq_some_iff.1 h
    obtain ⟨w₁, hstep, heq⟩ := Option.bind_eq_some_iff.1 hrun
    cases heq
    obtain ⟨hlength, hrequests⟩ := ih w hw
    obtain ⟨a, calls, hhandled, rfl⟩ := handled_of_step hstep
    refine ⟨by rw [List.length_append, List.length_singleton, ← hlength], ?_⟩
    intro r
    have hlog : completions (w.log ++ .handled m :: calls) = completions w.log ++ completions calls :=
      completions_append _ _
    have hone := hhandled.requests r
    have hold := hrequests r
    rw [hlog, List.mem_append, or_assoc, hone, ← or_assoc, hold, hlength]
    by_cases hr : r < ms.length
    · rw [List.getElem?_append_left hr]
      exact or_iff_left fun hlast => by omega
    · have hnone : ms[r]? = none := List.getElem?_eq_none (Nat.le_of_not_lt hr)
      by_cases hlast : r = ms.length
      · subst hlast
        rw [hnone, List.getElem?_concat_length]
        simp
      · have hlen : (ms ++ [m]).length ≤ r := by
          rw [List.length_append, List.length_singleton]
          omega
        rw [hnone, List.getElem?_eq_none hlen]
        simp [hlast]

/-- **The invariant of the actor**, after any sequence of messages. -/
theorem actor_invariant (ms : List (Message K L N)) (w : World K L N)
    (h : (machine K L N).run World.init ms = some w) :
    -- each listener was last notified with the current network, since it was started
    (∀ e ∈ w.actor.listeners, lastSince w.log e.2 = w.actor.network ∧
      (w.log.count (.started e.2) ≤ 1 → lastNotified w.log e.2 = w.actor.network)) ∧
    (w.actor.network ≠ none → w.actor.pendingRequests = []) ∧
    -- no request is completed twice; each `Get` was completed or is pending, and nothing else was or is
    ((completions w.log).Nodup ∧
      (∀ r, (r ∈ completions w.log ∨ r ∈ w.actor.pendingRequests) ↔ ms[r]? = some .get) ∧
      -- a `Put` completes each `Get` that was handled before and is not completed
      ∀ pre n post w₁, ms = pre ++ .put n :: post → (machine K L N).run World.init pre = some w₁ →
        ∃ w₂ calls, w₁.step (.put n) = some w₂ ∧ w₂.log = w₁.log ++ calls ∧
          (∀ r ∈ w₁.actor.pendingRequests, Call.completed r n ∈ calls) ∧
          ∀ r, pre[r]? = some .get → r ∉ completions w₁.log → Call.completed r n ∈ calls) ∧
    Alternates (registrations w.log) ∧ (callbackRegistered w.log = true ↔ w.actor.listeners ≠ []) := by
  have hinv : w.Inv := Machine.run_inv (P := World.Inv) (fun _ _ _ hi hs => step_inv hi hs) inv_init h
  refine ⟨?_, hinv.pending, ⟨?_, (requests_run ms w h).2, ?_⟩, hinv.alternates, hinv.registered⟩
  · intro e he
    refine ⟨hinv.since e he, ?_⟩
    intro hcount
    rw [hinv.once e.2 hcount, hinv.since e he]
  · exact (List.nodup_append.1 hinv.fresh).1
  · intro pre n post w₁ _ hpre
    obtain ⟨w₂, calls, hstep, hlog, hpending⟩ := completed_of_put w₁ n
    refine ⟨w₂, calls, hstep, hlog, hpending, ?_⟩
    intro r hget hnot
    have hwaits := ((requests_run pre w₁ hpre).2 r).2 hget
    exact hpending r (hwaits.resolve_left hnot)

/-- Two listeners, one of which is replaced, and a request that waits for a network. -/
def replacedListener : List (Message ℕ ℕ ℕ) :=
  [.start 0 0, .start 1 1, .get, .start 1 2, .put 7, .get, .lost 7, .stop 0]

theorem actor_invariant_replaced :
    ∃ w, (machine ℕ ℕ ℕ).run World.init replacedListener = some w ∧ w.actor.listeners = [(1, 2)] ∧
      completions w.log = [2, 5] ∧
      ∀ e ∈ w.actor.listeners, lastNotified w.log e.2 = w.actor.network := by
  obtain ⟨h1, -⟩ := actor_invariant replacedListener _ rfl
  refine ⟨_, rfl, rfl, rfl, ?_⟩
  intro e he
  refine (h1 e he).2 ?_
  rw [List.mem_singleton.1 he]
  decide

/-- **A listener that is started again has seen the old network**, and is not told that it is gone. -/
theorem restarted_listener :
    ∃ w, (machine ℕ ℕ ℕ).run World.init [.start 0 0, .put 7, .stop 0, .start 0 0] = some w ∧
      ¬ ∀ e ∈ w.actor.listeners, lastNotified w.log e.2 = w.actor.network := by
  refine ⟨_, rfl, ?_⟩
  intro h
  have := h (0, 0) List.mem_cons_self
  cases this

end Invariant

end BlackButton.Network
