import BlackButton.Lib.Machine

/-!
# Process guards (`bg/GuardedProcessPool.kt`)

`Guard.looper` keeps one process running: each turn of its loop starts a watcher
thread, which waits for the process and sends its exit code on the rendezvous
channel `exitChannel`, and then receives from that channel. When the loop is left
with `running = true`, the clean-up destroys the process and receives once more.

The looper runs on the main thread and the watchers do not. A value that a
watcher hands to a suspended `receive` is resumed later: if the receive is
cancelled or times out in between, `receive` throws and the value is lost (the
prompt cancellation guarantee of `kotlinx.coroutines`). `Guard.handed` is that
window.

* `Guard.CanFinish`: a clean-up that waits for an exit code has a watcher of the
  current process that has not delivered yet.
* `clean_up_iff`: it holds all along a run exactly if the run never leaves the
  restart callback by an exception and never drops a value it was handed. The
  callback runs with `running = true` and before the new process has a watcher.
-/

namespace BlackButton.Pool

/-- Where `Guard.looper` is. -/
inductive Point
  -- the threads of the process are started, `exitChannel.receive()` is next
  | polling
  -- suspended in `exitChannel.receive()`
  | receiving
  -- in `onRestartCallback`
  | callback
  -- clean-up, after `SIGTERM`: in `withTimeoutOrNull(500) { exitChannel.receive() }`
  | termWait
  -- clean-up, after `destroy`: in `withTimeoutOrNull(1000) { exitChannel.receive() }`
  | destroyWait
  -- clean-up: in the last `exitChannel.receive()`
  | lastWait
  -- the looper has ended
  | finished
  deriving Repr, DecidableEq

/-- What does not change: the API level, and whether there is an `onRestartCallback`. -/
structure Config where
  sdk : ℕ
  hasCallback : Bool
  deriving Repr, DecidableEq

/-- The looper, its processes (numbered in the order they were started) and its watchers. -/
structure Guard where
  point : Point
  running : Bool
  -- the pool's job is cancelled
  cancelled : Bool
  -- the current `process`
  process : ℕ
  -- the processes whose watcher thread has not delivered its exit code
  watchers : List ℕ
  -- the processes that have exited
  exited : List ℕ
  -- an exit code was handed to the suspended `receive`, which has not resumed
  handed : Bool
  -- `onFatal` was launched
  fatal : Bool
  deriving Repr, DecidableEq

/-- The top of the loop: the threads of the current process are started. -/
def loopTop (g : Guard) : Guard :=
  { g with watchers := g.watchers ++ [g.process], point := .polling }

/-- `GuardedProcessPool.start` has started the first process, and the looper enters its loop. -/
def Guard.init : Guard :=
  loopTop ⟨.polling, true, false, 0, [], [], false, false⟩

/-- The `finally` block: clean up if `running`. -/
def enterFinally (C : Config) (g : Guard) : Guard :=
  { g with
    handed := false
    point :=
      if g.running then
        if C.sdk < 24 then .termWait else if C.sdk ≥ 26 then .destroyWait else .lastWait
      else .finished }

/-- After `exitChannel.receive()` returned: restart. `started = false` is `start()` throwing
`IOException`. -/
def afterReceive (C : Config) (g : Guard) (started : Bool) : Guard :=
  let g := { g with running := false, handed := false }
  if started then
    let g := { g with process := g.process + 1, running := true }
    if C.hasCallback then { g with point := .callback } else loopTop g
  else enterFinally C { g with fatal := true }

/-- Is the looper suspended in some `exitChannel.receive()`? -/
def Guard.suspended (g : Guard) : Bool :=
  match g.point with
  | .receiving => true
  | .termWait => true
  | .destroyWait => true
  | .lastWait => true
  | _ => false

/-- The watcher of `p` is blocked in `exitChannel.send`. -/
def Guard.ready (g : Guard) (p : ℕ) : Bool := g.watchers.contains p && g.exited.contains p

/-- The watcher of `p` delivers its exit code and ends. -/
def deliver (g : Guard) (p : ℕ) : Guard := { g with watchers := g.watchers.erase p }

/-- What can happen. -/
inductive Event
  -- the process `p` exits
  | exit (p : ℕ)
  -- `receive` finds the watcher of `p` waiting and returns at once
  | poll (p : ℕ) (started : Bool)
  -- `receive` finds nobody and suspends
  | suspend
  -- the watcher of `p` hands its exit code to the suspended `receive`
  | send (p : ℕ)
  -- the suspended `receive` resumes with the value it was handed
  | resume (started : Bool)
  -- the suspended `receive` of the loop resumes with `CancellationException`
  | cancelReceive
  -- `onRestartCallback` returns
  | callbackReturns
  -- `onRestartCallback` throws `IOException`
  | callbackThrows
  -- `onRestartCallback`, suspended, resumes with `CancellationException`
  | callbackCancelled
  -- the `withTimeoutOrNull` of the clean-up expires
  | timeout
  -- `GuardedProcessPool.close`
  | close
  deriving Repr, DecidableEq

/-- One step of a guard. -/
def step (C : Config) (g : Guard) : Event → Option Guard
  | .exit p =>
    if p ≤ g.process ∧ p ∉ g.exited then some { g with exited := p :: g.exited } else none
  | .poll p started =>
    if g.point = .polling ∧ g.ready p then some (afterReceive C (deliver g p) started) else none
  | .suspend =>
    if g.point = .polling ∧ g.watchers.all (fun p => !g.exited.contains p) then
      some { g with point := .receiving }
    else none
  | .send p =>
    if g.suspended ∧ ¬g.handed ∧ g.ready p then some { deliver g p with handed := true } else none
  | .resume started =>
    if g.handed then
      match g.point with
      | .receiving => if g.cancelled then none else some (afterReceive C g started)
      | _ => some { g with handed := false, point := .finished }
    else none
  | .cancelReceive =>
    if g.point = .receiving ∧ g.cancelled then some (enterFinally C g) else none
  | .callbackReturns => if g.point = .callback then some (loopTop g) else none
  | .callbackThrows =>
    if g.point = .callback then some (enterFinally C { g with fatal := true }) else none
  | .callbackCancelled =>
    if g.point = .callback ∧ g.cancelled then some (enterFinally C g) else none
  | .timeout =>
    if g.point = .termWait ∨ g.point = .destroyWait then
      some { g with handed := false, point := .lastWait }
    else none
  | .close => some { g with cancelled := true }

/-- The guard as a machine. -/
def machine (C : Config) : Machine Guard Event := ⟨Guard.init, step C⟩

/-- The clean-up waits on `exitChannel`. -/
def Guard.waiting (g : Guard) : Prop :=
  (g.point = .termWait ∨ g.point = .destroyWait ∨ g.point = .lastWait) ∧ g.handed = false

/-- A clean-up that waits has a sender to wait for. -/
def Guard.CanFinish (g : Guard) : Prop := g.waiting → g.process ∈ g.watchers

/-- The step neither leaves the restart callback by an exception nor drops a value that was handed
over. -/
def Keeps (g : Guard) : Event → Prop
  | .callbackThrows => False
  | .callbackCancelled => False
  | .cancelReceive => g.handed = false
  | .timeout => g.handed = false
  | _ => True

instance (g : Guard) : (e : Event) → Decidable (Keeps g e)
  | .callbackThrows | .callbackCancelled => isFalse id
  | .cancelReceive | .timeout => inferInstanceAs (Decidable (g.handed = false))
  | .exit _ | .poll _ _ | .suspend | .send _ | .resume _ | .callbackReturns | .close => isTrue trivial

/-- The invariant: the current process has the only watcher, except in the restart callback and
after its exit code was handed over, when there is none. -/
def Inv (g : Guard) : Prop :=
  match g.point with
  | .polling => g.running = true ∧ g.handed = false ∧ g.watchers = [g.process]
  | .callback => g.running = true ∧ g.handed = false ∧ g.watchers = []
  | .finished => True
  | _ => g.running = true ∧ g.watchers = if g.handed then [] else [g.process]

theorem init_inv : Inv Guard.init := ⟨rfl, rfl, rfl⟩

/-- The clean-up is entered with `running = true` and waits. -/
theorem enterFinally_waiting {C : Config} {g : Guard} (h : g.running = true) :
    (enterFinally C g).waiting := by
  refine ⟨?_, rfl⟩
  simp only [enterFinally, h, if_true]
  by_cases h24 : C.sdk < 24
  · simp [h24]
  · by_cases h26 : C.sdk ≥ 26
    · simp [h24, h26]
    · simp [h24, h26]

/-- In a clean-up that waits, the invariant is that the process has its watcher. -/
theorem inv_of_waiting {g : Guard} (hw : g.waiting) (hr : g.running = true)
    (hws : g.watchers = [g.process]) : Inv g := by
  obtain ⟨hp | hp | hp, hh⟩ := hw <;> simp [Inv, hp, hh, hr, hws]

theorem inv_canFinish {g : Guard} (hi : Inv g) : g.CanFinish := by
  rintro ⟨hp | hp | hp, hh⟩ <;> simp only [Inv, hp, hh] at hi <;> simp [hi.2]

/-- The restart: a new process without a watcher in the callback, or with its own after it. -/
theorem afterReceive_inv {C : Config} {g : Guard} (hw : g.watchers = []) (started : Bool) :
    Inv (afterReceive C g started) := by
  cases started with
  | false => simp [afterReceive, enterFinally, Inv]
  | true =>
    cases hc : C.hasCallback with
    | false => simp [afterReceive, hc, loopTop, Inv, hw]
    | true => simp [afterReceive, hc, Inv, hw]

/-- **What a step that keeps its value does to the invariant.** -/
theorem step_inv {C : Config} {g g' : Guard} {e : Event} (hi : Inv g) (hk : Keeps g e)
    (h : step C g e = some g') : Inv g' := by
  cases e with
  | exit p =>
    simp only [step, Option.ite_none_right_eq_some, Option.some.injEq] at h
    obtain ⟨-, rfl⟩ := h
    exact hi
  | poll p started =>
    simp only [step, Option.ite_none_right_eq_some, Option.some.injEq] at h
    obtain ⟨⟨hp, hr⟩, rfl⟩ := h
    simp only [Inv, hp] at hi
    have hpp : p = g.process := by
      simp only [Guard.ready, hi.2.2, Bool.and_eq_true, List.contains_iff_mem, List.mem_singleton] at hr
      exact hr.1
    exact afterReceive_inv (by simp [deliver, hi.2.2, hpp]) started
  | suspend =>
    simp only [step, Option.ite_none_right_eq_some, Option.some.injEq] at h
    obtain ⟨⟨hp, -⟩, rfl⟩ := h
    simp only [Inv, hp] at hi
    simp [Inv, hi.1, hi.2.1, hi.2.2]
  | send p =>
    simp only [step, Option.ite_none_right_eq_some, Option.some.injEq] at h
    obtain ⟨⟨hs, hh, hr⟩, rfl⟩ := h
    simp only [Bool.not_eq_true] at hh
    have hboth : g.running = true ∧ g.watchers = [g.process] := by
      unfold Guard.suspended at hs
      cases hp : g.point <;> simp [hp] at hs <;> simp [Inv, hp, hh] at hi <;> exact hi
    have hpp : p = g.process := by
      simp only [Guard.ready, hboth.2, Bool.and_eq_true, List.contains_iff_mem, List.mem_singleton] at hr
      exact hr.1
    unfold Guard.suspended at hs
    cases hp : g.point <;> simp [hp] at hs <;> simp [Inv, deliver, hp, hboth, hpp]
  | resume started =>
    simp only [step] at h
    split at h
    · rename_i hh
      split at h
      · rename_i hp
        split at h
        · cases h
        · cases h
          simp only [Inv, hp, hh, if_true] at hi
          exact afterReceive_inv hi.2 started
      · cases h; trivial
    · cases h
  | cancelReceive =>
    simp only [step, Option.ite_none_right_eq_some, Option.some.injEq] at h
    obtain ⟨⟨hp, -⟩, rfl⟩ := h
    have hh : g.handed = false := hk
    simp only [Inv, hp, hh, Bool.false_eq_true, if_false] at hi
    exact inv_of_waiting (enterFinally_waiting hi.1) hi.1 hi.2
  | callbackReturns =>
    simp only [step, Option.ite_none_right_eq_some, Option.some.injEq] at h
    obtain ⟨hp, rfl⟩ := h
    simp only [Inv, hp] at hi
    simp [loopTop, Inv, hi.1, hi.2.1, hi.2.2]
  | callbackThrows => exact hk.elim
  | callbackCancelled => exact hk.elim
  | timeout =>
    simp only [step, Option.ite_none_right_eq_some, Option.some.injEq] at h
    obtain ⟨hp, rfl⟩ := h
    have hh : g.handed = false := hk
    rcases hp with hp | hp <;>
      · simp only [Inv, hp, hh, Bool.false_eq_true, if_false] at hi
        simp [Inv, hi.1, hi.2]
  | close =>
    cases h
    exact hi

/-- **A step that loses a value leaves the clean-up waiting for nobody.** -/
theorem step_stuck {C : Config} {g g' : Guard} {e : Event} (hi : Inv g) (hk : ¬Keeps g e)
    (h : step C g e = some g') : ¬g'.CanFinish := by
  -- in each case the clean-up waits and there is no watcher at all
  have stuck : g'.waiting → g'.watchers = [] → ¬g'.CanFinish := by
    intro hw hws hcan
    have := hcan hw
    rw [hws] at this; cases this
  cases e with
  | callbackThrows =>
    simp only [step, Option.ite_none_right_eq_some, Option.some.injEq] at h
    obtain ⟨hp, rfl⟩ := h
    simp only [Inv, hp] at hi
    exact stuck (enterFinally_waiting hi.1) hi.2.2
  | callbackCancelled =>
    simp only [step, Option.ite_none_right_eq_some, Option.some.injEq] at h
    obtain ⟨⟨hp, -⟩, rfl⟩ := h
    simp only [Inv, hp] at hi
    exact stuck (enterFinally_waiting hi.1) hi.2.2
  | cancelReceive =>
    simp only [step, Option.ite_none_right_eq_some, Option.some.injEq] at h
    obtain ⟨⟨hp, -⟩, rfl⟩ := h
    have hh : g.handed = true := by simpa [Keeps] using hk
    simp only [Inv, hp, hh, if_true] at hi
    exact stuck (enterFinally_waiting hi.1) hi.2
  | timeout =>
    simp only [step, Option.ite_none_right_eq_some, Option.some.injEq] at h
    obtain ⟨hp, rfl⟩ := h
    have hh : g.handed = true := by simpa [Keeps] using hk
    have hws : g.watchers = [] := by
      rcases hp with hp | hp <;> simp only [Inv, hp, hh, if_true] at hi <;> exact hi.2
    exact stuck ⟨Or.inr (Or.inr rfl), rfl⟩ hws
  | exit p => exact absurd trivial hk
  | poll p started => exact absurd trivial hk
  | suspend => exact absurd trivial hk
  | send p => exact absurd trivial hk
  | resume started => exact absurd trivial hk
  | callbackReturns => exact absurd trivial hk
  | close => exact absurd trivial hk

/-- **The clean-up can finish all along a run exactly if the run never leaves the restart callback by
an exception and never drops an exit code it was handed.** -/
theorem clean_up_iff (C : Config) (es : List Event) (g : Guard)
    (h : (machine C).run Guard.init es = some g) :
    (machine C).AlongFrom Guard.CanFinish Guard.init es ↔ (machine C).MeetsFrom Keeps Guard.init es :=
  Machine.along_iff_meets (fun _ hi => inv_canFinish hi) (fun _ _ _ hi hk hs => step_inv hi hk hs)
    (fun _ _ _ hi hk hs => step_stuck hi hk hs) es init_inv h

/-- A process that exits, is restarted with its callback, and is stopped. -/
def restartEvents : List Event :=
  [.suspend, .exit 0, .send 0, .resume true, .callbackReturns, .suspend, .close, .cancelReceive,
    .exit 1, .send 1, .resume false]

theorem clean_up_restart :
    (∃ g, (machine ⟨29, true⟩).run Guard.init restartEvents = some g ∧ g.point = .finished) ∧
      (machine ⟨29, true⟩).AlongFrom Guard.CanFinish Guard.init restartEvents := by
  have hm : (machine ⟨29, true⟩).MeetsFrom Keeps Guard.init restartEvents := by decide
  exact ⟨⟨_, rfl, rfl⟩, (clean_up_iff ⟨29, true⟩ restartEvents _ rfl).2 hm⟩

/-- **The pool is closed while the restart callback is suspended**: the clean-up waits for the new
process, which no thread watches. -/
theorem closed_in_callback :
    ∃ g, (machine ⟨29, true⟩).run Guard.init
        [.suspend, .exit 0, .send 0, .resume true, .close, .callbackCancelled] = some g ∧
      g.running = true ∧ g.point = .destroyWait ∧ g.watchers = [] ∧ ¬g.CanFinish := by
  refine ⟨_, rfl, rfl, rfl, rfl, ?_⟩
  intro h
  have := h ⟨Or.inr (Or.inl rfl), rfl⟩
  cases this

end BlackButton.Pool
