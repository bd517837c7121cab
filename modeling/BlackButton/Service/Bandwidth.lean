import BlackButton.Lib.Assoc
import BlackButton.Lib.Machine
import BlackButton.Traffic.Monitor

/-!
# Bandwidth listeners (`BaseService.Binder`)

Clients ask for traffic updates through `BaseService.Binder`. Calls and death
notifications come from any thread; each launches a block on the main thread, which
changes `bandwidthListeners` and starts or cancels the coroutine that runs `loop()`. A
block is one step, and so is a turn of `loop()` between two suspensions. Blocks run in
any order here; where a block or a first turn runs at once
(`Dispatchers.Main.immediate`), it is the next step.

* `start_inv`, `stop_inv`, `resume_inv`: the listeners, `looper` and the live coroutines
  agree after every step.
* `listeners_bookkept`: **in every state before `close()`** there is one live loop if
  there are listeners, and none otherwise.
-/

namespace BlackButton

/-- `TrafficStats.plus`. -/
def TrafficStats.plus (a b : TrafficStats) : TrafficStats where
  txRate := long (a.txRate + b.txRate)
  rxRate := long (a.rxRate + b.rxRate)
  txTotal := long (a.txTotal + b.txTotal)
  rxTotal := long (a.rxTotal + b.rxTotal)

namespace Binder

/-- What the blocks read of `data`: is its state `Connected`, and for the proxy and its UDP fallback
the id of the profile and `trafficMonitor?.out`. -/
structure Snapshot where
  connected : Bool
  proxy : Option (ℤ × Option TrafficStats)
  udpFallback : Option (ℤ × Option TrafficStats)

/-- What `launch` is given by the calls; `κ` are the binders, which identify the callbacks. -/
inductive Block (κ : Type)
  | start (cb : κ) (timeout : ℤ)
  | stop (cb : κ)

/-- Where a live coroutine that runs `loop()` is suspended. -/
inductive Point
  -- dispatched, its body not entered
  | launched
  -- in `delay`; every caller passes a positive time, so that it suspends
  | delay (time : ℤ)

/-- A live coroutine that runs `loop()`. -/
structure Loop where
  id : ℕ
  point : Point
  cancelled : Bool

/-- A call of `trafficUpdated` by `loop()`, with the listeners at that moment. -/
structure Update (κ : Type) where
  callback : κ
  profileId : ℤ
  stats : TrafficStats
  listeners : List κ

/-- Why no more steps are taken. -/
inductive Ending
  | closed
  -- uncaught exceptions end the process: `check(looper == null)`, `looper!!`, and a call of
  -- `trafficUpdated` outside `broadcast`
  | illegalState
  | nullPointer
  | remoteException
  deriving DecidableEq

/-- `BaseService.Binder`, and its coroutines. -/
structure World (κ : Type) where
  -- the `RemoteCallbackList`
  callbacks : List κ
  bandwidthListeners : List (κ × ℤ)
  looper : Option ℕ
  loops : List Loop
  -- blocks that were launched and have not run
  blocks : List (Block κ)
  next : ℕ
  updates : List (Update κ)
  ended : Option Ending

variable {κ : Type} [DecidableEq κ]

/-- A new binder. -/
def World.init : World κ := ⟨[], [], none, [], [], 0, [], none⟩

/-- The live loops that are not cancelled. -/
def World.active (w : World κ) : List Loop := w.loops.filter fun l => !l.cancelled

/-- The calls of `trafficUpdated` at the end of the block of `startListeningForBandwidth`. -/
def firstUpdates (data : Snapshot) : List (ℤ × TrafficStats) :=
  if !data.connected then []
  else
    match data.proxy with
    | none => []
    | some (id, out) =>
      let sum : TrafficStats := {}
      let sum' := match out with
        | none => sum
        | some stats => sum.plus stats
      match data.udpFallback with
      | none => [(id, out.getD sum), (0, sum')]
      | some (fallbackId, fallbackOut) =>
        let sum'' := match fallbackOut with
          | none => sum'
          | some stats => sum'.plus stats
        [(id, out.getD sum), (fallbackId, fallbackOut.getD {}), (0, sum'')]

/-- The calls of `firstUpdates`; `fails` if one of them throws. -/
def sendFirst (w : World κ) (data : Snapshot) (fails : Bool) : World κ :=
  if firstUpdates data ≠ [] ∧ fails = true then { w with ended := some .remoteException } else w

/-- The block of `startListeningForBandwidth`. -/
def start (w : World κ) (cb : κ) (timeout : ℤ) (data : Snapshot) (fails : Bool) : World κ :=
  -- `and` does not short-circuit: the listener is put in any case
  let isEmpty := w.bandwidthListeners.isEmpty
  let previous := Assoc.get w.bandwidthListeners cb
  let w := { w with bandwidthListeners := Assoc.put w.bandwidthListeners cb timeout }
  if isEmpty && previous.isNone then
    if w.looper ≠ none then { w with ended := some .illegalState }
    else
      sendFirst { w with
        looper := some w.next
        loops := w.loops ++ [⟨w.next, .launched, false⟩]
        next := w.next + 1 } data fails
  else sendFirst w data fails

/-- `Job.cancel`. -/
def cancel (id : ℕ) (loops : List Loop) : List Loop :=
  loops.map fun l => if l.id = id then { l with cancelled := true } else l

/-- The block of `stopListeningForBandwidth`. -/
def stop (w : World κ) (cb : κ) : World κ :=
  let previous := Assoc.get w.bandwidthListeners cb
  let w := { w with bandwidthListeners := Assoc.remove w.bandwidthListeners cb }
  if previous.isSome && w.bandwidthListeners.isEmpty then
    match w.looper with
    | none => { w with ended := some .nullPointer }
    | some id => { w with loops := cancel id w.loops, looper := none }
  else w

/-- The start of a turn of `loop()`: `delay(bandwidthListeners.values.minOrNull() ?: return)`. -/
def delay (w : World κ) (l : Loop) : World κ :=
  match (w.bandwidthListeners.map Prod.snd).min? with
  | none => { w with loops := w.loops.filter fun l' => l'.id ≠ l.id }
  | some time => { w with loops := w.loops.map fun l' => if l'.id = l.id then { l' with point := .delay time } else l' }

/-- What `loop()` tells one callback; nothing if its calls throw, which `broadcast` catches. -/
def tell (w : World κ) (stats : List (ℤ × TrafficStats × Bool)) (dead : List κ) (item : κ) : List (Update κ) :=
  let sum := stats.foldl (fun a b => a.plus b.2.1) ({} : TrafficStats)
  let updates := stats.map (fun s => (s.1, s.2.1)) ++ [(0, sum)]
  if item ∈ Assoc.keys w.bandwidthListeners ∧ item ∉ dead then
    updates.map fun u => ⟨item, u.1, u.2, Assoc.keys w.bandwidthListeners⟩
  else []

/-- The rest of a turn of `loop()`; `stats` is what the monitors of the proxies return, and whether it
changed. -/
def turn (w : World κ) (connected : Bool) (stats : List (ℤ × TrafficStats × Bool)) (dead : List κ) : World κ :=
  if stats.any (·.2.2) && connected && !w.bandwidthListeners.isEmpty then
    { w with updates := w.updates ++ w.callbacks.flatMap (tell w stats dead) }
  else w

/-- A suspended loop goes on: a cancelled one ends, without running if it was not entered. -/
def resume (w : World κ) (l : Loop) (connected : Bool) (stats : List (ℤ × TrafficStats × Bool))
    (dead : List κ) : World κ :=
  if l.cancelled then { w with loops := w.loops.filter fun l' => l'.id ≠ l.id }
  else
    match l.point with
    | .launched => delay w l
    | .delay _ => delay (turn w connected stats dead) l

/-- What happens next. -/
inductive Event (κ : Type)
  | registerCallback (cb : κ)
  | startListeningForBandwidth (cb : κ) (timeout : ℤ)
  | stopListeningForBandwidth (cb : κ)
  | unregisterCallback (cb : κ)
  | onCallbackDied (cb : κ)
  -- block `i` runs
  | block (i : ℕ) (data : Snapshot) (fails : Bool)
  -- the loop `id` goes on
  | loop (id : ℕ) (connected : Bool) (stats : List (ℤ × TrafficStats × Bool)) (dead : List κ)
  | close

/-- Launch a block. -/
def launch (w : World κ) (b : Block κ) : World κ := { w with blocks := w.blocks ++ [b] }

/-- One step. -/
def step (w : World κ) (e : Event κ) : Option (World κ) :=
  if w.ended ≠ none then none
  else
    match e with
    | .registerCallback cb => some { w with callbacks := if cb ∈ w.callbacks then w.callbacks else w.callbacks ++ [cb] }
    | .startListeningForBandwidth cb timeout => some (launch w (.start cb timeout))
    | .stopListeningForBandwidth cb => some (launch w (.stop cb))
    | .unregisterCallback cb => some { launch w (.stop cb) with callbacks := w.callbacks.filter (· ≠ cb) }
    | .onCallbackDied cb => some (launch { w with callbacks := w.callbacks.filter (· ≠ cb) } (.stop cb))
    | .block i data fails =>
      w.blocks[i]?.map fun b =>
        let w := { w with blocks := w.blocks.eraseIdx i }
        match b with
        | .start cb timeout => start w cb timeout data fails
        | .stop cb => stop w cb
    | .loop id connected stats dead =>
      (w.loops.find? (·.id = id)).map fun l => resume w l connected stats dead
    | .close => some { w with callbacks := [], ended := some .closed }

/-- The binder as a machine. -/
def machine : Machine (World κ) (Event κ) := ⟨World.init, step⟩

/-- The listeners, `looper` and the coroutines agree. -/
structure Inv (w : World κ) : Prop where
  looper : w.looper = none ↔ w.bandwidthListeners = []
  active : w.active.map (·.id) = w.looper.toList
  ids : (w.loops.map (·.id)).Nodup
  fresh : ∀ l ∈ w.loops, l.id < w.next
  updates : ∀ u ∈ w.updates, u.callback ∈ u.listeners
  ended : w.ended ≠ some .illegalState ∧ w.ended ≠ some .nullPointer

omit [DecidableEq κ] in
theorem init_inv : Inv (World.init : World κ) :=
  ⟨by simp [World.init], rfl, List.nodup_nil, by simp [World.init], by simp [World.init], by simp [World.init]⟩

omit [DecidableEq κ] in
/-- The callbacks and the waiting blocks are free. -/
theorem Inv.frame {w : World κ} (h : Inv w) (callbacks : List κ) (blocks : List (Block κ)) :
    Inv { w with callbacks := callbacks, blocks := blocks } :=
  ⟨h.looper, h.active, h.ids, h.fresh, h.updates, h.ended⟩

omit [DecidableEq κ] in
theorem sendFirst_inv {w : World κ} (h : Inv w) (data : Snapshot) (fails : Bool) : Inv (sendFirst w data fails) := by
  unfold sendFirst
  split
  · exact ⟨h.looper, h.active, h.ids, h.fresh, h.updates, by simp, by simp⟩
  · exact h

/-- **A start**: the loop is launched for the first listener only. -/
theorem start_inv {w : World κ} (h : Inv w) (cb : κ) (timeout : ℤ) (data : Snapshot) (fails : Bool) :
    Inv (start w cb timeout data fails) := by
  unfold start
  simp only
  split
  · rename_i hfirst
    have hnil : w.bandwidthListeners = [] := by
      rw [Bool.and_eq_true, List.isEmpty_iff] at hfirst
      exact hfirst.1
    have hlooper : w.looper = none := h.looper.2 hnil
    rw [if_neg (not_not.2 hlooper)]
    apply sendFirst_inv
    refine ⟨by simp [Assoc.put_ne_nil], ?_, ?_, ?_, h.updates, h.ended⟩
    · have hactive := h.active
      rw [hlooper] at hactive
      simp only [World.active] at hactive ⊢
      rw [List.filter_append, List.map_append, hactive]
      rfl
    · rw [List.map_append, List.nodup_append]
      refine ⟨h.ids, by simp, ?_⟩
      intro id hid id' hid'
      obtain ⟨l, hl, rfl⟩ := List.mem_map.1 hid
      have hlt := h.fresh l hl
      have hnext : id' = w.next := by simpa using hid'
      omega
    · intro l hl
      rcases List.mem_append.1 hl with hl | hl
      · exact Nat.lt_succ_of_lt (h.fresh l hl)
      · rw [List.mem_singleton.1 hl]
        exact Nat.lt_succ_self _
  · rename_i hother
    -- a map without a first listener was not empty
    have hne : w.bandwidthListeners ≠ [] := by
      intro hnil
      rw [hnil] at hother
      exact hother rfl
    apply sendFirst_inv
    refine ⟨?_, h.active, h.ids, h.fresh, h.updates, h.ended⟩
    simp only [Assoc.put_ne_nil, iff_false]
    rw [h.looper]
    exact hne

theorem active_cancel {id : ℕ} {loops : List Loop} (h : (loops.filter fun l => !l.cancelled).map (·.id) = [id]) :
    (cancel id loops).filter (fun l => !l.cancelled) = [] := by
  rw [List.filter_eq_nil_iff]
  intro l hl hactive
  obtain ⟨l', hl', rfl⟩ := List.mem_map.1 hl
  split at hactive
  · cases hactive
  · rename_i hid
    have hmem : l'.id ∈ (loops.filter fun l => !l.cancelled).map (·.id) :=
      List.mem_map_of_mem (List.mem_filter.2 ⟨hl', hactive⟩)
    rw [h, List.mem_singleton] at hmem
    exact hid hmem

omit [DecidableEq κ] in
/-- Loops that keep their ids. -/
theorem Inv.map_loops {w : World κ} (h : Inv w) {f : Loop → Loop} (hid : ∀ l, (f l).id = l.id)
    (hcancelled : ∀ l, (f l).cancelled = l.cancelled) : Inv { w with loops := w.loops.map f } := by
  have hids : (w.loops.map f).map (·.id) = w.loops.map (·.id) := by
    rw [List.map_map]
    exact List.map_congr_left fun l _ => hid l
  refine ⟨h.looper, ?_, ?_, ?_, h.updates, h.ended⟩
  · have hactive := h.active
    simp only [World.active] at hactive ⊢
    rw [← hactive, List.filter_map, List.map_map]
    have hfilter : (fun l => !l.cancelled) ∘ f = fun l => !l.cancelled := by
      funext l
      simp [hcancelled]
    rw [hfilter]
    exact List.map_congr_left fun l _ => hid l
  · rw [hids]
    exact h.ids
  · intro l hl
    obtain ⟨l', hl', rfl⟩ := List.mem_map.1 hl
    rw [hid]
    exact h.fresh l' hl'

theorem ids_cancel (id : ℕ) (loops : List Loop) : (cancel id loops).map (·.id) = loops.map (·.id) := by
  unfold cancel
  rw [List.map_map]
  apply List.map_congr_left
  intro l _
  simp only [Function.comp_apply]
  split <;> rfl

/-- **A stop**: the loop is cancelled with the last listener only. -/
theorem stop_inv {w : World κ} (h : Inv w) (cb : κ) : Inv (stop w cb) := by
  unfold stop
  simp only
  split
  · rename_i hlast
    rw [Bool.and_eq_true, List.isEmpty_iff] at hlast
    have hne : w.bandwidthListeners ≠ [] := by
      intro hnil
      rw [hnil] at hlast
      cases hlast.1
    cases hlooper : w.looper with
    | none => exact absurd (h.looper.1 hlooper) hne
    | some id =>
      have hactive := h.active
      rw [hlooper] at hactive
      refine ⟨by simp [hlast.2], ?_, ?_, ?_, h.updates, h.ended⟩
      · simp only [World.active] at hactive ⊢
        rw [active_cancel hactive]
        rfl
      · simp only [ids_cancel]
        exact h.ids
      · intro l hl
        have hmem : l.id ∈ w.loops.map (·.id) := by
          rw [← ids_cancel id]
          exact List.mem_map_of_mem hl
        obtain ⟨l', hl', hid⟩ := List.mem_map.1 hmem
        rw [← hid]
        exact h.fresh l' hl'
  · rename_i hother
    refine ⟨?_, h.active, h.ids, h.fresh, h.updates, h.ended⟩
    simp only
    rw [h.looper, Assoc.remove_eq_nil]
    simpa using hother

omit [DecidableEq κ] in
/-- An ended loop is a cancelled one. -/
theorem Inv.filter_loops {w : World κ} (h : Inv w) {l : Loop} (hl : l ∈ w.loops) (hcancelled : l.cancelled = true) :
    Inv { w with loops := w.loops.filter fun l' => l'.id ≠ l.id } := by
  refine ⟨h.looper, ?_, ?_, ?_, h.updates, h.ended⟩
  · have hactive := h.active
    simp only [World.active] at hactive ⊢
    rw [← hactive, List.filter_filter]
    congr 1
    apply List.filter_congr
    intro l' hl'
    by_cases hid : l'.id = l.id
    · have heq : l' = l := List.inj_on_of_nodup_map h.ids hl' hl hid
      simp [heq, hcancelled]
    · simp [hid]
  · exact h.ids.sublist (List.filter_sublist.map _)
  · exact fun l' hl' => h.fresh l' (List.mem_of_mem_filter hl')

theorem turn_inv {w : World κ} (h : Inv w) (connected : Bool) (stats : List (ℤ × TrafficStats × Bool))
    (dead : List κ) : Inv (turn w connected stats dead) := by
  unfold turn
  split
  · refine ⟨h.looper, h.active, h.ids, h.fresh, ?_, h.ended⟩
    intro u hu
    rcases List.mem_append.1 hu with hu | hu
    · exact h.updates u hu
    · obtain ⟨item, -, hu⟩ := List.mem_flatMap.1 hu
      simp only [tell] at hu
      split at hu
      · rename_i hitem
        obtain ⟨_, -, rfl⟩ := List.mem_map.1 hu
        exact hitem.1
      · cases hu
  · exact h

omit [DecidableEq κ] in
/-- A loop that is not cancelled finds a listener to wait for. -/
theorem delay_inv {w : World κ} (h : Inv w) {l : Loop} (hl : l ∈ w.active) : Inv (delay w l) := by
  have hne : w.bandwidthListeners ≠ [] := by
    intro hnil
    have hactive := h.active
    rw [h.looper.2 hnil] at hactive
    have hmem : l.id ∈ w.active.map (·.id) := List.mem_map_of_mem hl
    rw [hactive] at hmem
    cases hmem
  unfold delay
  split
  · rename_i hmin
    rw [List.min?_eq_none_iff, List.map_eq_nil_iff] at hmin
    exact absurd hmin hne
  · apply h.map_loops
    · intro l'
      split <;> rfl
    · intro l'
      split <;> rfl

/-- **A turn of the loop.** -/
theorem resume_inv {w : World κ} (h : Inv w) {l : Loop} (hl : l ∈ w.loops) (connected : Bool)
    (stats : List (ℤ × TrafficStats × Bool)) (dead : List κ) : Inv (resume w l connected stats dead) := by
  unfold resume
  split
  · rename_i hcancelled
    exact h.filter_loops hl hcancelled
  · rename_i hcancelled
    have hactive : l ∈ w.active := List.mem_filter.2 ⟨hl, by simpa using hcancelled⟩
    cases l.point with
    | launched => exact delay_inv h hactive
    | delay time =>
      apply delay_inv (turn_inv h connected stats dead)
      unfold turn
      split <;> exact hactive

theorem step_inv {w w' : World κ} {e : Event κ} (h : Inv w) (hstep : step w e = some w') : Inv w' := by
  unfold step at hstep
  split at hstep
  · cases hstep
  · cases e with
    | registerCallback cb =>
      cases hstep
      exact h.frame _ _
    | startListeningForBandwidth cb timeout =>
      cases hstep
      exact h.frame _ _
    | stopListeningForBandwidth cb =>
      cases hstep
      exact h.frame _ _
    | unregisterCallback cb =>
      cases hstep
      exact h.frame _ _
    | onCallbackDied cb =>
      cases hstep
      exact h.frame _ _
    | block i data fails =>
      obtain ⟨b, -, rfl⟩ := Option.map_eq_some_iff.1 hstep
      have hrest : Inv { w with blocks := w.blocks.eraseIdx i } := h.frame _ _
      cases b with
      | start cb timeout => exact start_inv hrest cb timeout data fails
      | stop cb => exact stop_inv hrest cb
    | loop id connected stats dead =>
      obtain ⟨l, hl, rfl⟩ := Option.map_eq_some_iff.1 hstep
      exact resume_inv h (List.mem_of_find?_eq_some hl) connected stats dead
    | close =>
      cases hstep
      exact ⟨h.looper, h.active, h.ids, h.fresh, h.updates, by simp, by simp⟩

theorem reach_inv {w : World κ} (h : machine.Reach (fun _ _ => True) w) : Inv w :=
  h.inv (P := Inv) init_inv fun _ _ _ hinv _ hstep => step_inv hinv hstep

/-- **The bookkeeping of the listeners**, in every state that calls, deaths, blocks and turns of the
loop can reach, in any order: `check(looper == null)` and `looper!!` never fail; `loop()` only told
callbacks that were listening; and until `close()`, `looper` is set if and only if there are
listeners, and is the only live loop then, while without listeners none is live. -/
theorem listeners_bookkept {w : World κ} (h : machine.Reach (fun _ _ => True) w) :
    w.ended ≠ some .illegalState ∧ w.ended ≠ some .nullPointer ∧
    (∀ u ∈ w.updates, u.callback ∈ u.listeners) ∧
    (w.ended = none →
      (w.looper ≠ none ↔ w.bandwidthListeners ≠ []) ∧
      (w.bandwidthListeners ≠ [] → ∃ l, w.active = [l] ∧ w.looper = some l.id) ∧
      (w.bandwidthListeners = [] → w.active = [])) := by
  have hinv := reach_inv h
  refine ⟨hinv.ended.1, hinv.ended.2, hinv.updates, fun _ => ⟨not_congr hinv.looper, ?_, ?_⟩⟩
  · intro hne
    have hactive := hinv.active
    obtain ⟨id, hid⟩ := Option.ne_none_iff_exists'.1 (mt hinv.looper.1 hne)
    rw [hid] at hactive
    obtain ⟨l, hl, hlid⟩ := List.map_eq_singleton_iff.1 hactive
    exact ⟨l, hl, by rw [hid, hlid]⟩
  · intro hnil
    have hactive := hinv.active
    rw [hinv.looper.2 hnil] at hactive
    exact List.map_eq_nil_iff.1 hactive

/-- Two callbacks listen, and the second one goes on when the first one dies. -/
def sampleEvents : List (Event ℕ) :=
  [.registerCallback 1, .registerCallback 2, .startListeningForBandwidth 1 1000, .block 0 ⟨false, none, none⟩ false,
    .loop 0 false [] [], .startListeningForBandwidth 2 500, .onCallbackDied 1, .block 0 ⟨false, none, none⟩ false,
    .loop 0 true [(5, {}, true)] [], .block 0 ⟨false, none, none⟩ false, .loop 0 true [(5, {}, true)] []]

theorem listeners_bookkept_death :
    ∃ w, machine.run World.init sampleEvents = some w ∧ Assoc.keys w.bandwidthListeners = [2] ∧
      w.updates.map (·.callback) = [2, 2, 2, 2] ∧ ∃ l, w.active = [l] ∧ w.looper = some l.id := by
  have hmeets : machine.MeetsFrom (fun _ _ => True) World.init sampleEvents := by decide
  exact ⟨_, rfl, rfl, rfl,
    ((listeners_bookkept (Machine.Reach.init.run hmeets rfl)).2.2.2 rfl).2.1 (List.cons_ne_nil _ _)⟩

end Binder

end BlackButton
