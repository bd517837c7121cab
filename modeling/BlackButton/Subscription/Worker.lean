import Mathlib.Logic.Function.Basic
import BlackButton.Lib.Machine

/-!
# The worker of the subscription service (`subscription/SubscriptionService.kt`)

A start command launches a worker on `Dispatchers.Default` unless the field `worker` is
set, and the `finally` block of the worker's body resets the field and posts
`idle.value = true`. The body runs on another thread than the service, so that its pieces
come at any time, also between `launch` and the assignment of `worker`; a worker that is
cancelled before it is dispatched never enters its body.

* `Orderly`: the steps that leave no worker behind.
* `reach_settled`: **in runs of such steps** the fields always fit the live workers.
* `not_settled_abort`, `stuck_step`: after an abort that comes too early there is nothing
  left that would reset the fields, and no start command launches a worker again.
-/

namespace BlackButton

namespace SubscriptionService

/-- Where a live worker is. -/
inductive Point
  -- dispatched, its body not entered
  | launched
  -- in the body, before the `try` block
  | preparing
  -- in the `try` block
  | updating
  -- in the `finally` block, before `idle.value = true` is posted
  | finishing
  -- before `check(worker != null)`
  | posted
  -- after `worker = null`
  | cleared
  deriving Repr, DecidableEq

/-- A live worker; `service` is the number of the service that launched it. -/
structure Job where
  id : ℕ
  service : ℕ
  point : Point
  cancelled : Bool
  deriving Repr, DecidableEq

/-- The service and its workers. -/
structure World where
  -- `idle.value`, which all services share
  idle : Bool
  -- the number of the last service that was created
  service : ℕ
  -- that service is not destroyed
  alive : Bool
  receiverRegistered : Bool
  -- the field `worker` of each service
  worker : ℕ → Option ℕ
  -- `onStartCommand` has launched this worker and not yet assigned it
  starting : Option ℕ
  jobs : List Job
  -- blocks that were posted to the main thread and will set `idle.value` to true
  posts : ℕ
  next : ℕ

/-- No service was created. -/
def World.init : World := ⟨true, 0, false, false, fun _ => none, none, [], 0, 0⟩

/-- A start command creates the service if there is none. -/
def create (w : World) : World :=
  if w.alive then w
  else { w with
    service := w.service + 1
    alive := true
    receiverRegistered := false
    worker := Function.update w.worker (w.service + 1) none }

/-- `onStartCommand`, up to the assignment of `worker`. After `stopSelf(startId)` the system may
destroy the service. -/
def onStartCommand (w : World) : World :=
  if w.worker w.service = none then
    { w with
      idle := false
      receiverRegistered := true
      jobs := w.jobs ++ [⟨w.next, w.service, .launched, false⟩]
      starting := some w.next
      next := w.next + 1 }
  else w

/-- Cancel the workers that meet `p`. -/
def cancel (p : Job → Prop) [DecidablePred p] (w : World) : World :=
  { w with jobs := w.jobs.map fun j => if p j then { j with cancelled := true } else j }

/-- `worker?.cancel()`. -/
def abort (w : World) : World :=
  match w.worker w.service with
  | none => w
  | some id => cancel (fun j => j.id = id) w

/-- `onDestroy`. -/
def onDestroy (w : World) : World :=
  { cancel (fun j => j.service = w.service) w with alive := false, receiverRegistered := false }

/-- A worker goes on to its next piece. -/
def move (w : World) (j : Job) (p : Point) : World :=
  { w with jobs := w.jobs.map fun j' => if j'.id = j.id then { j' with point := p } else j' }

/-- A worker has ended. -/
def finish (w : World) (j : Job) : World := { w with jobs := w.jobs.filter fun j' => j'.id ≠ j.id }

/-- The next piece of a worker; `fails` if the part before the `try` block throws. The `try` block is
left in any case, whether it ends well, fails or is cancelled. -/
def runJob (w : World) (j : Job) (fails : Bool) : World :=
  match j.point with
  | .launched => if j.cancelled then finish w j else move w j .preparing
  | .preparing => if fails then finish w j else move w j .updating
  | .updating => move w j .finishing
  | .finishing => { move w j .posted with posts := w.posts + 1 }
  | .posted =>
    -- `check(worker != null)`
    if w.worker j.service = none then finish w j
    else { move w j .cleared with worker := Function.update w.worker j.service none }
  | .cleared => finish w j

/-- What happens next. -/
inductive Event
  | startCommand
  -- `onStartCommand` assigns `worker` and returns
  | assigned
  -- the broadcast `Action.ABORT`
  | abort
  | destroy
  -- the worker `id` runs its next piece
  | job (id : ℕ) (fails : Bool)
  -- the main thread runs `idle.value = true`
  | idle
  deriving DecidableEq

/-- One step. While `onStartCommand` runs, the main thread does nothing else. -/
def step (w : World) (e : Event) : Option World :=
  match e with
  | .startCommand => if w.starting = none then some (onStartCommand (create w)) else none
  | .assigned =>
    w.starting.map fun id =>
      { w with worker := Function.update w.worker w.service (some id), starting := none }
  | .abort => if w.starting = none ∧ w.alive = true ∧ w.receiverRegistered = true then some (abort w) else none
  | .destroy => if w.starting = none ∧ w.alive = true then some (onDestroy w) else none
  | .job id fails => (w.jobs.find? (·.id = id)).map fun j => runJob w j fails
  | .idle => if w.starting = none ∧ 0 < w.posts then some { w with idle := true, posts := w.posts - 1 } else none

/-- The service as a machine. -/
def machine : Machine World Event := ⟨World.init, step⟩

/-- The worker will still post `idle.value = true`. -/
def Job.WillPost (j : Job) : Prop :=
  match j.point with
  | .launched => j.cancelled = false
  | .preparing => True
  | .updating => True
  | .finishing => True
  | .posted => False
  | .cleared => False

/-- The fields fit the live workers. -/
structure Settled (w : World) : Prop where
  -- without a live worker no field `worker` is set,
  worker : w.jobs = [] → ∀ i, w.worker i = none
  -- and `idle` is true, or will be;
  idle : w.idle = false → 0 < w.posts ∨ ∃ j ∈ w.jobs, j.WillPost
  -- a start command launches a worker;
  restart : w.jobs = [] → ∃ w' j, step w .startCommand = some w' ∧ w'.jobs = [j]
  -- two workers are never live
  single : w.jobs.length ≤ 1

/-- The steps that leave no worker behind. -/
def Orderly (w : World) : Event → Prop
  -- a worker is launched after the last one has ended,
  | .startCommand => (w.alive = true ∧ w.worker w.service ≠ none) ∨ w.jobs = []
  -- is not cancelled before it is dispatched,
  | .abort => ∀ j ∈ w.jobs, w.worker w.service = some j.id → j.point ≠ .launched
  | .destroy => ∀ j ∈ w.jobs, j.service = w.service → j.point ≠ .launched
  -- does not fail before its `try` block, and does not end before `worker` is assigned
  | .job id fails => ∀ j ∈ w.jobs, j.id = id →
      (j.point = .preparing → fails = false) ∧ (j.point = .posted → w.starting ≠ some id)
  | .assigned => True
  | .idle => True

instance (w : World) : DecidablePred (Orderly w)
  | .startCommand => inferInstanceAs (Decidable ((w.alive = true ∧ w.worker w.service ≠ none) ∨ w.jobs = []))
  | .abort => inferInstanceAs (Decidable (∀ j ∈ w.jobs, w.worker w.service = some j.id → j.point ≠ .launched))
  | .destroy => inferInstanceAs (Decidable (∀ j ∈ w.jobs, j.service = w.service → j.point ≠ .launched))
  | .job id fails => inferInstanceAs (Decidable (∀ j ∈ w.jobs, j.id = id →
      (j.point = .preparing → fails = false) ∧ (j.point = .posted → w.starting ≠ some id)))
  | .assigned => isTrue trivial
  | .idle => isTrue trivial

/-! ## Orderly runs -/

/-- `j` is the only live worker. -/
structure Running (w : World) (j : Job) : Prop where
  jobs : w.jobs = [j]
  service : j.service ≤ w.service
  other : ∀ i, i ≠ j.service → w.worker i = none
  assigned : w.starting = none → w.worker j.service = if j.point = .cleared then none else some j.id
  starting : ∀ id, w.starting = some id → id = j.id ∧ j.service = w.service ∧ j.point ≠ .cleared
  active : j.point = .launched → j.cancelled = false
  idle : w.idle = false → 0 < w.posts ∨ j.WillPost

/-- No worker is live. -/
structure Resting (w : World) : Prop where
  jobs : w.jobs = []
  starting : w.starting = none
  worker : ∀ i, w.worker i = none
  idle : w.idle = false → 0 < w.posts

def Inv (w : World) : Prop := Resting w ∨ ∃ j, Running w j

theorem init_inv : Inv World.init := Or.inl ⟨rfl, rfl, fun _ => rfl, fun h => by cases h⟩

/-- A start command when no worker is live. -/
theorem Resting.start {w : World} (h : Resting w) :
    ∃ j, (onStartCommand (create w)).jobs = [j] ∧ Running (onStartCommand (create w)) j := by
  have hworker : ∀ i, (create w).worker i = none := by
    intro i
    unfold create
    split
    · exact h.worker i
    · simp [Function.update_apply, h.worker]
  have hjobs : (create w).jobs = [] := by
    unfold create
    split <;> exact h.jobs
  have hlaunched : (onStartCommand (create w)).jobs = [⟨(create w).next, (create w).service, .launched, false⟩] := by
    simp [onStartCommand, hworker, hjobs]
  refine ⟨_, hlaunched, hlaunched, ?_, ?_, ?_, ?_, fun _ => rfl, fun _ => Or.inr rfl⟩
  · simp [onStartCommand, hworker]
  · intro i _
    simp [onStartCommand, hworker]
  · intro hstarting
    simp [onStartCommand, hworker] at hstarting
  · intro id hid
    simp only [onStartCommand, hworker, if_true, Option.some.injEq] at hid
    refine ⟨hid.symm, ?_, by simp⟩
    simp [onStartCommand, hworker]

theorem Running.resting_finish {w : World} {j : Job} (h : Running w j) (hstarting : w.starting = none)
    (hpoint : j.point = .cleared) : Resting (finish w j) := by
  refine ⟨by simp [finish, h.jobs], hstarting, ?_, ?_⟩
  · intro i
    by_cases hi : i = j.service
    · have hassigned := h.assigned hstarting
      rw [if_pos hpoint] at hassigned
      rw [hi]
      exact hassigned
    · exact h.other i hi
  · intro hidle
    rcases h.idle hidle with hposts | hpost
    · exact hposts
    · rw [Job.WillPost, hpoint] at hpost
      exact hpost.elim

theorem Running.jobs_move {w : World} {j : Job} (h : Running w j) (p : Point) :
    (move w j p).jobs = [{ j with point := p }] := by
  simp [move, h.jobs]

/-- A piece that touches nothing but the place of the worker. -/
theorem Running.moved {w : World} {j : Job} (h : Running w j) {p : Point} (hj : j.point ≠ .cleared)
    (hpost : ({ j with point := p } : Job).WillPost) (hlaunched : p ≠ .launched) :
    Running (move w j p) { j with point := p } := by
  have hcleared : p ≠ .cleared := by
    rintro rfl
    exact hpost
  refine ⟨h.jobs_move p, h.service, h.other, ?_, ?_, fun hp => absurd hp hlaunched,
    fun _ => Or.inr hpost⟩
  · intro hstarting
    have hassigned := h.assigned hstarting
    rw [if_neg hj] at hassigned
    rw [if_neg hcleared]
    exact hassigned
  · intro id hid
    exact ⟨(h.starting id hid).1, (h.starting id hid).2.1, hcleared⟩

/-- **A piece of the worker** keeps the fields in step. -/
theorem Running.runJob_inv {w : World} {j : Job} (h : Running w j) {fails : Bool}
    (hfails : j.point = .preparing → fails = false) (hposted : j.point = .posted → w.starting ≠ some j.id) :
    Inv (runJob w j fails) := by
  -- the worker is past `launch` only if `worker` is assigned, or will be
  have hnone : w.starting ≠ some j.id → w.starting = none := by
    intro hne
    cases hstarting : w.starting with
    | none => rfl
    | some id => exact absurd (by rw [hstarting, (h.starting id hstarting).1]) hne
  cases hpoint : j.point with
  | launched =>
    simp only [runJob, hpoint, h.active hpoint]
    exact Or.inr ⟨_, h.moved (by simp [hpoint]) trivial (by simp)⟩
  | preparing =>
    simp only [runJob, hpoint, hfails hpoint]
    exact Or.inr ⟨_, h.moved (by simp [hpoint]) trivial (by simp)⟩
  | updating =>
    simp only [runJob, hpoint]
    exact Or.inr ⟨_, h.moved (by simp [hpoint]) trivial (by simp)⟩
  | finishing =>
    simp only [runJob, hpoint]
    refine Or.inr ⟨{ j with point := .posted }, h.jobs_move .posted, h.service, h.other, ?_, ?_, by simp,
      fun _ => Or.inl (Nat.succ_pos _)⟩
    · intro hstarting
      have hassigned := h.assigned hstarting
      rw [hpoint] at hassigned
      exact hassigned
    · intro id hid
      exact ⟨(h.starting id hid).1, (h.starting id hid).2.1, by simp⟩
  | posted =>
    have hstarting := hnone (hposted hpoint)
    have hassigned := h.assigned hstarting
    rw [hpoint] at hassigned
    have hset : w.worker j.service = some j.id := by simpa using hassigned
    simp only [runJob, hpoint, hset]
    refine Or.inr ⟨{ j with point := .cleared }, h.jobs_move .cleared, h.service, ?_, ?_, ?_, by simp, ?_⟩
    · intro i hi
      exact (Function.update_of_ne hi _ _).trans (h.other i hi)
    · intro _
      simp
    · intro id hid
      exact absurd (hstarting.symm.trans hid) (by simp)
    · intro hidle
      rcases h.idle hidle with hposts | hpost
      · exact Or.inl hposts
      · rw [Job.WillPost, hpoint] at hpost
        exact hpost.elim
  | cleared =>
    simp only [runJob, hpoint]
    have hstarting : w.starting = none := by
      apply hnone
      intro hid
      exact (h.starting j.id hid).2.2 hpoint
    exact Or.inl (h.resting_finish hstarting hpoint)

/-- A worker that has entered its body may be cancelled. -/
theorem Running.cancel_inv {w : World} {j : Job} (h : Running w j) {p : Job → Prop} [DecidablePred p]
    (hp : p j → j.point ≠ .launched) : Inv (cancel p w) := by
  by_cases hj : p j
  · have hlaunched := hp hj
    refine Or.inr ⟨{ j with cancelled := true }, by simp [cancel, h.jobs, hj], h.service, h.other,
      h.assigned, h.starting, fun hpoint => absurd hpoint hlaunched, fun hidle => ?_⟩
    rcases h.idle hidle with hposts | hpost
    · exact Or.inl hposts
    · refine Or.inr ?_
      unfold Job.WillPost at hpost ⊢
      cases hpoint : j.point with
      | launched => exact absurd hpoint hlaunched
      | preparing => trivial
      | updating => trivial
      | finishing => trivial
      | posted => rw [hpoint] at hpost; exact hpost
      | cleared => rw [hpoint] at hpost; exact hpost
  · refine Or.inr ⟨j, ?_⟩
    exact ⟨by simp [cancel, h.jobs, hj], h.service, h.other, h.assigned, h.starting, h.active, h.idle⟩

/-- A cancellation keeps the fields in step, unless a worker was not dispatched yet. -/
theorem Inv.cancel {w : World} (h : Inv w) {p : Job → Prop} [DecidablePred p]
    (hp : ∀ j ∈ w.jobs, p j → j.point ≠ .launched) : Inv (cancel p w) := by
  rcases h with h | ⟨j, h⟩
  · exact Or.inl ⟨by simp [SubscriptionService.cancel, h.jobs], h.starting, h.worker, h.idle⟩
  · exact h.cancel_inv (hp j (by rw [h.jobs]; exact List.mem_singleton_self j))

theorem Inv.destroyed {w : World} (h : Inv w) : Inv { w with alive := false, receiverRegistered := false } := by
  rcases h with h | ⟨j, h⟩
  · exact Or.inl ⟨h.jobs, h.starting, h.worker, h.idle⟩
  · exact Or.inr ⟨j, h.jobs, h.service, h.other, h.assigned, h.starting, h.active, h.idle⟩

theorem Inv.start {w : World} (h : Inv w) (hok : Orderly w .startCommand) : Inv (onStartCommand (create w)) := by
  rcases h with h | ⟨j, h⟩
  · obtain ⟨j, -, hj⟩ := h.start
    exact Or.inr ⟨j, hj⟩
  · rcases hok with ⟨halive, hworker⟩ | hnil
    · have hself : onStartCommand (create w) = w := by
        unfold create onStartCommand
        rw [if_pos halive, if_neg hworker]
      rw [hself]
      exact Or.inr ⟨j, h⟩
    · rw [h.jobs] at hnil
      cases hnil

theorem Inv.assigned {w : World} (h : Inv w) {id : ℕ} (hstarting : w.starting = some id) :
    Inv { w with worker := Function.update w.worker w.service (some id), starting := none } := by
  rcases h with h | ⟨j, h⟩
  · rw [h.starting] at hstarting
    cases hstarting
  · obtain ⟨hid, hservice, hpoint⟩ := h.starting id hstarting
    refine Or.inr ⟨j, h.jobs, h.service, ?_, ?_, fun id' hid' => absurd hid' (by simp), h.active, h.idle⟩
    · intro i hi
      rw [hservice] at hi
      refine (Function.update_of_ne hi _ _).trans (h.other i ?_)
      rwa [hservice]
    · intro _
      rw [if_neg hpoint, hservice, ← hid]
      exact Function.update_self _ _ _

theorem Inv.idle {w : World} (h : Inv w) (posts : ℕ) : Inv { w with idle := true, posts := posts } := by
  rcases h with h | ⟨j, h⟩
  · exact Or.inl ⟨h.jobs, h.starting, h.worker, fun hidle => by cases hidle⟩
  · exact Or.inr ⟨j, h.jobs, h.service, h.other, h.assigned, h.starting, h.active, fun hidle => by cases hidle⟩

theorem of_guard {p : Prop} [Decidable p] {w w' : World} (h : (if p then some w else none) = some w') : p ∧ w = w' := by
  obtain ⟨hp, hw⟩ := Option.ite_none_right_eq_some.1 h
  exact ⟨hp, Option.some.inj hw⟩

/-- **An orderly step** leaves no worker behind. -/
theorem step_inv {w w' : World} {e : Event} (h : Inv w) (hok : Orderly w e) (hstep : step w e = some w') :
    Inv w' := by
  cases e with
  | startCommand =>
    obtain ⟨-, rfl⟩ := of_guard hstep
    exact h.start hok
  | assigned =>
    obtain ⟨id, hid, rfl⟩ := Option.map_eq_some_iff.1 hstep
    exact h.assigned hid
  | abort =>
    obtain ⟨-, rfl⟩ := of_guard hstep
    unfold abort
    split
    · exact h
    · rename_i id hid
      apply h.cancel
      rintro j hj rfl
      exact hok j hj hid
  | destroy =>
    obtain ⟨-, rfl⟩ := of_guard hstep
    exact (h.cancel hok).destroyed
  | job id fails =>
    obtain ⟨j, hfind, rfl⟩ := Option.map_eq_some_iff.1 hstep
    have hmem : j ∈ w.jobs := List.mem_of_find?_eq_some hfind
    have hid : j.id = id := by simpa using List.find?_some hfind
    obtain ⟨hfails, hposted⟩ := hok j hmem hid
    rcases h with h | ⟨j', h⟩
    · rw [h.jobs] at hmem
      cases hmem
    · have heq : j = j' := by
        rw [h.jobs] at hmem
        exact List.mem_singleton.1 hmem
      rw [← heq] at h
      exact h.runJob_inv hfails (by rwa [hid])
  | idle =>
    obtain ⟨-, rfl⟩ := of_guard hstep
    exact h.idle _

/-- What the invariant says about the fields. -/
theorem Inv.settled {w : World} (h : Inv w) : Settled w := by
  rcases h with h | ⟨j, h⟩
  · refine ⟨fun _ => h.worker, fun hidle => Or.inl (h.idle hidle), fun _ => ?_, by simp [h.jobs]⟩
    obtain ⟨j, hj, -⟩ := h.start
    exact ⟨_, j, if_pos h.starting, hj⟩
  · have hne : w.jobs ≠ [] := by simp [h.jobs]
    refine ⟨fun hnil => absurd hnil hne, fun hidle => ?_, fun hnil => absurd hnil hne, by simp [h.jobs]⟩
    rcases h.idle hidle with hposts | hpost
    · exact Or.inl hposts
    · exact Or.inr ⟨j, by simp [h.jobs], hpost⟩

/-- **The life cycle of the worker**: in every state that a run of orderly steps reaches, without a
live worker the field is reset and `idle` is true or about to be, so that the next start command
launches a worker; and two workers are never live. -/
theorem reach_settled {w : World} (h : machine.Reach Orderly w) : Settled w := by
  have hinv : Inv w := h.inv (P := Inv) init_inv fun _ _ _ hinv hok hstep => step_inv hinv hok hstep
  exact hinv.settled

/-! ## A worker that is cancelled before it is dispatched -/

/-- The field is set, no worker is left to reset it, and nothing will set `idle`. -/
structure Stuck (w : World) : Prop where
  jobs : w.jobs = []
  worker : w.worker w.service ≠ none
  alive : w.alive = true
  starting : w.starting = none
  idle : w.idle = false
  posts : w.posts = 0

/-- **It stays so** until the service is destroyed: no start command launches a worker. -/
theorem stuck_step {w w' : World} {e : Event} (h : Stuck w) (he : e ≠ .destroy) (hstep : step w e = some w') :
    Stuck w' := by
  cases e with
  | startCommand =>
    obtain ⟨-, rfl⟩ := of_guard hstep
    unfold create onStartCommand
    rw [if_pos h.alive, if_neg h.worker]
    exact h
  | assigned =>
    obtain ⟨id, hid, -⟩ := Option.map_eq_some_iff.1 hstep
    rw [h.starting] at hid
    cases hid
  | abort =>
    obtain ⟨-, rfl⟩ := of_guard hstep
    unfold abort
    split
    · exact h
    · exact ⟨by simp [cancel, h.jobs], h.worker, h.alive, h.starting, h.idle, h.posts⟩
  | destroy => exact absurd rfl he
  | job id fails =>
    obtain ⟨j, hfind, -⟩ := Option.map_eq_some_iff.1 hstep
    rw [h.jobs] at hfind
    cases hfind
  | idle =>
    obtain ⟨⟨-, hposts⟩, -⟩ := of_guard hstep
    rw [h.posts] at hposts
    exact absurd hposts (Nat.lt_irrefl 0)

/-- A start command, an abort before the worker is dispatched, and its dispatch. -/
theorem not_settled_abort :
    ∃ w, machine.run World.init [.startCommand, .assigned, .abort, .job 0 false] = some w ∧
      w.jobs = [] ∧ w.worker w.service = some 0 ∧ w.idle = false ∧ w.posts = 0 ∧ ¬Settled w := by
  refine ⟨_, rfl, rfl, rfl, rfl, rfl, fun h => ?_⟩
  have hnone := h.worker rfl 1
  cases hnone

/-- A whole update, and the start of another one. -/
def updateEvents : List Event :=
  [.startCommand, .assigned, .job 0 false, .job 0 false, .abort, .job 0 false, .job 0 false, .job 0 false,
    .job 0 false, .idle, .startCommand]

theorem reach_settled_update :
    ∃ w, machine.run World.init updateEvents = some w ∧ w.jobs = [⟨1, 1, .launched, false⟩] ∧ Settled w := by
  have hmeets : machine.MeetsFrom Orderly World.init updateEvents := by decide
  exact ⟨_, rfl, rfl, reach_settled (Machine.Reach.init.run hmeets rfl)⟩

end SubscriptionService

end BlackButton
