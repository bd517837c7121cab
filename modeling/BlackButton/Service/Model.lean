import BlackButton.Lib.Machine

/-!
# The service state machine (`bg/BaseService.kt`)

`BaseService.Data` and the coroutines that work on it. Everything here runs on
the main thread, so a step is one piece of code between two suspension points:
a start command, a broadcast, the fatal handler of a process pool, one piece of
a connecting job, or one piece of a stopping coroutine.

Two facts about `kotlinx.coroutines` shape the steps.

* `stopRunner` launches on `Dispatchers.Main.immediate`: its coroutine runs at
  once, up to its first suspension (`cancelAndJoin` of a job that is still live,
  or the end of the clean-up scope).
* A connecting job is launched on `Dispatchers.Main`: it is dispatched, and if
  it is cancelled before it starts, none of its body runs, the `finally` block
  included.

The world also records every pool, proxy and DNS worker that was installed and
not yet closed, whether or not `Data` still refers to it.
-/

namespace BlackButton.Service

/-- `BaseService.State`. -/
inductive State
  | Idle
  | Connecting
  | Connected
  | Stopping
  | Stopped
  deriving Repr, DecidableEq

/-- `State.canStop`. -/
def State.canStop : State → Bool
  | .Connecting => true
  | .Connected => true
  | _ => false

/-- The class that implements `BaseService.Interface`. -/
inductive Kind
  | proxyService
  | transproxyService
  | vpnService
  deriving Repr, DecidableEq

/-- `Interface.isVpnService`. -/
def Kind.isVpnService : Kind → Bool
  | .vpnService => true
  | _ => false

/-- What a start command reads of `Core.currentProfile`: is its route `Acl.CUSTOM_RULES`? -/
structure Profile where
  customRules : Bool
  deriving Repr, DecidableEq

/-- `BaseService.Data`; objects are referred to by numbers. -/
structure Data where
  state : State
  processes : Option ℕ
  proxy : Option ℕ
  udpFallback : Option ℕ
  localDns : Option ℕ
  notification : Option ℕ
  closeReceiverRegistered : Bool
  connectingJob : Option ℕ
  deriving Repr, DecidableEq

/-- Where a live connecting job is suspended. -/
inductive Point
  -- dispatched, its body not entered
  | launched
  -- in `preInit`, sending to the network actor
  | preInit
  -- in `withContext(Dispatchers.IO)`, flattening the custom rules
  | flatten
  -- in `sendFd`, between two attempts
  | sendFd
  deriving Repr, DecidableEq

/-- A live connecting job. -/
structure Job where
  id : ℕ
  profile : Profile
  point : Point
  cancelled : Bool
  deriving Repr, DecidableEq

/-- Where a live stopping coroutine is suspended. -/
inductive StopPoint
  -- in `cancelAndJoin` of the connecting job
  | joining (job : ℕ)
  -- at the end of its `coroutineScope`, waiting for the clean-up it launched
  | cleaning
  deriving Repr, DecidableEq

/-- A live stopping coroutine: the arguments of its `stopRunner` and where it is. -/
structure Stop where
  restart : Bool
  msg : Option String
  point : StopPoint
  deriving Repr, DecidableEq

/-- The service, its coroutines, and the objects that are open. -/
structure World where
  data : Data
  jobs : List Job
  stops : List Stop
  -- pools installed and not closed
  pools : List ℕ
  -- proxy instances installed and not shut down
  proxies : List ℕ
  -- DNS workers installed and not shut down
  workers : List ℕ
  -- the next unused object number
  next : ℕ
  -- the calls of `binder.stateChanged`, oldest first
  log : List (State × Option String)
  deriving Repr, DecidableEq

/-- A new service: `Data` as it is constructed. -/
def World.init : World where
  data := ⟨.Stopped, none, none, none, none, none, false, none⟩
  jobs := []
  stops := []
  pools := []
  proxies := []
  workers := []
  next := 0
  log := []

/-- `Data.changeState`. -/
def changeState (w : World) (s : State) (msg : Option String) : World :=
  if w.data.state = s ∧ msg = none then w
  else { w with data := { w.data with state := s }, log := w.log ++ [(s, msg)] }

/-- `Interface.killProcesses`: close the pool, shut the DNS worker down. -/
def killProcesses (w : World) : World :=
  { w with
    data := { w.data with processes := none, localDns := none }
    pools := w.pools.filter (fun p => w.data.processes ≠ some p)
    workers := w.workers.filter (fun d => w.data.localDns ≠ some d) }

/-- The body of the `coroutineScope` of `stopRunner`. -/
def cleanUp (w : World) : World :=
  let w := killProcesses w
  { w with
    data := { w.data with
      closeReceiverRegistered := false
      notification := none
      proxy := none
      udpFallback := none }
    proxies := w.proxies.filter (fun p => w.data.proxy ≠ some p ∧ w.data.udpFallback ≠ some p) }

/-- Is the connecting job `j` live? -/
def World.live (w : World) (j : ℕ) : Bool := w.jobs.any (fun jb => jb.id = j)

/-- `Job.cancel` of a connecting job. -/
def cancelJob (w : World) (j : ℕ) : World :=
  { w with jobs := w.jobs.map fun jb => if jb.id = j then { jb with cancelled := true } else jb }

/-- `Interface.stopRunner`, up to the first suspension of the coroutine it launches. -/
def stopRunner (w : World) (restart : Bool) (msg : Option String) : World :=
  if w.data.state = .Stopping then w
  else
    let w := changeState w .Stopping none
    match w.data.connectingJob with
    | some j =>
      if w.live j then
        let w := cancelJob w j
        { w with stops := w.stops ++ [⟨restart, msg, .joining j⟩] }
      else
        let w := cleanUp w
        { w with stops := w.stops ++ [⟨restart, msg, .cleaning⟩] }
    | none =>
      let w := cleanUp w
      { w with stops := w.stops ++ [⟨restart, msg, .cleaning⟩] }

/-- `Interface.forceLoad`. `startRunner` only asks the system for a start command. -/
def forceLoad (w : World) : World :=
  if w.data.state = .Stopped then w
  else if w.data.state.canStop then stopRunner w true none
  else w

/-- `Interface.onStartCommand`, with the current profile it finds. The state is not changed here:
it is still `Stopped` when the job is launched. -/
def onStartCommand (w : World) (profile : Option Profile) : World :=
  if w.data.state ≠ .Stopped then w
  else
    match profile with
    | none =>
      stopRunner { w with data := { w.data with notification := some w.next }, next := w.next + 1 }
        false (some "profile_empty")
    | some profile =>
      { w with
        data := { w.data with
          proxy := some w.next
          udpFallback := none
          closeReceiverRegistered := true
          notification := some (w.next + 1)
          connectingJob := some (w.next + 2) }
        jobs := w.jobs ++ [⟨w.next + 2, profile, .launched, false⟩]
        proxies := w.proxies ++ [w.next]
        next := w.next + 3 }

/-- The `finally` block of a connecting job, and its end. -/
def finishJob (w : World) (j : ℕ) : World :=
  { w with
    data := { w.data with connectingJob := none }
    jobs := w.jobs.filter (fun jb => jb.id ≠ j) }

/-- The `catch (exc: Throwable)` block of a connecting job, which is still live in it. -/
def failJob (w : World) (j : ℕ) (msg : String) : World :=
  finishJob (stopRunner w false (some msg)) j

/-- The job `j` suspends at `p`. -/
def suspendJob (w : World) (j : ℕ) (p : Point) : World :=
  { w with jobs := w.jobs.map fun jb => if jb.id = j then { jb with point := p } else jb }

/-- Where a piece of a connecting job throws. -/
inductive Fault
  -- in the suspended call, or before the process pool is installed
  | call
  -- in `startProcesses`, before the DNS worker is installed
  | processes
  -- after it: in `startVpn` or in `scheduleUpdate`
  | started
  deriving Repr, DecidableEq

/-- How the suspended call of a connecting job resumes, and how the piece of code after it ends. -/
inductive Resume
  -- the call returns and the piece runs to its end
  | returns
  -- the call or the piece throws
  | throws (fault : Fault) (msg : String)
  -- the call resumes with `CancellationException`
  | cancelled
  deriving Repr, DecidableEq

/-- `scheduleUpdate` and `changeState(State.Connected)`, the end of the body. `data.proxy!!` throws
when there is no proxy. -/
def connected (w : World) (j : ℕ) : World :=
  match w.data.proxy with
  | none => failJob w j "NullPointerException"
  | some _ => finishJob (changeState w .Connected none) j

/-- `data.processes = GuardedProcessPool { .. }`. -/
def installPool (w : World) : World :=
  { w with
    data := { w.data with processes := some w.next }
    pools := w.pools ++ [w.next]
    next := w.next + 1 }

/-- `data.localDns = LocalDnsWorker(..).apply { start() }`. -/
def installDns (w : World) : World :=
  { w with
    data := { w.data with localDns := some w.next }
    workers := w.workers ++ [w.next]
    next := w.next + 1 }

/-- The pool is installed and `startProcesses` runs. `fault` says where it throws, if it does. -/
def startProcesses (K : Kind) (w : World) (j : ℕ) (fault : Option (Fault × String)) : Option World :=
  let w := installPool w
  match w.data.proxy, fault with
  | _, some (.call, _) => none
  | none, _ => some (failJob w j "NullPointerException")
  | some _, some (.processes, msg) => some (failJob w j msg)
  | some _, some (.started, msg) => some (failJob (installDns w) j msg)
  | some _, none =>
    some (if K.isVpnService then suspendJob (installDns w) j .sendFd else connected (installDns w) j)

/-- What follows `preInit`: flatten the custom rules if the route asks for it, else go on. -/
def afterPreInit (K : Kind) (w : World) (jb : Job) (fault : Option (Fault × String)) : Option World :=
  if jb.profile.customRules then
    if fault = none then some (suspendJob w jb.id .flatten) else none
  else startProcesses K w jb.id fault

/-- The piece of a connecting job that starts where it is suspended; `none` when `fault` is not in
that piece. -/
def jobPiece (K : Kind) (w : World) (jb : Job) (fault : Option (Fault × String)) : Option World :=
  match jb.point with
  | .launched =>
    if K.isVpnService then if fault = none then some (suspendJob w jb.id .preInit) else none
    else afterPreInit K w jb fault
  | .preInit => afterPreInit K w jb fault
  | .flatten => startProcesses K w jb.id fault
  | .sendFd => if fault = none then some (connected w jb.id) else none

/-- One piece of the connecting job `jb`. A cancelled job resumes only with `CancellationException`;
if it was cancelled before it started, its `finally` block does not run either. -/
def jobStep (K : Kind) (w : World) (jb : Job) : Resume → Option World
  | .returns => if jb.cancelled then none else jobPiece K w jb none
  | .throws .call msg => if jb.cancelled then none else some (failJob w jb.id msg)
  | .throws fault msg => if jb.cancelled then none else jobPiece K w jb (some (fault, msg))
  | .cancelled =>
    if jb.cancelled then
      match jb.point with
      | .launched => some { w with jobs := w.jobs.filter (fun x => x.id ≠ jb.id) }
      | _ => some (finishJob w jb.id)
    else none

/-- One piece of the `i`-th stopping coroutine: the clean-up once its job is finished, then the end
once the clean-up is. -/
def stopStep (w : World) (i : ℕ) (st : Stop) : Option World :=
  match st.point with
  | .joining j =>
    if w.live j then none
    else
      let w := cleanUp w
      some { w with stops := w.stops.set i { st with point := .cleaning } }
  | .cleaning =>
    let w := changeState w .Stopped st.msg
    some { w with stops := w.stops.eraseIdx i }

/-- What can happen on the main thread. -/
inductive Event
  -- `onStartCommand`, with the current profile
  | startCommand (profile : Option Profile)
  -- `Action.CLOSE`, or the VPN being revoked: `stopRunner()`
  | close
  -- `Action.RELOAD`: `forceLoad()`
  | reload
  -- the `onFatal` of a process pool, closed or not
  | fatal (msg : String)
  -- a connecting job runs
  | job (j : ℕ) (r : Resume)
  -- a stopping coroutine runs
  | stop (i : ℕ)
  deriving Repr, DecidableEq

/-- One step of the service. -/
def step (K : Kind) (w : World) : Event → Option World
  | .startCommand profile => some (onStartCommand w profile)
  | .close => some (stopRunner w false none)
  | .reload => some (forceLoad w)
  | .fatal msg => some (stopRunner w false (some msg))
  | .job j r => (w.jobs.find? (fun jb => jb.id = j)).bind fun jb => jobStep K w jb r
  | .stop i => (w.stops[i]?).bind fun st => stopStep w i st

/-- The service as a machine. -/
def machine (K : Kind) : Machine World Event := ⟨World.init, step K⟩

end BlackButton.Service
