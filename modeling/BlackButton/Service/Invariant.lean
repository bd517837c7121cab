import BlackButton.Service.Model

/-!
# The service invariant on runs without overlapping starts

`onStartCommand` is guarded by `data.state` alone, and leaves it at `Stopped`
while the job it launched is connecting. A start command that is accepted in
that window launches a second job over the first. `NoOverlap` is the condition
that this does not happen; under it `Inv` holds in every state (`reach_inv`):

* every open pool, proxy and DNS worker is the one `Data` refers to
  (`Inv.open_eq`);
* `Phase`: what each value of `data.state` says about the live job, the stopping
  coroutine and the fields.
-/

namespace BlackButton.Service

/-- No start command is accepted while a connecting job is live. -/
def NoOverlap (w : World) : Event → Prop
  | .startCommand _ => w.data.state = .Stopped → w.jobs = []
  | _ => True

instance (w : World) : (e : Event) → Decidable (NoOverlap w e)
  | .startCommand _ => inferInstanceAs (Decidable (w.data.state = .Stopped → w.jobs = []))
  | .close | .reload | .fatal _ | .job _ _ | .stop _ => isTrue trivial

/-- The open objects are exactly those that `Data` refers to. -/
structure Consistent (w : World) : Prop where
  pools : w.pools = w.data.processes.toList
  proxies : w.proxies = w.data.proxy.toList
  workers : w.workers = w.data.localDns.toList
  udpFallback : w.data.udpFallback = none

/-- Nothing is left of a session. -/
structure Clean (w : World) : Prop where
  processes : w.data.processes = none
  proxy : w.data.proxy = none
  udpFallback : w.data.udpFallback = none
  localDns : w.data.localDns = none
  notification : w.data.notification = none
  receiver : w.data.closeReceiverRegistered = false
  jobs : w.jobs = []

/-- The job `jb` is connecting: it is the only one, `Data` knows it, and nothing is stopping. -/
structure Running (w : World) (jb : Job) : Prop where
  state : w.data.state = .Stopped
  stops : w.stops = []
  jobs : w.jobs = [jb]
  active : jb.cancelled = false
  job : w.data.connectingJob = some jb.id
  proxy : w.data.proxy ≠ none

/-- Neither pool nor DNS worker is installed before `startProcesses`. -/
def NotStarted (w : World) : Prop := w.data.processes = none ∧ w.data.localDns = none

/-- What `data.state` says about the coroutines and the fields. -/
def Phase (w : World) : Prop :=
  match w.data.state with
  | .Stopped =>
    (w.stops = [] ∧ Clean w) ∨ ∃ jb, Running w jb ∧ (jb.point ≠ .sendFd → NotStarted w)
  | .Connected => w.stops = [] ∧ w.jobs = []
  | .Stopping =>
    ∃ st, w.stops = [st] ∧
      match st.point with
      | .joining j => w.jobs = [] ∨ ∃ jb, w.jobs = [jb] ∧ jb.id = j ∧ jb.cancelled = true
      | .cleaning => Clean w
  | _ => False

/-- The invariant. -/
structure Inv (w : World) : Prop where
  consistent : Consistent w
  phase : Phase w

theorem init_inv : Inv World.init :=
  ⟨⟨rfl, rfl, rfl, rfl⟩, Or.inl ⟨rfl, rfl, rfl, rfl, rfl, rfl, rfl, rfl⟩⟩

/-! ## The pieces of code -/

/-- The clean-up closes what `Data` refers to, which is all there is. -/
theorem cleanUp_consistent {w : World} (h : Consistent w) : Consistent (cleanUp w) := by
  refine ⟨?_, ?_, ?_, rfl⟩
  · simp only [cleanUp, killProcesses, h.pools]
    cases w.data.processes <;> simp
  · simp only [cleanUp, killProcesses, h.proxies, h.udpFallback]
    cases w.data.proxy <;> simp
  · simp only [cleanUp, killProcesses, h.workers]
    cases w.data.localDns <;> simp

theorem live_nil {w : World} (h : w.jobs = []) (j : ℕ) : w.live j = false := by
  simp [World.live, h]

/-- **`stopRunner` during `Stopping` changes nothing.** -/
theorem stopRunner_stopping {w : World} (h : w.data.state = .Stopping) (restart : Bool)
    (msg : Option String) : stopRunner w restart msg = w := by
  unfold stopRunner
  rw [if_pos h]

/-- Without a live job, `stopRunner` goes straight to the clean-up. -/
theorem stopRunner_idle {w : World} (hc : Consistent w) (hs : w.data.state ≠ .Stopping)
    (hst : w.stops = []) (hj : w.jobs = []) (restart : Bool) (msg : Option String) :
    Inv (stopRunner w restart msg) := by
  have hlive : ∀ j, (changeState w .Stopping none).live j = false := by
    intro j
    exact live_nil (by unfold changeState; split <;> exact hj) j
  have hcc : Consistent (changeState w .Stopping none) := by
    unfold changeState
    split
    · exact hc
    · exact ⟨hc.pools, hc.proxies, hc.workers, hc.udpFallback⟩
  have hjj : (changeState w .Stopping none).jobs = [] := by unfold changeState; split <;> exact hj
  have hss : (changeState w .Stopping none).stops = [] := by unfold changeState; split <;> exact hst
  have hcl : ∀ st : Stop, st.point = .cleaning →
      Inv { cleanUp (changeState w .Stopping none) with
        stops := (changeState w .Stopping none).stops ++ [st] } := by
    intro st hp
    obtain ⟨h1, h2, h3, h4⟩ := cleanUp_consistent hcc
    refine ⟨⟨h1, h2, h3, h4⟩, ?_⟩
    have hstate : (cleanUp (changeState w .Stopping none)).data.state = .Stopping := by
      simp [cleanUp, killProcesses, changeState, hs]
    simp only [Phase, hstate, hss, List.nil_append]
    refine ⟨st, rfl, ?_⟩
    rw [hp]
    exact ⟨rfl, rfl, rfl, rfl, rfl, rfl, hjj⟩
  unfold stopRunner
  rw [if_neg hs]
  simp only
  split
  · rename_i j _
    rw [if_neg (by simp [hlive j])]
    exact hcl _ rfl
  · exact hcl _ rfl

/-- While a job is connecting, `stopRunner` cancels it and waits for it. -/
theorem stopRunner_running {w : World} {jb : Job} (hr : Running w jb) (restart : Bool)
    (msg : Option String) :
    stopRunner w restart msg =
      { w with
        data := { w.data with state := .Stopping }
        jobs := [{ jb with cancelled := true }]
        stops := [⟨restart, msg, .joining jb.id⟩]
        log := w.log ++ [(.Stopping, none)] } := by
  simp [stopRunner, changeState, cancelJob, World.live, hr.state, hr.jobs, hr.stops, hr.job]

theorem stopRunner_inv {w : World} (hi : Inv w) (restart : Bool) (msg : Option String) :
    Inv (stopRunner w restart msg) := by
  obtain ⟨hc, hp⟩ := hi
  unfold Phase at hp
  split at hp
  · rename_i hs
    rcases hp with ⟨hst, hcl⟩ | ⟨jb, hr, -⟩
    · exact stopRunner_idle hc (by rw [hs]; decide) hst hcl.jobs restart msg
    · rw [stopRunner_running hr]
      exact ⟨⟨hc.pools, hc.proxies, hc.workers, hc.udpFallback⟩,
        _, rfl, Or.inr ⟨_, rfl, rfl, rfl⟩⟩
  · rename_i hs
    exact stopRunner_idle hc (by rw [hs]; decide) hp.1 hp.2 restart msg
  · rename_i hs
    rw [stopRunner_stopping hs]
    refine ⟨hc, ?_⟩
    unfold Phase
    rw [hs]
    exact hp
  · exact hp.elim

/-- A job that fails stops the service from inside: `stopRunner` waits for the job that called it,
which then ends. -/
theorem failJob_inv {w : World} {jb : Job} (hc : Consistent w) (hr : Running w jb) (msg : String) :
    Inv (failJob w jb.id msg) := by
  unfold failJob
  rw [stopRunner_running hr]
  refine ⟨⟨hc.pools, hc.proxies, hc.workers, hc.udpFallback⟩, _, rfl, Or.inl ?_⟩
  simp [finishJob]

theorem connected_inv {w : World} {jb : Job} (hc : Consistent w) (hr : Running w jb) :
    Inv (connected w jb.id) := by
  unfold connected
  split
  · exact failJob_inv hc hr _
  · refine ⟨?_, ?_⟩
    · simp only [changeState, hr.state, finishJob]
      exact ⟨hc.pools, hc.proxies, hc.workers, hc.udpFallback⟩
    · simp [Phase, changeState, hr.state, finishJob, hr.stops, hr.jobs]

theorem suspendJob_inv {w : World} {jb : Job} (hc : Consistent w) (hr : Running w jb) (p : Point)
    (hp : p ≠ .sendFd → NotStarted w) : Inv (suspendJob w jb.id p) := by
  refine ⟨⟨hc.pools, hc.proxies, hc.workers, hc.udpFallback⟩, ?_⟩
  simp only [Phase, suspendJob, hr.state]
  exact Or.inr ⟨{ jb with point := p },
    ⟨hr.state, hr.stops, by simp [hr.jobs], hr.active, hr.job, hr.proxy⟩, hp⟩

theorem startProcesses_inv {K : Kind} {w w' : World} {jb : Job} (hc : Consistent w) (hr : Running w jb)
    (hn : NotStarted w) {fault : Option (Fault × String)}
    (h : startProcesses K w jb.id fault = some w') : Inv w' := by
  -- nothing is open before, so what is installed is all that is open
  have hc1 : Consistent (installPool w) := by
    refine ⟨?_, hc.proxies, hc.workers, hc.udpFallback⟩
    simp [installPool, hc.pools, hn.1]
  have hr1 : Running (installPool w) jb := ⟨hr.state, hr.stops, hr.jobs, hr.active, hr.job, hr.proxy⟩
  have hc2 : Consistent (installDns (installPool w)) := by
    refine ⟨hc1.pools, hc1.proxies, ?_, hc1.udpFallback⟩
    simp [installDns, installPool, hc.workers, hn.2]
  have hr2 : Running (installDns (installPool w)) jb :=
    ⟨hr.state, hr.stops, hr.jobs, hr.active, hr.job, hr.proxy⟩
  unfold startProcesses at h
  simp only at h
  split at h
  · cases h
  · cases h; exact failJob_inv hc1 hr1 _
  · cases h; exact failJob_inv hc1 hr1 _
  · cases h; exact failJob_inv hc2 hr2 _
  · cases h
    split
    · exact suspendJob_inv hc2 hr2 _ (fun hne => absurd rfl hne)
    · exact connected_inv hc2 hr2

theorem afterPreInit_inv {K : Kind} {w w' : World} {jb : Job} (hc : Consistent w) (hr : Running w jb)
    (hn : NotStarted w) {fault : Option (Fault × String)} (h : afterPreInit K w jb fault = some w') :
    Inv w' := by
  unfold afterPreInit at h
  split at h
  · split at h
    · cases h; exact suspendJob_inv hc hr _ (fun _ => hn)
    · cases h
  · exact startProcesses_inv hc hr hn h

theorem jobPiece_inv {K : Kind} {w w' : World} {jb : Job} (hc : Consistent w) (hr : Running w jb)
    (hn : jb.point ≠ .sendFd → NotStarted w) {fault : Option (Fault × String)}
    (h : jobPiece K w jb fault = some w') : Inv w' := by
  unfold jobPiece at h
  cases hp : jb.point with
  | launched =>
    have hn := hn (by rw [hp]; decide)
    simp only [hp] at h
    split at h
    · split at h
      · cases h; exact suspendJob_inv hc hr _ (fun _ => hn)
      · cases h
    · exact afterPreInit_inv hc hr hn h
  | preInit =>
    simp only [hp] at h
    exact afterPreInit_inv hc hr (hn (by rw [hp]; decide)) h
  | flatten =>
    simp only [hp] at h
    exact startProcesses_inv hc hr (hn (by rw [hp]; decide)) h
  | sendFd =>
    simp only [hp] at h
    split at h
    · cases h; exact connected_inv hc hr
    · cases h

/-! ## The steps -/

/-- A live job is either connecting, or cancelled by the stopping coroutine that waits for it. -/
theorem Inv.job_cases {w : World} (hi : Inv w) {j : ℕ} {jb : Job}
    (h : w.jobs.find? (fun jb => jb.id = j) = some jb) :
    (Running w jb ∧ (jb.point ≠ .sendFd → NotStarted w)) ∨
      (w.data.state = .Stopping ∧ w.jobs = [jb] ∧ jb.cancelled = true) := by
  have hmem := List.mem_of_find?_eq_some h
  obtain ⟨-, hp⟩ := hi
  unfold Phase at hp
  split at hp
  · rcases hp with ⟨-, hcl⟩ | ⟨jb', hr, hn⟩
    · rw [hcl.jobs] at hmem; cases hmem
    · rw [hr.jobs, List.mem_singleton] at hmem
      subst hmem
      exact Or.inl ⟨hr, hn⟩
  · rw [hp.2] at hmem; cases hmem
  · rename_i hs
    obtain ⟨st, -, hst⟩ := hp
    split at hst
    · rcases hst with h0 | ⟨jb', hj, -, hcan⟩
      · rw [h0] at hmem; cases hmem
      · rw [hj, List.mem_singleton] at hmem
        subst hmem
        exact Or.inr ⟨hs, hj, hcan⟩
    · rw [hst.jobs] at hmem; cases hmem
  · exact hp.elim

/-- What a step of a cancelled job does: the job ends, and nothing else but `connectingJob` changes. -/
theorem jobStep_cancelled {K : Kind} {w w' : World} {jb : Job} (hj : w.jobs = [jb])
    (hcan : jb.cancelled = true) {r : Resume} (h : jobStep K w jb r = some w') :
    ∃ c, w' = { w with data := { w.data with connectingJob := c }, jobs := [] } := by
  cases r with
  | returns => simp [jobStep, hcan] at h
  | throws fault msg => cases fault <;> simp [jobStep, hcan] at h
  | cancelled =>
    simp only [jobStep, hcan, if_true] at h
    split at h
    · cases h; exact ⟨w.data.connectingJob, by simp [hj]⟩
    · cases h; exact ⟨none, by simp [finishJob, hj]⟩

theorem jobStep_inv {K : Kind} {w w' : World} (hi : Inv w) {j : ℕ} {jb : Job}
    (hf : w.jobs.find? (fun jb => jb.id = j) = some jb) {r : Resume} (h : jobStep K w jb r = some w') :
    Inv w' := by
  rcases hi.job_cases hf with ⟨hr, hn⟩ | ⟨hs, hj, hcan⟩
  · have hact := hr.active
    cases r with
    | returns =>
      simp only [jobStep, hact, Bool.false_eq_true, if_false] at h
      exact jobPiece_inv hi.consistent hr hn h
    | throws fault msg =>
      cases fault with
      | call =>
        simp only [jobStep, hact, Bool.false_eq_true, if_false, Option.some.injEq] at h
        subst h; exact failJob_inv hi.consistent hr msg
      | processes =>
        simp only [jobStep, hact, Bool.false_eq_true, if_false] at h
        exact jobPiece_inv hi.consistent hr hn h
      | started =>
        simp only [jobStep, hact, Bool.false_eq_true, if_false] at h
        exact jobPiece_inv hi.consistent hr hn h
    | cancelled => simp [jobStep, hact] at h
  · obtain ⟨c, rfl⟩ := jobStep_cancelled hj hcan h
    obtain ⟨hc, hp⟩ := hi
    refine ⟨⟨hc.pools, hc.proxies, hc.workers, hc.udpFallback⟩, ?_⟩
    simp only [Phase, hs] at hp ⊢
    obtain ⟨st, hst, hpt⟩ := hp
    refine ⟨st, hst, ?_⟩
    cases hq : st.point with
    | joining j => simp
    | cleaning =>
      simp only [hq] at hpt
      exact absurd hpt.jobs (by rw [hj]; simp)

/-- What a step of a stopping coroutine does. -/
theorem stopStep_inv {w w' : World} (hi : Inv w) {i : ℕ} {st : Stop} (hst : w.stops[i]? = some st)
    (h : stopStep w i st = some w') : Inv w' := by
  obtain ⟨hc, hp⟩ := hi
  unfold Phase at hp
  split at hp
  · -- nothing is stopping in `Stopped`
    have : w.stops = [] := by
      rcases hp with ⟨h0, -⟩ | ⟨_, hr, -⟩
      · exact h0
      · exact hr.stops
    simp [this] at hst
  · simp [hp.1] at hst
  · rename_i hs
    obtain ⟨st', hsts, hpt⟩ := hp
    have hi0 : i = 0 := by
      rw [hsts, List.getElem?_eq_some_iff] at hst
      obtain ⟨hlt, -⟩ := hst
      simpa using hlt
    subst hi0
    have hste : st' = st := by simpa [hsts] using hst
    subst hste
    unfold stopStep at h
    cases hq : st'.point with
    | joining j =>
      simp only [hq] at h hpt
      split at h
      · cases h
      · rename_i hlive
        cases h
        have hjobs : w.jobs = [] := by
          rcases hpt with h0 | ⟨jb, hj, hid, -⟩
          · exact h0
          · exact absurd (by simp [World.live, hj, hid]) hlive
        obtain ⟨h1, h2, h3, h4⟩ := cleanUp_consistent hc
        refine ⟨⟨h1, h2, h3, h4⟩, ?_⟩
        have hs' : (cleanUp w).data.state = .Stopping := hs
        simp only [Phase, hs']
        refine ⟨{ st' with point := .cleaning }, ?_, ?_⟩
        · simp [cleanUp, killProcesses, hsts]
        · exact ⟨rfl, rfl, rfl, rfl, rfl, rfl, hjobs⟩
    | cleaning =>
      simp only [hq] at h hpt
      cases h
      have hne : ¬(w.data.state = .Stopped ∧ st'.msg = none) := by rw [hs]; simp
      refine ⟨?_, ?_⟩
      · simp only [changeState, if_neg hne]
        exact ⟨hc.pools, hc.proxies, hc.workers, hc.udpFallback⟩
      · simp only [Phase, changeState, if_neg hne]
        refine Or.inl ⟨by simp [hsts], ?_⟩
        exact ⟨hpt.processes, hpt.proxy, hpt.udpFallback, hpt.localDns, hpt.notification, hpt.receiver,
          hpt.jobs⟩
  · exact hp.elim

theorem forceLoad_inv {w : World} (hi : Inv w) : Inv (forceLoad w) := by
  unfold forceLoad
  split
  · exact hi
  · split
    · exact stopRunner_inv hi _ _
    · exact hi

/-- A start command that finds no live job starts the only one. -/
theorem onStartCommand_inv {w : World} (hi : Inv w) (hno : w.data.state = .Stopped → w.jobs = [])
    (profile : Option Profile) : Inv (onStartCommand w profile) := by
  unfold onStartCommand
  split
  · exact hi
  rename_i hs
  rw [not_not] at hs
  have hclean : w.stops = [] ∧ Clean w := by
    have hp := hi.phase
    simp only [Phase, hs] at hp
    rcases hp with h | ⟨jb, hr, -⟩
    · exact h
    · have := hno hs
      rw [hr.jobs] at this; cases this
  obtain ⟨hst, hcl⟩ := hclean
  have hc := hi.consistent
  cases profile with
  | none =>
    dsimp only
    apply stopRunner_idle
    · exact ⟨hc.pools, hc.proxies, hc.workers, hc.udpFallback⟩
    · simp [hs]
    · exact hst
    · exact hcl.jobs
  | some profile =>
    refine ⟨⟨hc.pools, ?_, hc.workers, rfl⟩, ?_⟩
    · simp [hc.proxies, hcl.proxy]
    · simp only [Phase, hs]
      exact Or.inr ⟨⟨w.next + 2, profile, .launched, false⟩,
        ⟨rfl, hst, by simp [hcl.jobs], rfl, rfl, by simp⟩, fun _ => ⟨hcl.processes, hcl.localDns⟩⟩

/-- **Every step without an overlapping start keeps the invariant.** -/
theorem step_inv {K : Kind} {w w' : World} {e : Event} (hi : Inv w) (hno : NoOverlap w e)
    (h : step K w e = some w') : Inv w' := by
  cases e with
  | startCommand profile => cases h; exact onStartCommand_inv hi hno profile
  | close => cases h; exact stopRunner_inv hi _ _
  | reload => cases h; exact forceLoad_inv hi
  | fatal msg => cases h; exact stopRunner_inv hi _ _
  | job j r =>
    obtain ⟨jb, hf, hj⟩ := Option.bind_eq_some_iff.1 h
    exact jobStep_inv hi hf hj
  | stop i =>
    obtain ⟨st, hst, hs⟩ := Option.bind_eq_some_iff.1 h
    exact stopStep_inv hi hst hs

/-- **The invariant holds on every run without overlapping starts.** -/
theorem reach_inv {K : Kind} {w : World} (h : (machine K).Reach NoOverlap w) : Inv w :=
  h.inv init_inv fun _ _ _ hi hno hs => step_inv hi hno hs

end BlackButton.Service
