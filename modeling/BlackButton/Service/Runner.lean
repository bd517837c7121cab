import BlackButton.Service.Invariant

/-!
# One runner at a time, and stop wins over connect

* `single_runner`: on every run without overlapping starts there is at most one
  connecting job, and nothing that was started is orphaned.
* `double_start`: two start commands in a row, which the code accepts because
  `data.state` is still `Stopped`, give two live jobs and an orphaned proxy.
* `stop_wins`: from `Stopping` the next state is `Stopped`, with everything
  cleaned up and nothing broadcast in between; and `Stopped` can be reached.
-/

namespace BlackButton.Service

/-- At most one job is connecting, and everything open is what `Data` refers to. -/
structure SingleRunner (w : World) : Prop where
  jobs : w.jobs.length ≤ 1
  pools : ∀ p ∈ w.pools, w.data.processes = some p
  proxies : ∀ p ∈ w.proxies, w.data.proxy = some p
  workers : ∀ d ∈ w.workers, w.data.localDns = some d

theorem Inv.jobs_le {w : World} (hi : Inv w) : w.jobs.length ≤ 1 := by
  obtain ⟨-, hp⟩ := hi
  unfold Phase at hp
  split at hp
  · rcases hp with ⟨-, hcl⟩ | ⟨jb, hr, -⟩
    · simp [hcl.jobs]
    · simp [hr.jobs]
  · simp [hp.2]
  · obtain ⟨st, -, hst⟩ := hp
    split at hst
    · rcases hst with h0 | ⟨jb, hj, -⟩
      · simp [h0]
      · simp [hj]
    · simp [hst.jobs]
  · exact hp.elim

/-- **A single runner**, on every run in which no start command is accepted while a connecting job
is live. -/
theorem single_runner (K : Kind) (w : World) (h : (machine K).Reach NoOverlap w) : SingleRunner w := by
  have hi := reach_inv h
  have hc := hi.consistent
  refine ⟨hi.jobs_le, ?_, ?_, ?_⟩
  · intro p hp
    rw [hc.pools, Option.mem_toList] at hp; exact hp
  · intro p hp
    rw [hc.proxies, Option.mem_toList] at hp; exact hp
  · intro d hd
    rw [hc.workers, Option.mem_toList] at hd; exact hd

/-- A session that connects, is reloaded, and starts again. -/
def restartEvents : List Event :=
  [.startCommand (some ⟨true⟩), .job 2 .returns, .job 2 .returns, .reload, .stop 0,
    .startCommand (some ⟨false⟩)]

theorem single_runner_restart :
    ∃ w, (machine .proxyService).run World.init restartEvents = some w ∧ w.jobs.length = 1 ∧
      SingleRunner w := by
  have hm : (machine .proxyService).MeetsFrom NoOverlap World.init restartEvents := by decide
  exact ⟨_, rfl, rfl, single_runner .proxyService _ (Machine.Reach.init.run hm rfl)⟩

/-- **Two start commands in a row overlap**: both jobs are live, and the first proxy is open but no
longer referred to. -/
theorem double_start :
    ∃ w, (machine .vpnService).run World.init
        [.startCommand (some ⟨false⟩), .startCommand (some ⟨false⟩)] = some w ∧
      w.jobs.length = 2 ∧ (0 ∈ w.proxies ∧ w.data.proxy ≠ some 0) ∧ ¬SingleRunner w := by
  refine ⟨_, rfl, rfl, by decide, ?_⟩
  intro h
  exact absurd h.jobs (by decide)

/-! ## Stopping -/

/-- **One step from `Stopping`.** Either the state stays and nothing is broadcast, or `Stopped` is
entered, broadcast, and everything is cleaned up. -/
theorem stopping_step {K : Kind} {w w' : World} {e : Event} (hi : Inv w) (hs : w.data.state = .Stopping)
    (h : step K w e = some w') :
    (w'.data.state = .Stopping ∧ w'.log = w.log) ∨
      (w'.data.state = .Stopped ∧ (∃ msg, w'.log = w.log ++ [(.Stopped, msg)]) ∧ Clean w') := by
  have hsame : ∀ restart msg, stopRunner w restart msg = w := stopRunner_stopping hs
  cases e with
  | startCommand profile =>
    cases h
    left
    have hne : w.data.state ≠ .Stopped := by rw [hs]; decide
    unfold onStartCommand
    rw [if_pos hne]
    exact ⟨hs, rfl⟩
  | close => cases h; rw [hsame]; exact Or.inl ⟨hs, rfl⟩
  | reload =>
    cases h
    left
    have hne : w.data.state ≠ .Stopped := by rw [hs]; decide
    have hcan : ¬(w.data.state.canStop = true) := by rw [hs]; decide
    unfold forceLoad
    rw [if_neg hne, if_neg hcan]
    exact ⟨hs, rfl⟩
  | fatal msg => cases h; rw [hsame]; exact Or.inl ⟨hs, rfl⟩
  | job j r =>
    obtain ⟨jb, hf, hj⟩ := Option.bind_eq_some_iff.1 h
    rcases hi.job_cases hf with ⟨hr, -⟩ | ⟨-, hjobs, hcan⟩
    · have := hr.state
      rw [hs] at this; cases this
    · obtain ⟨c, rfl⟩ := jobStep_cancelled hjobs hcan hj
      exact Or.inl ⟨hs, rfl⟩
  | stop i =>
    obtain ⟨st, hst, hstep⟩ := Option.bind_eq_some_iff.1 h
    have hp := hi.phase
    simp only [Phase, hs] at hp
    obtain ⟨st', hsts, hpt⟩ := hp
    have hste : st' = st := by
      have := List.mem_of_getElem? hst
      rw [hsts, List.mem_singleton] at this
      exact this.symm
    subst hste
    unfold stopStep at hstep
    cases hq : st'.point with
    | joining j =>
      simp only [hq] at hstep
      split at hstep
      · cases hstep
      · cases hstep; exact Or.inl ⟨hs, rfl⟩
    | cleaning =>
      simp only [hq] at hstep hpt
      cases hstep
      have hne : ¬(w.data.state = .Stopped ∧ st'.msg = none) := by rw [hs]; simp
      unfold changeState
      rw [if_neg hne]
      exact Or.inr ⟨rfl, ⟨_, rfl⟩, hpt.processes, hpt.proxy, hpt.udpFallback, hpt.localDns,
        hpt.notification, hpt.receiver, hpt.jobs⟩

/-- Between two points of a run, the service is `Stopping` and has broadcast nothing. -/
def StoppingFrom (K : Kind) (es : List Event) (w : World) (n m : ℕ) : Prop :=
  ∀ i, n ≤ i → i < m → ∃ u, (machine K).stateAt es i = some u ∧ u.data.state = .Stopping ∧ u.log = w.log

/-- The stay in `Stopping` that starts at `n` ends at `k`, where `Stopped` is entered and clean. -/
structure EndsAt (K : Kind) (es : List Event) (w : World) (n k : ℕ) : Prop where
  lt : n < k
  stopping : StoppingFrom K es w n k
  stopped : ∃ u msg, (machine K).stateAt es k = some u ∧ u.data.state = .Stopped ∧
    u.log = w.log ++ [(.Stopped, msg)] ∧ Clean u

/-- Along a run, a stay in `Stopping` lasts, or ends in a clean `Stopped`. -/
theorem stopping_run {K : Kind} {es : List Event} (hm : (machine K).Meets NoOverlap es) {n : ℕ}
    {w : World} (hw : (machine K).stateAt es n = some w) (hs : w.data.state = .Stopping) :
    ∀ d v, (machine K).stateAt es (n + d) = some v →
      StoppingFrom K es w n (n + d + 1) ∨ ∃ k, k ≤ n + d ∧ EndsAt K es w n k := by
  intro d
  induction d with
  | zero =>
    intro v _
    left
    intro i h1 h2
    have : i = n := by omega
    subst this
    exact ⟨w, hw, hs, rfl⟩
  | succ d ih =>
    intro v hv
    rcases Nat.lt_or_ge (n + d) es.length with hlt | hge
    · obtain ⟨u, e, he, hu, hstep⟩ := Machine.stateAt_succ_some hlt hv
      rcases ih u hu with hall | ⟨k, hk, hend⟩
      · obtain ⟨u', hu', hus, hul⟩ := hall (n + d) (by omega) (by omega)
        rw [hu] at hu'; cases hu'
        have hi := reach_inv (Machine.reach_stateAt hm _ _ hu)
        rcases stopping_step hi hus hstep with ⟨h1, h2⟩ | ⟨h1, ⟨msg, h2⟩, h3⟩
        · left
          intro i hni hid
          rcases Nat.lt_or_ge i (n + d + 1) with hi' | hi'
          · exact hall i hni hi'
          · have : i = n + (d + 1) := by omega
            subst this
            exact ⟨v, hv, h1, by rw [h2, hul]⟩
        · right
          exact ⟨n + (d + 1), Nat.le_refl _, by omega, hall, v, msg, hv, h1, by rw [h2, hul], h3⟩
      · exact Or.inr ⟨k, by omega, hend⟩
    · -- the run is over: the state is the one before
      have hsame : (machine K).stateAt es (n + d) = some v := by
        rw [Machine.stateAt_of_length_le hge, ← Machine.stateAt_of_length_le (n := n + (d + 1)) (by omega)]
        exact hv
      rcases ih v hsame with hall | ⟨k, hk, hend⟩
      · left
        intro i hni hid
        rcases Nat.lt_or_ge i (n + d + 1) with hi' | hi'
        · exact hall i hni hi'
        · have : i = n + (d + 1) := by omega
          subst this
          obtain ⟨u, hu, hus, hul⟩ := hall (n + d) (by omega) (by omega)
          rw [hsame] at hu; cases hu
          exact ⟨v, hv, hus, hul⟩
      · exact Or.inr ⟨k, by omega, hend⟩

/-- A stopping coroutine past its clean-up ends in `Stopped`. -/
theorem stop_cleaning {K : Kind} {w : World} {st : Stop} (hst : w.stops = [st])
    (hp : st.point = .cleaning) :
    ∃ u, (machine K).run w [.stop 0] = some u ∧ u.data.state = .Stopped := by
  have hrun : (machine K).run w [.stop 0] =
      some { changeState w .Stopped st.msg with stops := (changeState w .Stopped st.msg).stops.eraseIdx 0 } := by
    simp [Machine.run, machine, step, hst, stopStep, hp]
  refine ⟨_, hrun, ?_⟩
  simp only [changeState]
  split
  · rename_i h; exact h.1
  · rfl

/-- A stopping coroutine whose job is finished ends in `Stopped`. -/
theorem stop_joined {K : Kind} {w : World} {st : Stop} {j : ℕ} (hst : w.stops = [st])
    (hp : st.point = .joining j) (hj : w.jobs = []) :
    ∃ u, (machine K).run w [.stop 0, .stop 0] = some u ∧ u.data.state = .Stopped := by
  have hlive := live_nil hj j
  obtain ⟨u, hu, hus⟩ := stop_cleaning (K := K)
    (w := { cleanUp w with stops := [{ st with point := .cleaning }] }) rfl rfl
  refine ⟨u, ?_, hus⟩
  rw [← hu]
  simp [Machine.run, machine, step, hst, stopStep, hp, hlive, cleanUp, killProcesses]

/-- **From `Stopping`, `Stopped` can be reached.** The cancelled job ends, then the clean-up. -/
theorem stopping_ends {K : Kind} {w : World} (hi : Inv w) (hs : w.data.state = .Stopping) :
    ∃ es u, (machine K).run w es = some u ∧ u.data.state = .Stopped := by
  have hp := hi.phase
  simp only [Phase, hs] at hp
  obtain ⟨st, hst, hpt⟩ := hp
  cases hq : st.point with
  | cleaning => exact ⟨_, stop_cleaning hst hq⟩
  | joining j =>
    simp only [hq] at hpt
    rcases hpt with h0 | ⟨jb, hj, hid, hcan⟩
    · exact ⟨_, stop_joined hst hq h0⟩
    · have hstep : ∃ w', step K w (.job j .cancelled) = some w' := by
        simp only [step, hj, List.find?_cons, hid, decide_true, Option.bind_some, jobStep, hcan, if_true]
        split
        · exact ⟨_, rfl⟩
        · exact ⟨_, rfl⟩
      obtain ⟨w', hw'⟩ := hstep
      obtain ⟨c, rfl⟩ : ∃ c, w' = { w with data := { w.data with connectingJob := c }, jobs := [] } := by
        refine jobStep_cancelled (K := K) (r := .cancelled) hj hcan ?_
        simpa [step, hj, hid] using hw'
      obtain ⟨u, hu, hus⟩ := stop_joined (K := K)
        (w := { w with data := { w.data with connectingJob := c }, jobs := [] }) hst hq rfl
      refine ⟨.job j .cancelled :: [.stop 0, .stop 0], u, ?_, hus⟩
      have hw'' : (machine K).step w (.job j .cancelled) = some _ := hw'
      rw [Machine.run, hw'']
      exact hu

/-- **Stop wins over connect.** On a run without overlapping starts, once the service is `Stopping`
it stays so, broadcasting nothing, until it is `Stopped` with everything cleaned up and no job live;
a further `stopRunner` changes nothing; and `Stopped` can be reached. -/
theorem stop_wins (K : Kind) (es : List Event) (hm : (machine K).Meets NoOverlap es) (n m : ℕ)
    (w v : World) (hnm : n ≤ m) (hw : (machine K).stateAt es n = some w)
    (hv : (machine K).stateAt es m = some v) (hs : w.data.state = .Stopping) :
    (StoppingFrom K es w n (m + 1) ∨ ∃ k, k ≤ m ∧ EndsAt K es w n k) ∧
      (∀ restart msg, stopRunner w restart msg = w) ∧
      ∃ fs u, (machine K).run w fs = some u ∧ u.data.state = .Stopped := by
  obtain ⟨d, rfl⟩ : ∃ d, m = n + d := ⟨m - n, by omega⟩
  exact ⟨stopping_run hm hw hs d v hv, stopRunner_stopping hs,
    stopping_ends (reach_inv (Machine.reach_stateAt hm _ _ hw)) hs⟩

/-- A VPN session that is closed while it sends the file descriptor. -/
def closeEvents : List Event :=
  [.startCommand (some ⟨false⟩), .job 2 .returns, .job 2 .returns, .close, .close, .job 2 .cancelled,
    .stop 0, .stop 0]

theorem stop_wins_sendFd :
    ∃ w v, (machine .vpnService).stateAt closeEvents 4 = some w ∧ w.data.state = .Stopping ∧
      (machine .vpnService).stateAt closeEvents 8 = some v ∧
      (StoppingFrom .vpnService closeEvents w 4 9 ∨ ∃ k, k ≤ 8 ∧ EndsAt .vpnService closeEvents w 4 k) := by
  have hm : (machine .vpnService).MeetsFrom NoOverlap World.init closeEvents := by decide
  exact ⟨_, _, rfl, rfl, rfl,
    (stop_wins .vpnService closeEvents hm 4 8 _ _ (by decide) rfl rfl rfl).1⟩

end BlackButton.Service
