import Mathlib.Algebra.Group.Prod
import BlackButton.Traffic.Monitor

/-!
# What a session adds to the profile (`bg/TrafficMonitor.kt`, `bg/BaseService.kt`, `bg/ProxyInstance.kt`)

`persistStats` is called when the runner stops (`ProxyInstance.shutdown`) and, before that,
when the device shuts down (`ACTION_SHUTDOWN`). A session is a list of events: connections
of `ss-local`, updates for the listeners, and calls of `persistStats`.

* `run_spec`: each call adds what was reported so far, so that the row has the sum over
  the calls (`booked`).
* `bookedOnce_iff`: the row has what was reported, after every call, if and only if no
  call follows one that found traffic.
-/

namespace BlackButton

namespace TrafficMonitor

/-- The monitor of a session, and the storage. -/
structure Session where
  monitor : TrafficMonitor := {}
  store : Storage

inductive Event
  /-- A connection to the monitor. -/
  | report (read : Option (List UInt8))
  /-- `requestUpdate`, at a time of `SystemClock.elapsedRealtime`. -/
  | update (now : ℤ)
  /-- `persistStats`, with the database open. -/
  | persist
  deriving DecidableEq

namespace Session

variable (id : ℤ)

def step (s : Session) : Event → Session × Option PersistFailure
  | .report read => ({ s with monitor := s.monitor.acceptInternal read }, none)
  | .update now => ({ s with monitor := (s.monitor.requestUpdate now).1 }, none)
  | .persist =>
    let r := s.monitor.persistStats s.store .ok id
    (⟨r.1.1, r.1.2⟩, r.2)

def run (s : Session) (es : List Event) : Session := es.foldl (fun s e => (s.step id e).1) s

theorem run_append (s : Session) (es fs : List Event) : s.run id (es ++ fs) = (s.run id es).run id fs :=
  List.foldl_append

end Session

/-- The last report, after `r`. -/
def reportedFrom (r : ℤ × ℤ) : List Event → ℤ × ℤ
  | [] => r
  | .report read :: es => reportedFrom ((reportOf read).getD r) es
  | _ :: es => reportedFrom r es

/-- The totals that were reported last. -/
def reported (es : List Event) : ℤ × ℤ := reportedFrom (0, 0) es

/-- The sum of what was reported before each call of `persistStats`. -/
def bookedFrom (r : ℤ × ℤ) : List Event → ℤ × ℤ
  | [] => (0, 0)
  | .report read :: es => bookedFrom ((reportOf read).getD r) es
  | .update _ :: es => bookedFrom r es
  | .persist :: es => r + bookedFrom r es

def booked (es : List Event) : ℤ × ℤ := bookedFrom (0, 0) es

theorem reportedFrom_append (r : ℤ × ℤ) (es fs : List Event) :
    reportedFrom r (es ++ fs) = reportedFrom (reportedFrom r es) fs := by
  induction es generalizing r with
  | nil => rfl
  | cons e es ih => cases e <;> exact ih _

theorem bookedFrom_append (r : ℤ × ℤ) (es fs : List Event) :
    bookedFrom r (es ++ fs) = bookedFrom r es + bookedFrom (reportedFrom r es) fs := by
  induction es generalizing r with
  | nil => exact (zero_add _).symm
  | cons e es ih =>
    cases e with
    | report read => exact ih _
    | update now => exact ih _
    | persist =>
      rw [List.cons_append, bookedFrom, ih, bookedFrom, add_assoc]
      rfl

/-- One more call adds what was reported. -/
theorem booked_persist (es : List Event) : booked (es ++ [.persist]) = booked es + reported es := by
  unfold booked
  rw [bookedFrom_append, bookedFrom, bookedFrom]
  exact congrArg _ (add_zero _)

/-- Reports are `Long`s. -/
theorem long_reported (es : List Event) :
    long (reported es).1 = (reported es).1 ∧ long (reported es).2 = (reported es).2 := by
  have hfrom : ∀ (es : List Event) (r : ℤ × ℤ), long r.1 = r.1 ∧ long r.2 = r.2 →
      long (reportedFrom r es).1 = (reportedFrom r es).1 ∧ long (reportedFrom r es).2 = (reportedFrom r es).2 := by
    intro es
    induction es with
    | nil => exact fun r h => h
    | cons e es ih =>
      intro r h
      cases e with
      | report read =>
        refine ih _ ?_
        rcases reportOf_cases read with hnone | ⟨bytes, -, -, hsome⟩
        · rw [hnone]
          exact h
        · rw [hsome]
          exact long_report bytes
      | update now => exact ih r h
      | persist => exact ih r h
  exact hfrom es (0, 0) ⟨rfl, rfl⟩

/-! ## Runs -/

section Run

variable {id : ℤ}

/-- A call with the row there: it returns, and adds what was reported. -/
theorem step_persist {s : Session} (h : s.monitor.Wf) {row : Profile} (hrow : s.store.table.get id = some row) :
    (s.step id .persist).2 = none ∧ (s.step id .persist).1.monitor.Wf ∧
      (s.step id .persist).1.monitor.totals = s.monitor.totals ∧
      (s.step id .persist).1.store.table.get id = some (book s.monitor.stats row) := by
  have hid : (book s.monitor.stats row).id = id := (Table.get_eq_some_iff.1 hrow).2
  simp only [Session.step, persistStats_eq h hrow]
  refine ⟨trivial, ⟨h.current_lt, h.out_lt, h.ne, Or.inr rfl⟩, rfl, ?_⟩
  have hget : (s.store.table.update (book s.monitor.stats row)).get (book s.monitor.stats row).id =
      some (book s.monitor.stats row) := Table.get_update (by rw [hid]; exact hrow)
  rw [hid] at hget
  exact hget

/-- **Each call adds what was reported so far.** -/
theorem run_spec {s : Session} (h : s.monitor.Wf) {row : Profile} (hrow : s.store.table.get id = some row)
    (es : List Event) :
    (s.run id es).monitor.Wf ∧ (s.run id es).monitor.totals = reportedFrom s.monitor.totals es ∧
      ∃ row', (s.run id es).store.table.get id = some row' ∧
        long row'.tx = long (row.tx + (bookedFrom s.monitor.totals es).1) ∧
        long row'.rx = long (row.rx + (bookedFrom s.monitor.totals es).2) := by
  induction es generalizing s row with
  | nil => exact ⟨h, rfl, row, hrow, by rw [bookedFrom, add_zero], by rw [bookedFrom, add_zero]⟩
  | cons e es ih =>
    cases e with
    | report read =>
      obtain ⟨hwf, htotals, -⟩ := s.monitor.acceptInternal_spec read h
      have := ih (s := (s.step id (.report read)).1) hwf hrow
      rw [reportedFrom, bookedFrom, ← htotals]
      exact this
    | update now =>
      obtain ⟨hwf, htotals, -⟩ := s.monitor.requestUpdate_spec now h
      have := ih (s := (s.step id (.update now)).1) hwf hrow
      rw [reportedFrom, bookedFrom, ← htotals]
      · exact this
      · simp
    | persist =>
      obtain ⟨-, hwf, htotals, hbook⟩ := step_persist h hrow
      obtain ⟨hwf', htotals', row', hrow', htx, hrx⟩ := ih (s := (s.step id .persist).1) hwf hbook
      rw [htotals] at htotals' htx hrx
      refine ⟨hwf', htotals', row', hrow', ?_, ?_⟩
      · rw [htx, bookedFrom, Prod.fst_add, ← add_assoc]
        exact long_add _ _
      · rw [hrx, bookedFrom, Prod.snd_add, ← add_assoc]
        exact long_add _ _

/-! ## Booked once -/

/-- Whenever `persistStats` returns normally, the row has what it had before the session and what was reported
so far. -/
def BookedOnce (id : ℤ) (store : Storage) (base : Profile) (es : List Event) : Prop :=
  ∀ before after, es = before ++ .persist :: after →
    let s := Session.step id (Session.run id ⟨{}, store⟩ before) .persist
    s.2 = none → ∃ row, s.1.store.table.get id = some row ∧
      row.tx = long (base.tx + (reported before).1) ∧ row.rx = long (base.rx + (reported before).2)

/-- After a call the row has all that was booked. -/
theorem row_persist {store : Storage} {base : Profile} (hrow : store.table.get id = some base) (es : List Event) :
    let s := Session.step id (Session.run id ⟨{}, store⟩ es) .persist
    s.2 = none ∧ ∃ row, s.1.store.table.get id = some row ∧
      row.tx = long (base.tx + (booked es).1 + (reported es).1) ∧
      row.rx = long (base.rx + (booked es).2 + (reported es).2) := by
  obtain ⟨hwf, htotals, row, hget, htx, hrx⟩ := run_spec (s := ⟨{}, store⟩) wf_new hrow es
  obtain ⟨hnone, -, -, hbook⟩ := step_persist hwf hget
  have hreported : ((Session.run id ⟨{}, store⟩ es).monitor.stats.txTotal,
      (Session.run id ⟨{}, store⟩ es).monitor.stats.rxTotal) = reported es := htotals
  refine ⟨hnone, _, hbook, ?_, ?_⟩
  · rw [← hreported, ← long_add (base.tx + _), ← show _ = long (base.tx + (booked es).1) from htx, long_add]
    rfl
  · rw [← hreported, ← long_add (base.rx + _), ← show _ = long (base.rx + (booked es).2) from hrx, long_add]
    rfl

/-- Traffic is booked once if nothing was booked before any call. -/
theorem bookedOnce_iff_booked {store : Storage} {base : Profile} (hrow : store.table.get id = some base)
    {es : List Event} :
    BookedOnce id store base es ↔ ∀ before after, es = before ++ .persist :: after →
      long (booked before).1 = 0 ∧ long (booked before).2 = 0 := by
  refine forall_congr' fun before => forall_congr' fun after => imp_congr_right fun _ => ?_
  obtain ⟨hnone, row, hget, htx, hrx⟩ := row_persist hrow before
  simp only [hnone, hget, forall_const, Option.some.injEq, exists_eq_left', htx, hrx]
  rw [add_right_comm, add_right_comm base.rx, long_add_right, long_add_right]

/-- A call after another one: the next one, with none in between. -/
theorem next_persist (es rest : List Event) :
    ∃ es' rest', es ++ .persist :: rest = es' ++ .persist :: rest' ∧ ∀ r, bookedFrom r es' = (0, 0) := by
  induction es with
  | nil => exact ⟨[], rest, rfl, fun r => rfl⟩
  | cons e es ih =>
    obtain ⟨es', rest', hsplit, hnone⟩ := ih
    cases e with
    | report read => exact ⟨.report read :: es', rest', congrArg (_ :: ·) hsplit, fun r => hnone _⟩
    | update now => exact ⟨.update now :: es', rest', congrArg (_ :: ·) hsplit, fun r => hnone _⟩
    | persist => exact ⟨[], es ++ .persist :: rest, rfl, fun r => rfl⟩

theorem booked_eq_zero {es : List Event}
    (h : ∀ before after, es = before ++ .persist :: after → reported before = (0, 0)) : booked es = (0, 0) := by
  induction es using List.reverseRecOn with
  | nil => rfl
  | append_singleton es e ih =>
    have hes := ih fun before after hsplit => h before (after ++ [e]) (by rw [hsplit]; simp)
    cases e with
    | persist => rw [booked_persist, hes, h es [] rfl, Prod.mk_add_mk, add_zero]
    | report read =>
      have happend : booked (es ++ [.report read]) = booked es + (0, 0) := bookedFrom_append _ _ _
      rw [happend, hes, Prod.mk_add_mk, add_zero]
    | update now =>
      have happend : booked (es ++ [.update now]) = booked es + (0, 0) := bookedFrom_append _ _ _
      rw [happend, hes, Prod.mk_add_mk, add_zero]

/-- **Traffic is booked once if and only if** no call of `persistStats` follows one that found traffic. -/
theorem bookedOnce_iff {store : Storage} {base : Profile} (hrow : store.table.get id = some base)
    (es : List Event) :
    BookedOnce id store base es ↔
      ∀ before between after, es = before ++ .persist :: between ++ .persist :: after → reported before = (0, 0) := by
  rw [bookedOnce_iff_booked hrow]
  constructor
  · intro h before between after hes
    obtain ⟨between', after', hsplit, hnone⟩ := next_persist between after
    have hes' : es = (before ++ .persist :: between') ++ .persist :: after' := by
      rw [hes, List.append_assoc, List.append_assoc, List.cons_append, List.cons_append, hsplit]
    have hsum : booked (before ++ .persist :: between') = booked before + reported before := by
      unfold booked
      rw [bookedFrom_append, bookedFrom, hnone]
      exact congrArg _ (add_zero _)
    have hbefore := h before (between ++ .persist :: after) (by rw [hes]; simp)
    have hnext := h _ _ hes'
    have hlong := long_reported before
    rw [hsum, Prod.fst_add, Prod.snd_add, ← long_add (booked before).1, ← long_add (booked before).2, hbefore.1,
      hbefore.2, zero_add, zero_add, hlong.1, hlong.2] at hnext
    exact Prod.ext hnext.1 hnext.2
  · intro h before after hes
    have hzero : booked before = (0, 0) := by
      refine booked_eq_zero fun a b hab => h a b after ?_
      rw [hes, hab]
    rw [hzero]
    exact ⟨rfl, rfl⟩

end Run

/-- One profile, without traffic. -/
def oneRow : Storage := { table := ⟨[{ id := 1 }], 1, by decide, by decide⟩ }

/-- A report of 100 bytes sent and 50 bytes received. -/
def hundred : Event := .report (some [100, 0, 0, 0, 0, 0, 0, 0, 50, 0, 0, 0, 0, 0, 0, 0])

theorem bookedOnce_stop : oneRow.table.get 1 = some { id := 1 } ∧
    BookedOnce 1 oneRow { id := 1 } [hundred, .update 5, .persist] := by
  have hrow : oneRow.table.get 1 = some { id := 1 } := rfl
  refine ⟨hrow, (bookedOnce_iff hrow [hundred, .update 5, .persist]).2 ?_⟩
  intro before between after hes
  have hcount := congrArg (List.count Event.persist) hes
  have hone : [hundred, .update 5, .persist].count Event.persist = 1 := by decide
  rw [hone, List.count_append, List.count_append, List.count_cons_self, List.count_cons_self] at hcount
  omega

/-- The device shuts down, and the runner stops: the second call books the same traffic again. -/
theorem bookedOnce_shutdown :
    (reported [hundred, .persist], (Session.run 1 ⟨{}, oneRow⟩ [hundred, .persist, .persist]).store.table.get 1) =
        ((100, 50), some { id := 1, tx := 200, rx := 100 }) ∧
      ¬ BookedOnce 1 oneRow { id := 1 } [hundred, .persist, .persist] := by
  have hrow : oneRow.table.get 1 = some { id := 1 } := rfl
  have hbooked : booked [hundred, .persist] = (100, 50) := by decide +kernel
  refine ⟨by decide +kernel, fun h => ?_⟩
  have hzero := ((bookedOnce_iff_booked hrow).1 h [hundred, .persist] [] rfl).1
  rw [hbooked] at hzero
  exact absurd hzero (by decide)

end TrafficMonitor

end BlackButton
