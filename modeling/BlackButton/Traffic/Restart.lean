import Mathlib.Algebra.BigOperators.Group.List.Basic
import BlackButton.Traffic.Booking

/-!
# Restarts of the process (`bg/TrafficMonitor.kt`, `bg/GuardedProcessPool.kt`)

`GuardedProcessPool` starts `ss-local` again when it ends, and its counters start again
from 0, while the monitor stays. The events of a session are those of the runs of the
process, one after the other.

* `reported_sum`: what the monitor keeps is the last report of all. It is less than the
  sum over the runs, except when all runs before the last report ended at 0.
* `run_rates`: rates are not negative as long as the totals do not decrease, and the
  traffic between two updates, times 1000, is a `Long`.
* `survives_restarts`: both together.
-/

namespace BlackButton

namespace TrafficMonitor

/-- The reports do not decrease, from `r` on. -/
def AscendingFrom (r : ℤ × ℤ) : List Event → Prop
  | [] => True
  | .report read :: es =>
    (r.1 ≤ ((reportOf read).getD r).1 ∧ r.2 ≤ ((reportOf read).getD r).2) ∧
      AscendingFrom ((reportOf read).getD r) es
  | _ :: es => AscendingFrom r es

/-- The updates are made at times that do not decrease, from `t` on. -/
def TimesFrom (t : ℤ) : List Event → Prop
  | [] => True
  | .update now :: es => (t ≤ now ∧ now < 2 ^ 63) ∧ TimesFrom now es
  | _ :: es => TimesFrom t es

/-- The largest difference of totals whose rate is computed without overflow. -/
def maxDifference : ℤ := (2 ^ 63 - 1) / 1000

/-- Between an update at another time and the one before, no more than `maxDifference` is reported. The
last update was at `t` and showed `shown`, the last report was `r`. -/
def SlowFrom (t : ℤ) (shown r : ℤ × ℤ) : List Event → Prop
  | [] => True
  | .report read :: es => SlowFrom t shown ((reportOf read).getD r) es
  | .update now :: es =>
    if now = t then SlowFrom t shown r es
    else (r.1 - shown.1 ≤ maxDifference ∧ r.2 - shown.2 ≤ maxDifference) ∧ SlowFrom now r r es
  | .persist :: es => SlowFrom t shown r es

/-- There is a report. -/
def hasReport (es : List Event) : Bool :=
  es.any fun
    | .report read => (reportOf read).isSome
    | _ => false

/-- The runs of the process: reports that do not decrease, each from 0 on, and no call of `persistStats`. -/
structure Runs (runs : List (List Event)) : Prop where
  ascending : ∀ es ∈ runs, AscendingFrom (0, 0) es
  times : TimesFrom 0 runs.flatten
  noPersist : Event.persist ∉ runs.flatten

/-- The process is not started again after traffic was reported, or reports nothing afterwards. -/
def Quiet (runs : List (List Event)) : Prop :=
  ∀ before es after, runs = before ++ es :: after → hasReport after.flatten = true → reported es = (0, 0)

/-- The traffic of all runs is booked, and no rate is negative. -/
structure Survives (id : ℤ) (store : Storage) (base : Profile) (runs : List (List Event)) : Prop where
  booked : ∃ row, (Session.run id ⟨{}, store⟩ (runs.flatten ++ [.persist])).store.table.get id = some row ∧
    row.tx = long (base.tx + (runs.map reported).sum.1) ∧ row.rx = long (base.rx + (runs.map reported).sum.2)
  rates : ∀ before now after, runs.flatten = before ++ .update now :: after →
    let r := (Session.run id ⟨{}, store⟩ before).monitor.requestUpdate now
    0 ≤ (r.1.heap r.2.1).txRate ∧ 0 ≤ (r.1.heap r.2.1).rxRate

/-! ## What is kept of the reports -/

theorem le_reportedFrom {r : ℤ × ℤ} {es : List Event} (h : AscendingFrom r es) :
    r.1 ≤ (reportedFrom r es).1 ∧ r.2 ≤ (reportedFrom r es).2 := by
  induction es generalizing r with
  | nil => exact ⟨le_refl _, le_refl _⟩
  | cons e es ih =>
    cases e with
    | report read =>
      obtain ⟨hle, hrest⟩ := h
      have := ih hrest
      rw [reportedFrom]
      omega
    | update now => exact ih h
    | persist => exact ih h

theorem reportedFrom_of_not {es : List Event} (h : hasReport es = false) (r : ℤ × ℤ) : reportedFrom r es = r := by
  induction es generalizing r with
  | nil => rfl
  | cons e es ih =>
    unfold hasReport at h ih
    rw [List.any_cons, Bool.or_eq_false_iff] at h
    cases e with
    | report read =>
      have hnone : reportOf read = none := by simpa using h.1
      rw [reportedFrom, hnone]
      exact ih h.2 r
    | update now => exact ih h.2 r
    | persist => exact ih h.2 r

/-- A report makes what was before it irrelevant. -/
theorem reportedFrom_of_hasReport {es : List Event} (h : hasReport es = true) (r r' : ℤ × ℤ) :
    reportedFrom r es = reportedFrom r' es := by
  induction es generalizing r r' with
  | nil => cases h
  | cons e es ih =>
    unfold hasReport at h ih
    rw [List.any_cons, Bool.or_eq_true] at h
    cases e with
    | report read =>
      rw [reportedFrom, reportedFrom]
      rcases h with h | h
      · obtain ⟨x, hx⟩ := Option.isSome_iff_exists.1 h
        rw [hx]
        rfl
      · exact ih h _ _
    | update now => exact ih (h.resolve_left (by simp)) r r'
    | persist => exact ih (h.resolve_left (by simp)) r r'

theorem hasReport_append (es fs : List Event) : hasReport (es ++ fs) = (hasReport es || hasReport fs) :=
  List.any_append

theorem reported_of_not {es : List Event} (h : hasReport es = false) : reported es = (0, 0) :=
  reportedFrom_of_not h (0, 0)

theorem quiet_cons {es : List Event} {rest : List (List Event)} :
    Quiet (es :: rest) ↔ (hasReport rest.flatten = true → reported es = (0, 0)) ∧ Quiet rest := by
  constructor
  · intro h
    refine ⟨fun hrep => h [] es rest rfl hrep, fun before es' after hrest hrep => ?_⟩
    exact h (es :: before) es' after (by rw [hrest]; rfl) hrep
  · rintro ⟨hfirst, hrest⟩ before es' after hsplit hrep
    cases before with
    | nil =>
      obtain ⟨rfl, rfl⟩ := List.cons.inj hsplit
      exact hfirst hrep
    | cons b before =>
      obtain ⟨-, htail⟩ := List.cons.inj hsplit
      exact hrest before es' after htail hrep

/-- Runs without reports. -/
theorem quiet_of_not {runs : List (List Event)} (h : hasReport runs.flatten = false) : Quiet runs := by
  rintro before es after rfl hrep
  rw [List.flatten_append, List.flatten_cons, hasReport_append, hasReport_append, hrep, Bool.or_true,
    Bool.or_true] at h
  cases h

/-- **The last report is the sum over the runs** if and only if nothing was reported before a restart. -/
theorem reported_sum {runs : List (List Event)} (h : ∀ es ∈ runs, AscendingFrom (0, 0) es) :
    (0 ≤ (reported runs.flatten).1 ∧ (reported runs.flatten).1 ≤ (runs.map reported).sum.1) ∧
      (0 ≤ (reported runs.flatten).2 ∧ (reported runs.flatten).2 ≤ (runs.map reported).sum.2) ∧
      (Quiet runs ↔ reported runs.flatten = (runs.map reported).sum) := by
  induction runs with
  | nil =>
    have hle : (0 : ℤ) ≤ 0 := le_refl 0
    exact ⟨⟨hle, hle⟩, ⟨hle, hle⟩, fun _ => rfl, fun _ => quiet_of_not rfl⟩
  | cons es rest ih =>
    obtain ⟨hes, hrest⟩ := List.forall_mem_cons.1 h
    obtain ⟨htx, hrx, hiff⟩ := ih hrest
    have hpos : 0 ≤ (reported es).1 ∧ 0 ≤ (reported es).2 := le_reportedFrom hes
    have happend : reported (es :: rest).flatten = reportedFrom (reported es) rest.flatten := by
      unfold reported
      rw [List.flatten_cons, reportedFrom_append]
    rw [List.map_cons, List.sum_cons, Prod.fst_add, Prod.snd_add, quiet_cons, happend]
    cases hrep : hasReport rest.flatten with
    | true =>
      -- the reports of `es` are forgotten
      have hlast : reportedFrom (reported es) rest.flatten = reported rest.flatten := reportedFrom_of_hasReport hrep _ _
      rw [hlast, hiff]
      refine ⟨by omega, by omega, ?_⟩
      simp only [Prod.ext_iff, Prod.fst_add, Prod.snd_add, forall_const]
      omega
    | false =>
      have hlast : reportedFrom (reported es) rest.flatten = reported es := reportedFrom_of_not hrep _
      have hzero : (rest.map reported).sum = (0, 0) := by
        rw [← hiff.1 (quiet_of_not hrep), reported_of_not hrep]
      rw [hlast, hzero]
      simp [quiet_of_not hrep, hpos]

theorem ascendingFrom_append {r : ℤ × ℤ} {es fs : List Event} (h : AscendingFrom r es)
    (h' : AscendingFrom (reportedFrom r es) fs) : AscendingFrom r (es ++ fs) := by
  induction es generalizing r with
  | nil => exact h'
  | cons e es ih =>
    cases e with
    | report read => exact ⟨h.1, ih h.2 h'⟩
    | update now => exact ih h h'
    | persist => exact ih h h'

theorem ascendingFrom_of_not {es : List Event} (h : hasReport es = false) (r : ℤ × ℤ) : AscendingFrom r es := by
  induction es with
  | nil => trivial
  | cons e es ih =>
    unfold hasReport at h ih
    rw [List.any_cons, Bool.or_eq_false_iff] at h
    cases e with
    | report read =>
      have hnone : reportOf read = none := by simpa using h.1
      rw [AscendingFrom, hnone]
      exact ⟨⟨le_refl _, le_refl _⟩, ih h.2⟩
    | update now => exact ih h.2
    | persist => exact ih h.2

/-- The reports of all runs do not decrease either. -/
theorem ascending_of_quiet {runs : List (List Event)} (h : ∀ es ∈ runs, AscendingFrom (0, 0) es) (hq : Quiet runs) :
    AscendingFrom (0, 0) runs.flatten := by
  induction runs with
  | nil => trivial
  | cons es rest ih =>
    obtain ⟨hes, hrest⟩ := List.forall_mem_cons.1 h
    obtain ⟨hfirst, hq⟩ := quiet_cons.1 hq
    rw [List.flatten_cons]
    refine ascendingFrom_append hes ?_
    cases hrep : hasReport rest.flatten with
    | true =>
      have hzero : reportedFrom (0, 0) es = (0, 0) := hfirst hrep
      rw [hzero]
      exact ih hrest hq
    | false => exact ascendingFrom_of_not hrep _

/-! ## Rates -/

theorem rate_nonneg {total shown delta : ℤ} (hle : shown ≤ total) (hmax : total - shown ≤ maxDifference)
    (hpos : 0 < delta) : 0 ≤ rate total shown delta := by
  have hbound : (total - shown) * 1000 < 2 ^ 63 := by
    unfold maxDifference at hmax
    omega
  have hprod : long (long (total - shown) * 1000) = (total - shown) * 1000 := by
    rw [long_eq_self (x := total - shown) (by omega) (by omega), long_eq_self (by omega) hbound]
  have hquot : 0 ≤ ((total - shown) * 1000).tdiv delta := Int.tdiv_nonneg (by omega) (le_of_lt hpos)
  have hle' : ((total - shown) * 1000).tdiv delta ≤ (total - shown) * 1000 := by
    rw [Int.tdiv_eq_ediv_of_nonneg (by omega)]
    exact Int.ediv_le_self _ (by omega)
  unfold rate
  rw [hprod, long_eq_self (by omega) (by omega)]
  exact hquot

/-- The monitor has shown `shown` at time `t`, with rates that are not negative, and has `r` now. -/
structure Showing (m : TrafficMonitor) (t : ℤ) (shown r : ℤ × ℤ) : Prop where
  wf : m.Wf
  totals : m.totals = r
  time : m.timestampLast = t
  shownTotals : m.shownTotals = shown
  rates : 0 ≤ m.shown.txRate ∧ 0 ≤ m.shown.rxRate
  clean : m.dirty = false → shown = r
  le : shown.1 ≤ r.1 ∧ shown.2 ≤ r.2

theorem showing_new : Showing {} 0 (0, 0) (0, 0) :=
  ⟨wf_new, rfl, rfl, rfl, ⟨le_refl _, le_refl _⟩, fun _ => rfl, ⟨le_refl _, le_refl _⟩⟩

section Step

variable {m : TrafficMonitor} {t : ℤ} {shown r : ℤ × ℤ}

theorem Showing.report (h : Showing m t shown r) (read : Option (List UInt8))
    (hle : r.1 ≤ ((reportOf read).getD r).1 ∧ r.2 ≤ ((reportOf read).getD r).2) :
    Showing (m.acceptInternal read) t shown ((reportOf read).getD r) := by
  obtain ⟨hwf, htotals, hshown, htime, hclean⟩ := m.acceptInternal_spec read h.wf
  have hr := h.totals
  rw [hr] at htotals hclean
  have hlow := h.le
  refine ⟨hwf, htotals, htime.trans h.time, ?_, ?_, fun hd => ?_, by omega⟩
  · unfold TrafficMonitor.shownTotals
    rw [hshown]
    exact h.shownTotals
  · rw [hshown]
    exact h.rates
  · obtain ⟨hd', hsame⟩ := hclean hd
    rw [h.clean hd', ← htotals, hsame]

theorem requestUpdate_out (m : TrafficMonitor) (now : ℤ) :
    (m.requestUpdate now).2.1 = (m.requestUpdate now).1.out := by
  unfold requestUpdate
  simp only
  split_ifs <;> rfl

/-- **An update** shows the totals, unless it is made at the time of the last one. -/
theorem Showing.update (h : Showing m t shown r) {now : ℤ} (ht : 0 ≤ t) (hnow : t ≤ now ∧ now < 2 ^ 63)
    (hslow : now ≠ t → r.1 - shown.1 ≤ maxDifference ∧ r.2 - shown.2 ≤ maxDifference) :
    Showing (m.requestUpdate now).1 now (if now = t then shown else r) r := by
  obtain ⟨hwf, htotals, htime⟩ := m.requestUpdate_spec now h.wf
  have hdelta : long (now - m.timestampLast) = now - t := by
    rw [h.time]
    exact long_eq_self (by omega) (by omega)
  have hlow := h.le
  by_cases hsame : now = t
  · have hzero : long (now - m.timestampLast) = 0 := by omega
    rw [if_pos hsame]
    rw [requestUpdate_same m now hzero] at hwf htotals ⊢
    exact ⟨hwf, htotals.trans h.totals, rfl, h.shownTotals, h.rates, h.clean, h.le⟩
  · have hne : long (now - m.timestampLast) ≠ 0 := by omega
    rw [if_neg hsame]
    have hr := h.totals
    have hs := h.shownTotals
    cases hdirty : m.dirty with
    | true =>
      obtain ⟨htx, hrx⟩ := hslow hsame
      rw [requestUpdate_dirty m now hne hdirty] at hwf htotals ⊢
      refine ⟨hwf, htotals.trans hr, rfl, ?_, ?_, fun _ => rfl, ⟨le_refl _, le_refl _⟩⟩
      · simpa [TrafficMonitor.shownTotals, TrafficMonitor.shown, TrafficMonitor.totals] using hr
      · simp only [TrafficMonitor.shown, Function.update_self]
        rw [← hr, ← hs] at hlow htx hrx
        exact ⟨rate_nonneg hlow.1 htx (by omega), rate_nonneg hlow.2 hrx (by omega)⟩
    | false =>
      rw [requestUpdate_idle m now hne hdirty] at hwf htotals ⊢
      rw [h.clean hdirty] at hs
      refine ⟨hwf, htotals.trans hr, rfl, ?_, ?_, fun _ => rfl, ⟨le_refl _, le_refl _⟩⟩
      · simpa [TrafficMonitor.shownTotals, TrafficMonitor.shown] using hs
      · simp [TrafficMonitor.shown]

end Step

/-- **Rates are not negative** as long as the reports do not decrease, at any update of the session. -/
theorem run_rates {id : ℤ} {s : Session} {t : ℤ} {shown r : ℤ × ℤ} (h : Showing s.monitor t shown r) (ht : 0 ≤ t)
    {es : List Event} (hasc : AscendingFrom r es) (htimes : TimesFrom t es) (hslow : SlowFrom t shown r es)
    (hpersist : Event.persist ∉ es) :
    ∀ before now after, es = before ++ .update now :: after →
      let u := (s.run id before).monitor.requestUpdate now
      0 ≤ (u.1.heap u.2.1).txRate ∧ 0 ≤ (u.1.heap u.2.1).rxRate := by
  induction es generalizing s t shown r with
  | nil =>
    intro before now after hes
    cases before <;> cases hes
  | cons e es ih =>
    rw [List.mem_cons, not_or] at hpersist
    cases e with
    | report read =>
      intro before now after hes
      cases before with
      | nil => cases hes
      | cons b before =>
        obtain ⟨rfl, htail⟩ := List.cons.inj hes
        exact ih (s := (s.step id (.report read)).1) (h.report read hasc.1) ht hasc.2 htimes hslow hpersist.2
          before now after htail
    | update at' =>
      have hnext := h.update ht htimes.1 (fun hne => by
        rw [SlowFrom, if_neg hne] at hslow
        exact hslow.1)
      have hslow' : SlowFrom at' (if at' = t then shown else r) r es := by
        rw [SlowFrom] at hslow
        by_cases hsame : at' = t
        · rw [if_pos hsame] at hslow ⊢
          rw [hsame]
          exact hslow
        · rw [if_neg hsame] at hslow ⊢
          exact hslow.2
      intro before now after hes
      cases before with
      | nil =>
        obtain ⟨hnow, -⟩ := List.cons.inj hes
        cases hnow
        simp only [requestUpdate_out]
        exact hnext.rates
      | cons b before =>
        obtain ⟨rfl, htail⟩ := List.cons.inj hes
        exact ih (s := (s.step id (.update at')).1) hnext (ht.trans htimes.1.1) hasc htimes.2 hslow' hpersist.2
          before now after htail
    | persist => exact absurd rfl hpersist.1

/-! ## The whole session -/

theorem booked_of_not {es : List Event} (h : Event.persist ∉ es) (r : ℤ × ℤ) : bookedFrom r es = (0, 0) := by
  induction es generalizing r with
  | nil => rfl
  | cons e es ih =>
    rw [List.mem_cons, not_or] at h
    cases e with
    | report read => exact ih h.2 _
    | update now => exact ih h.2 _
    | persist => exact absurd rfl h.1

/-- What is booked at the end: the last report. -/
theorem booked_end {id : ℤ} {store : Storage} {base : Profile} (hrow : store.table.get id = some base)
    {es : List Event} (h : Event.persist ∉ es) :
    ∃ row, (Session.run id ⟨{}, store⟩ (es ++ [.persist])).store.table.get id = some row ∧
      row.tx = long (base.tx + (reported es).1) ∧ row.rx = long (base.rx + (reported es).2) := by
  obtain ⟨-, row, hget, htx, hrx⟩ := row_persist hrow es
  have hbooked : booked es = (0, 0) := booked_of_not h _
  rw [hbooked, add_zero] at htx hrx
  rw [Session.run_append]
  exact ⟨row, hget, htx, hrx⟩

/-- **Traffic survives restarts** of a process that had not reported any, as long as no rate overflows. If the
traffic of all runs together is a `Long`, it survives no other restarts. -/
theorem survives_restarts {id : ℤ} {store : Storage} {base : Profile} (hrow : store.table.get id = some base)
    {runs : List (List Event)} (hruns : Runs runs) :
    (Quiet runs ∧ SlowFrom 0 (0, 0) (0, 0) runs.flatten → Survives id store base runs) ∧
      ((runs.map reported).sum.1 < 2 ^ 63 ∧ (runs.map reported).sum.2 < 2 ^ 63 →
        Survives id store base runs → Quiet runs) := by
  obtain ⟨hletx, hlerx, hiff⟩ := reported_sum hruns.ascending
  obtain ⟨row, hget, htx, hrx⟩ := booked_end hrow hruns.noPersist
  constructor
  · rintro ⟨hquiet, hslow⟩
    rw [hiff.1 hquiet] at htx hrx
    refine ⟨⟨row, hget, htx, hrx⟩, ?_⟩
    exact run_rates showing_new (le_refl 0) (ascending_of_quiet hruns.ascending hquiet) hruns.times hslow
      hruns.noPersist
  · rintro ⟨hlt1, hlt2⟩ ⟨⟨row', hget', htx', hrx'⟩, -⟩
    rw [hget] at hget'
    cases hget'
    -- what is missing is at least 0 and less than `2^63`, so that it is 0
    have hmissing : ∀ {b x y : ℤ}, 0 ≤ x ∧ x ≤ y → y < 2 ^ 63 → long (b + x) = long (b + y) → x = y := by
      intro b x y hxy hy hlong
      have hzero : long (y - x) = 0 := by
        rw [← long_add_right (x := b + x), add_assoc, add_sub_cancel, hlong]
      rw [long_eq_self (by omega) (by omega)] at hzero
      omega
    refine hiff.2 (Prod.ext ?_ ?_)
    · exact hmissing hletx hlt1 (htx.symm.trans htx')
    · exact hmissing hlerx hlt2 (hrx.symm.trans hrx')

/-- The process is started again before it reports anything. -/
def quietRuns : List (List Event) := [[.update 500], [hundred, .update 1000]]

theorem survives_quietRuns : Survives 1 oneRow { id := 1 } quietRuns := by
  have hrow : oneRow.table.get 1 = some { id := 1 } := rfl
  have hruns : Runs quietRuns := by
    refine ⟨?_, ⟨by decide, by decide, trivial⟩, by decide⟩
    have hascending : AscendingFrom (0, 0) [hundred, .update 1000] := ⟨by decide +kernel, trivial⟩
    simpa [quietRuns, AscendingFrom] using hascending
  have hquiet : Quiet quietRuns := by
    rw [quietRuns, quiet_cons]
    exact ⟨fun _ => rfl, quiet_cons.2 ⟨fun h => absurd h (by decide), quiet_of_not rfl⟩⟩
  have hslow : SlowFrom 0 (0, 0) (0, 0) quietRuns.flatten := by
    simp only [quietRuns, List.flatten_cons, List.flatten_nil, List.cons_append, List.nil_append, hundred, SlowFrom]
    decide +kernel
  exact (survives_restarts hrow hruns).1 ⟨hquiet, hslow⟩

/-- A report of 10 bytes sent and 5 bytes received. -/
def ten : Event := .report (some [10, 0, 0, 0, 0, 0, 0, 0, 5, 0, 0, 0, 0, 0, 0, 0])

/-- The process is started again after it reported 100 bytes. -/
def restartedRuns : List (List Event) := [[hundred, .update 1000], [ten, .update 2000]]

/-- 10 bytes are booked of 110, and the rate of the second run is negative. -/
theorem survives_restartedRuns :
    Runs restartedRuns ∧ (restartedRuns.map reported).sum = (110, 55) ∧
      (Session.run 1 ⟨{}, oneRow⟩ (restartedRuns.flatten ++ [.persist])).store.table.get 1 =
        some { id := 1, tx := 10, rx := 5 } ∧
      (Session.run 1 ⟨{}, oneRow⟩ restartedRuns.flatten).monitor.shown.txRate = -90 ∧
      ¬ Survives 1 oneRow { id := 1 } restartedRuns := by
  have hget : (Session.run 1 ⟨{}, oneRow⟩ (restartedRuns.flatten ++ [.persist])).store.table.get 1 =
      some { id := 1, tx := 10, rx := 5 } := by decide +kernel
  have hsum : (restartedRuns.map reported).sum = (110, 55) := by decide +kernel
  refine ⟨⟨?_, ⟨by decide, by decide, trivial⟩, by decide⟩, hsum, hget, by decide +kernel, fun h => ?_⟩
  · have hascending : AscendingFrom (0, 0) [hundred, .update 1000] ∧ AscendingFrom (0, 0) [ten, .update 2000] :=
      ⟨⟨by decide +kernel, trivial⟩, ⟨by decide +kernel, trivial⟩⟩
    simpa [restartedRuns] using hascending
  · obtain ⟨row, hrow, htx, -⟩ := h.booked
    rw [hget] at hrow
    cases hrow
    rw [hsum] at htx
    exact absurd htx (by decide)

end TrafficMonitor

end BlackButton
