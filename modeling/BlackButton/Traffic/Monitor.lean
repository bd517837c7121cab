import Mathlib.Algebra.Group.Int.Defs
import Mathlib.Logic.Function.Basic
import Mathlib.Tactic.NormNum
import BlackButton.Lib.Encoding
import BlackButton.Database.Manager

/-!
# The traffic monitor (`bg/TrafficMonitor.kt`, `aidl/TrafficStats.kt`)

`ss-local` reports the bytes it has sent and received since it was started.
`acceptInternal` keeps the last report, `requestUpdate` derives rates from it, and
`persistStats` adds it to the row of the profile.

`TrafficStats` objects are mutable and shared, so that they live in a heap: `current` is
one object during the whole session, `requestUpdate` makes new ones, and `persisted`
refers to an object, not to what was in it. `Long` is `ℤ` with its operations taken
modulo `2^64` (`long`).

* `persistStats_eq`: with the row there, a call always succeeds and adds the whole of
  what was reported to it. That the traffic was added before is not noticed, since
  `persisted` refers to the object it is compared with.
-/

namespace BlackButton

/-- `Long` arithmetic. -/
def long (x : ℤ) : ℤ := x.bmod (2 ^ 64)

theorem long_long (x : ℤ) : long (long x) = long x := Int.bmod_bmod

theorem long_add (x y : ℤ) : long (long x + y) = long (x + y) := Int.bmod_add_bmod

theorem long_eq_self {x : ℤ} (hlo : -2 ^ 63 ≤ x) (hhi : x < 2 ^ 63) : long x = x := by
  unfold long Int.bmod
  norm_num
  omega

/-- What is added vanishes only if it is 0. -/
theorem long_add_right {x y : ℤ} : long (x + y) = long x ↔ long y = 0 := by
  have h := Int.bmod_add_cancel_left (n := 2 ^ 64) (x := y) (y := 0) x
  rw [add_zero, Int.zero_bmod] at h
  exact h

/-- `TrafficStats`. -/
@[ext] structure TrafficStats where
  txRate : ℤ := 0
  rxRate : ℤ := 0
  txTotal : ℤ := 0
  rxTotal : ℤ := 0
  deriving DecidableEq

/-- `TrafficMonitor`: its fields, and the objects they refer to. -/
structure TrafficMonitor where
  heap : ℕ → TrafficStats := fun _ => {}
  fresh : ℕ := 2
  current : ℕ := 0
  out : ℕ := 1
  timestampLast : ℤ := 0
  dirty : Bool := false
  persisted : Option ℕ := none

/-- What `persistStats` can throw. -/
inductive PersistFailure
  | dataLoss
  | io
  | device
  deriving DecidableEq

/-- How an access to the database ends. -/
inductive Access
  | ok
  /-- `SQLiteCantOpenDatabaseException`: the user has not unlocked the device. -/
  | cantOpen
  /-- Another `SQLException`. -/
  | failed
  deriving DecidableEq

/-- A profile in the file for direct boot. -/
structure DeviceProfile where
  profile : Profile
  dirty : Bool

/-- The database, and the file with the current profile and its fallback for direct boot (`none` when it
cannot be read). -/
structure Storage where
  table : Table
  directBootAware : Bool := false
  device : Option (List DeviceProfile) := none

namespace TrafficMonitor

/-- The object behind `current`. -/
def stats (m : TrafficMonitor) : TrafficStats := m.heap m.current

/-- The object behind `out`. -/
def shown (m : TrafficMonitor) : TrafficStats := m.heap m.out

/-- A field of an object is assigned. -/
def modify (m : TrafficMonitor) (r : ℕ) (f : TrafficStats → TrafficStats) : TrafficMonitor :=
  { m with heap := Function.update m.heap r (f (m.heap r)) }

/-- `stat.getLong`: the bytes are little-endian. -/
def getLong (bytes : List UInt8) : ℤ := long (ofBigEndian bytes.reverse)

/-- What a report says: the 16 bytes that were read. -/
def report (bytes : List UInt8) : ℤ × ℤ := (getLong (bytes.take 8), getLong (bytes.drop 8))

theorem long_report (bytes : List UInt8) :
    long (report bytes).1 = (report bytes).1 ∧ long (report bytes).2 = (report bytes).2 := by
  simp only [report, getLong, long_long, and_self]

/-- `acceptInternal`: `none` is the end of the stream. Another length than 16 is an `IOException`, which the
listener logs. -/
def acceptInternal (m : TrafficMonitor) (read : Option (List UInt8)) : TrafficMonitor :=
  match read with
  | none => m
  | some bytes =>
    if bytes.length = 16 then
      let tx := (report bytes).1
      let rx := (report bytes).2
      let m := if m.stats.txTotal ≠ tx then { m.modify m.current ({ · with txTotal := tx }) with dirty := true }
        else m
      if m.stats.rxTotal ≠ rx then { m.modify m.current ({ · with rxTotal := rx }) with dirty := true } else m
    else m

/-- The bytes per second since `out`. -/
def rate (total shown delta : ℤ) : ℤ := long ((long (long (total - shown) * 1000)).tdiv delta)

/-- `requestUpdate`, with what it returns: an object, and whether it changed. -/
def requestUpdate (m : TrafficMonitor) (now : ℤ) : TrafficMonitor × (ℕ × Bool) :=
  let delta := long (now - m.timestampLast)
  let m := { m with timestampLast := now }
  if delta ≠ 0 then
    if m.dirty then
      let out := { m.stats with
        txRate := rate m.stats.txTotal m.shown.txTotal delta
        rxRate := rate m.stats.rxTotal m.shown.rxTotal delta }
      let m := { m with
        heap := Function.update m.heap m.fresh out
        fresh := m.fresh + 1
        out := m.fresh
        dirty := false }
      (m, m.out, true)
    else
      let updated := m.shown.txRate ≠ 0 ∨ m.shown.rxRate ≠ 0
      let m := if m.shown.txRate ≠ 0 then m.modify m.out ({ · with txRate := 0 }) else m
      let m := if m.shown.rxRate ≠ 0 then m.modify m.out ({ · with rxRate := 0 }) else m
      (m, m.out, updated)
  else (m, m.out, false)

/-- The traffic is added to a profile. -/
def book (s : TrafficStats) (p : Profile) : Profile :=
  { p with tx := long (p.tx + s.txTotal), rx := long (p.rx + s.rxTotal) }

/-- The branch of `persistStats` before the device is unlocked. The file is opened for writing before
`ProfileManager.expand` looks for a fallback, which fails as the database cannot be opened. -/
def persistDevice (m : TrafficMonitor) (store : Storage) (id : ℤ) : Storage × Option PersistFailure :=
  if store.directBootAware then
    match store.device.map (List.filter fun p => p.profile.id = id) with
    | some [p] =>
      if p.profile.udpFallback = none then
        ({ store with device := some [⟨book m.stats p.profile, true⟩] }, none)
      else ({ store with device := none }, some .io)
    | _ => (store, some .device)
  else (store, some .io)

/-- `persistStats(id)`. -/
def persistStats (m : TrafficMonitor) (store : Storage) (access : Access) (id : ℤ) :
    (TrafficMonitor × Storage) × Option PersistFailure :=
  if m.persisted = none ∨ m.persisted.map m.heap = some m.stats then
    let m := { m with persisted := some m.current }
    match access with
    | .ok =>
      match store.table.get id with
      | none => ((m, store), none)
      | some profile => ((m, { store with table := store.table.update (book m.stats profile) }), none)
    | .failed => ((m, store), none)
    | .cantOpen =>
      let r := m.persistDevice store id
      ((m, r.1), r.2)
  else ((m, store), some .dataLoss)

/-! ## What each operation does -/

/-- The references of a monitor: `current` and `out` are different objects, and `persisted` is `current`. -/
structure Wf (m : TrafficMonitor) : Prop where
  current_lt : m.current < m.fresh
  out_lt : m.out < m.fresh
  ne : m.out ≠ m.current
  persisted : m.persisted = none ∨ m.persisted = some m.current

theorem wf_new : Wf {} := ⟨by decide, by decide, by decide, Or.inl rfl⟩

/-- The last report, whether or not it was seen. -/
def totals (m : TrafficMonitor) : ℤ × ℤ := (m.stats.txTotal, m.stats.rxTotal)

/-- The totals that were shown last. -/
def shownTotals (m : TrafficMonitor) : ℤ × ℤ := (m.shown.txTotal, m.shown.rxTotal)

/-- What a connection to the monitor reports, if anything. -/
def reportOf (read : Option (List UInt8)) : Option (ℤ × ℤ) :=
  read.bind fun bytes => if bytes.length = 16 then some (report bytes) else none

/-- **A report replaces the totals**, and marks the monitor when they change. -/
theorem acceptInternal_eq (m : TrafficMonitor) {bytes : List UInt8} (h : bytes.length = 16) :
    m.acceptInternal (some bytes) = { m with
      heap := Function.update m.heap m.current
        { m.stats with txTotal := (report bytes).1, rxTotal := (report bytes).2 }
      dirty := m.dirty || m.totals ≠ report bytes } := by
  simp only [acceptInternal, h, if_true]
  generalize report bytes = r
  obtain ⟨tx, rx⟩ := r
  simp only [modify, stats, totals, ne_eq, Prod.mk.injEq]
  by_cases htx : (m.heap m.current).txTotal = tx
  · by_cases hrx : (m.heap m.current).rxTotal = rx
    · subst htx
      subst hrx
      simp
    · simp [htx, hrx]
  · by_cases hrx : (m.heap m.current).rxTotal = rx
    · simp [htx, hrx]
    · simp [htx, hrx]

theorem acceptInternal_of_none {m : TrafficMonitor} {read : Option (List UInt8)} (h : reportOf read = none) :
    m.acceptInternal read = m := by
  cases read with
  | none => rfl
  | some bytes =>
    have hlen : ¬ bytes.length = 16 := by
      intro hlen
      simp [reportOf, hlen] at h
    simp only [acceptInternal, hlen, if_false]

/-- A connection that reports nothing, or 16 bytes. -/
theorem reportOf_cases (read : Option (List UInt8)) :
    reportOf read = none ∨ ∃ bytes, read = some bytes ∧ bytes.length = 16 ∧ reportOf read = some (report bytes) := by
  cases read with
  | none => exact Or.inl rfl
  | some bytes =>
    by_cases hlen : bytes.length = 16
    · exact Or.inr ⟨bytes, rfl, hlen, if_pos hlen⟩
    · exact Or.inl (if_neg hlen)

section Operations

variable (m : TrafficMonitor) (read : Option (List UInt8)) (now : ℤ)

/-- What a report leaves: the references, the time and what was shown. -/
theorem acceptInternal_spec (h : m.Wf) :
    (m.acceptInternal read).Wf ∧ (m.acceptInternal read).totals = (reportOf read).getD m.totals ∧
      (m.acceptInternal read).shown = m.shown ∧ (m.acceptInternal read).timestampLast = m.timestampLast ∧
      ((m.acceptInternal read).dirty = false → m.dirty = false ∧ (m.acceptInternal read).totals = m.totals) := by
  rcases reportOf_cases read with hnone | ⟨bytes, rfl, hlen, hsome⟩
  · rw [acceptInternal_of_none hnone, hnone]
    exact ⟨h, rfl, rfl, rfl, fun hd => ⟨hd, rfl⟩⟩
  · have htotals : (m.acceptInternal (some bytes)).totals = report bytes := by
      rw [acceptInternal_eq m hlen]
      simp [totals, stats]
    rw [htotals, hsome, acceptInternal_eq m hlen]
    refine ⟨⟨h.current_lt, h.out_lt, h.ne, h.persisted⟩, rfl, ?_, rfl, ?_⟩
    · exact Function.update_of_ne h.ne _ _
    · intro hd
      simp only [Bool.or_eq_false_iff, decide_eq_false_iff_not, not_not] at hd
      exact ⟨hd.1, hd.2.symm⟩

/-- **An update without new traffic** sets the rates to 0. -/
theorem requestUpdate_idle (hdelta : long (now - m.timestampLast) ≠ 0) (hdirty : m.dirty = false) :
    (m.requestUpdate now).1 = { m with
      heap := Function.update m.heap m.out { m.shown with txRate := 0, rxRate := 0 }
      timestampLast := now } := by
  simp only [requestUpdate, hdelta, hdirty, ne_eq, not_false_eq_true, if_true, if_false, shown, modify,
    Bool.false_eq_true]
  by_cases htx : (m.heap m.out).txRate = 0
  · by_cases hrx : (m.heap m.out).rxRate = 0
    · have hsame : { m.heap m.out with txRate := 0, rxRate := 0 } = m.heap m.out :=
        TrafficStats.ext htx.symm hrx.symm rfl rfl
      simp [htx, hrx, hsame]
    · simp [htx, hrx]
  · by_cases hrx : (m.heap m.out).rxRate = 0
    · simp [htx, hrx]
    · simp [htx, hrx]

/-- **An update with new traffic** shows a copy of the statistics, with rates. -/
theorem requestUpdate_dirty (hdelta : long (now - m.timestampLast) ≠ 0) (hdirty : m.dirty = true) :
    (m.requestUpdate now).1 = { m with
      heap := Function.update m.heap m.fresh { m.stats with
        txRate := rate m.stats.txTotal m.shown.txTotal (long (now - m.timestampLast))
        rxRate := rate m.stats.rxTotal m.shown.rxTotal (long (now - m.timestampLast)) }
      fresh := m.fresh + 1
      out := m.fresh
      timestampLast := now
      dirty := false } := by
  simp only [requestUpdate, hdelta, hdirty, ne_eq, not_false_eq_true, if_true, shown, stats]

/-- A second update at the same time changes nothing. -/
theorem requestUpdate_same (hdelta : long (now - m.timestampLast) = 0) :
    (m.requestUpdate now).1 = { m with timestampLast := now } := by
  simp only [requestUpdate, hdelta, ne_eq, not_true_eq_false, if_false]

/-- What an update leaves: the references and the totals. -/
theorem requestUpdate_spec (h : m.Wf) :
    (m.requestUpdate now).1.Wf ∧ (m.requestUpdate now).1.totals = m.totals ∧
      (m.requestUpdate now).1.timestampLast = now := by
  by_cases hdelta : long (now - m.timestampLast) = 0
  · rw [requestUpdate_same m now hdelta]
    exact ⟨⟨h.current_lt, h.out_lt, h.ne, h.persisted⟩, rfl, rfl⟩
  · cases hdirty : m.dirty with
    | true =>
      have hcurrent : ∀ s, Function.update m.heap m.fresh s m.current = m.heap m.current :=
        fun s => Function.update_of_ne (Nat.ne_of_lt h.current_lt) _ _
      rw [requestUpdate_dirty m now hdelta hdirty]
      refine ⟨⟨Nat.lt_succ_of_lt h.current_lt, Nat.lt_succ_self _, Nat.ne_of_gt h.current_lt, h.persisted⟩, ?_, rfl⟩
      simp [totals, stats, hcurrent]
    | false =>
      have hcurrent : ∀ s, Function.update m.heap m.out s m.current = m.heap m.current :=
        fun s => Function.update_of_ne h.ne.symm _ _
      rw [requestUpdate_idle m now hdelta hdirty]
      refine ⟨⟨h.current_lt, h.out_lt, h.ne, h.persisted⟩, ?_, rfl⟩
      simp [totals, stats, hcurrent]

end Operations

theorem persistStats_eq {m : TrafficMonitor} (h : m.Wf) {store : Storage} {id : ℤ} {profile : Profile}
    (hrow : store.table.get id = some profile) :
    m.persistStats store .ok id = (({ m with persisted := some m.current },
      { store with table := store.table.update (book m.stats profile) }), none) := by
  have hcheck : m.persisted = none ∨ m.persisted.map m.heap = some m.stats := by
    rcases h.persisted with hp | hp
    · exact Or.inl hp
    · rw [hp]
      exact Or.inr rfl
  unfold persistStats
  rw [if_pos hcheck]
  simp only [hrow]
  rfl

end TrafficMonitor

end BlackButton
