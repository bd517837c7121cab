import BlackButton.Preference.DataStore

/-!
# Local ports (`DataStore.getLocalPort`, `DataStore.initGlobal`)

Older versions stored a port as a number. `getLocalPort` returns such a number and
writes it back as a text, which later reads take only if it is in `1025..65535`.

* `seen_of_row`: what a read sees depends on the row of its key only.
* `keeps_read`, `keeps_initGlobal`: what reads and `initGlobal` keep.
* `stable_iff`: **a port is stable under reads and `initGlobal`** exactly if no number is
  stored that later reads do not take.
-/

namespace BlackButton

open Text Prefs RoomPreferenceDataStore

namespace DataStore

/-- The value of an `Int` after an operation that can overflow. -/
def int (value : ℤ) : ℤ := Int.bmod value (2 ^ 32)

variable (charset : Charset) (userIndex : ℤ)

def getLocalPort (key : PreferenceKey) (default : ℤ) : Prefs ℤ := do
  match ← getInt key with
  | some value =>
    putString key (some (intText value))
    return value
  | none => return parsePort (← getString charset key) (int (default + userIndex)) 1025

def portProxy : Prefs ℤ := getLocalPort charset userIndex .portProxy 1080

def portLocalDns : Prefs ℤ := getLocalPort charset userIndex .portLocalDns 5450

def portTransproxy : Prefs ℤ := getLocalPort charset userIndex .portTransproxy 8200

/-- The properties that are local ports. -/
inductive Port
  | proxy
  | localDns
  | transproxy
  deriving DecidableEq

namespace Port

def key : Port → PreferenceKey
  | proxy => .portProxy
  | localDns => .portLocalDns
  | transproxy => .portTransproxy

def default : Port → ℤ
  | proxy => 1080
  | localDns => 5450
  | transproxy => 8200

/-- The getters. -/
def read (charset : Charset) (userIndex : ℤ) : Port → Prefs ℤ
  | proxy => portProxy charset userIndex
  | localDns => portLocalDns charset userIndex
  | transproxy => portTransproxy charset userIndex

/-- The setters. -/
def set (port : Port) (value : ℤ) : Prefs Unit := putString port.key (some (intText value))

/-- `if (publicStore.getString(key) == null) port = port`. -/
def init (port : Port) : Prefs Unit := do
  if (← getString charset port.key) = none then
    port.set (← port.read charset userIndex)

/-- The port of this user when none is stored. -/
def ofUser (userIndex : ℤ) (port : Port) : ℤ := int (port.default + userIndex)

theorem key_injective {port port' : Port} (h : port.key = port'.key) : port = port' := by
  cases port <;> cases port' <;> first | rfl | cases h

end Port

/-- `persistAcrossReboot`; `enabled` is `BootReceiver.enabled`. -/
def persistAcrossReboot (enabled : Bool) : Prefs Bool := do
  match ← getBoolean .persistAcrossReboot with
  | some value => return value
  | none =>
    putBoolean .persistAcrossReboot enabled
    return enabled

def initGlobal (enabled : Bool) : Prefs Unit := do
  let _ ← persistAcrossReboot enabled
  Port.proxy.init charset userIndex
  Port.localDns.init charset userIndex
  Port.transproxy.init charset userIndex

/-- What happens to the ports: one of them is read, or the settings are initialized. -/
inductive Access
  | read (port : Port)
  | initGlobal (enabled : Bool)

/-- The store afterwards. -/
def Access.after (s : Store) : Access → Store
  | read port => (exec (port.read charset userIndex) s).2
  | initGlobal enabled => (exec (DataStore.initGlobal charset userIndex enabled) s).2

/-- The port that a read sees. -/
def seen (port : Port) (s : Store) : Except PreferenceError ℤ := (exec (port.read charset userIndex) s).1

/-- The number that is stored at the key of a port. -/
def legacy (port : Port) (s : Store) : Except PreferenceError (Option ℤ) := (exec (getInt port.key) s).1

/-- Later reads take a number that is stored. -/
def Accepted (port : Port) (s : Store) : Prop :=
  ∀ value, legacy port s = .ok (some value) → (1025 ≤ value ∧ value ≤ 65535) ∨ value = port.ofUser userIndex

/-! ## One port -/

theorem parsePort_cases (str : Option Str) (default min : ℤ) :
    parsePort str default min = default ∨
      (min ≤ parsePort str default min ∧ parsePort str default min ≤ 65535) := by
  unfold parsePort
  simp only
  split
  · exact Or.inl rfl
  · right
    omega

/-- The number in a text is taken if it is in the range, and the default anyway. -/
theorem parsePort_intText {value : ℤ} {port : Port}
    (h : (1025 ≤ value ∧ value ≤ 65535) ∨ value = port.ofUser userIndex) :
    parsePort (some (intText value)) (port.ofUser userIndex) 1025 = value := by
  have hlo : -2147483648 ≤ port.ofUser userIndex := Int.le_bmod (by decide)
  have hhi : port.ofUser userIndex < 2147483648 := Int.bmod_lt (by decide)
  unfold parsePort
  rw [Option.bind_some, toInt_intText (by omega) (by omega), Option.getD_some]
  simp only
  split
  · omega
  · rfl

section Row

variable (port : Port) (s : Store)

/-- The text that is stored at the key of a port. -/
def stored : Option Str := (s.get port.key.text).bind (KeyValuePair.string charset)

theorem exec_getString_stored :
    exec (getString charset port.key) s = (.ok (stored charset port s), s) := by
  unfold getString stored
  rw [exec_read]
  cases s.get port.key.text <;> rfl

theorem exec_legacy : exec (getInt port.key) s = (legacy port s, s) := rfl

/-- What reading a port does. -/
theorem exec_port_read :
    exec (port.read charset userIndex) s = match legacy port s with
      | .error e => (.error e, s)
      | .ok (some value) => (.ok value, s.write port.key (some (.string, utf8 (intText value))))
      | .ok none => (.ok (parsePort (stored charset port s) (port.ofUser userIndex) 1025), s) := by
  have hread : port.read charset userIndex = getLocalPort charset userIndex port.key port.default := by
    cases port <;> rfl
  rw [hread]
  unfold getLocalPort
  rw [exec_bind, exec_legacy]
  cases legacy port s with
  | error e => rfl
  | ok value =>
    cases value with
    | none =>
      simp only
      rw [exec_bind, exec_getString_stored]
      rfl
    | some value => rfl

end Row

variable {charset userIndex} {port : Port} {s s' : Store}

theorem seen_eq : seen charset userIndex port s = match legacy port s with
    | .error e => .error e
    | .ok (some value) => .ok value
    | .ok none => .ok (parsePort (stored charset port s) (port.ofUser userIndex) 1025) := by
  unfold seen
  rw [exec_port_read]
  cases legacy port s with
  | error e => rfl
  | ok value => cases value <;> rfl

/-- What a read sees depends on the row of its key only. -/
theorem seen_of_row (h : s'.get port.key.text = s.get port.key.text) :
    legacy port s' = legacy port s ∧ seen charset userIndex port s' = seen charset userIndex port s := by
  have hlegacy : legacy port s' = legacy port s := by
    unfold legacy getInt
    rw [exec_read, exec_read, h]
  have hstored : stored charset port s' = stored charset port s := by
    unfold stored
    rw [h]
  refine ⟨hlegacy, ?_⟩
  rw [seen_eq, seen_eq, hlegacy, hstored]

/-- The port that was written as a text. -/
theorem seen_write (charset : Charset) (userIndex : ℤ) (port : Port) (s : Store) (value : ℤ) :
    legacy port (s.write port.key (some (.string, utf8 (intText value)))) = .ok none ∧
      seen charset userIndex port (s.write port.key (some (.string, utf8 (intText value)))) =
        .ok (parsePort (some (intText value)) (port.ofUser userIndex) 1025) := by
  have hrow : (s.write port.key (some (.string, utf8 (intText value)))).get port.key.text =
      some (Store.rowOf port.key (.string, utf8 (intText value))) := by
    rw [Store.get_write, if_pos rfl]
    rfl
  have hlegacy : legacy port (s.write port.key (some (.string, utf8 (intText value)))) = .ok none :=
    congrArg Prod.fst (exec_read_of_row hrow rfl)
  have hstored : stored charset port (s.write port.key (some (.string, utf8 (intText value)))) =
      some (intText value) := by
    unfold stored
    rw [hrow, Option.bind_some]
    exact (KeyValuePair.putAndGet charset (.ofKey port.key)).2.2.2 (intText value)
  refine ⟨hlegacy, ?_⟩
  rw [seen_eq, hlegacy, hstored]

/-! ## What is kept -/

/-- What leaves a row as it is. -/
def Frames {α : Type} (key : PreferenceKey) (x : Prefs α) : Prop :=
  ∀ s, (exec x s).2.get key.text = s.get key.text

/-- What later reads of a port cannot tell, if they take what is stored. -/
def Keeps {α : Type} (charset : Charset) (userIndex : ℤ) (port : Port) (x : Prefs α) : Prop :=
  ∀ s, Accepted userIndex port s → Accepted userIndex port (exec x s).2 ∧
    seen charset userIndex port (exec x s).2 = seen charset userIndex port s

section Rules

variable {α β : Type} {key : PreferenceKey} {x : Prefs α} {f : α → Prefs β}

theorem Frames.bind (hx : Frames key x) (hf : ∀ a, Frames key (f a)) : Frames key (x >>= f) := by
  intro s
  have hfirst := hx s
  rw [exec_bind]
  rcases hexec : exec x s with ⟨r, t⟩
  rw [hexec] at hfirst
  cases r with
  | error e => exact hfirst
  | ok a => exact (hf a t).trans hfirst

theorem Keeps.bind (hx : Keeps charset userIndex port x) (hf : ∀ a, Keeps charset userIndex port (f a)) :
    Keeps charset userIndex port (x >>= f) := by
  intro s hs
  have hfirst := hx s hs
  rw [exec_bind]
  rcases hexec : exec x s with ⟨r, t⟩
  rw [hexec] at hfirst
  cases r with
  | error e => exact hfirst
  | ok a =>
    obtain ⟨haccepted, hseen⟩ := hf a t hfirst.1
    exact ⟨haccepted, hseen.trans hfirst.2⟩

theorem Frames.keeps (h : Frames port.key x) : Keeps charset userIndex port x := by
  intro s hs
  obtain ⟨hlegacy, hseen⟩ := seen_of_row (h s)
  refine ⟨?_, hseen⟩
  unfold Accepted
  rw [hlegacy]
  exact hs

end Rules

theorem frames_read {α : Type} (value : KeyValuePair → Except Failure (Option α)) (key k : PreferenceKey) :
    Frames key (RoomPreferenceDataStore.read value k) := fun _ => rfl

theorem frames_set {key : PreferenceKey} (h : key ≠ port.key) (value : ℤ) : Frames key (port.set value) := by
  intro s
  unfold Port.set
  rw [exec_putString, Store.get_write, if_neg h]

theorem frames_port_read {key : PreferenceKey} (h : key ≠ port.key) :
    Frames key (port.read charset userIndex) := by
  intro s
  rw [exec_port_read]
  cases legacy port s with
  | error e => rfl
  | ok value =>
    cases value with
    | none => rfl
    | some value => simp only [Store.get_write, h, if_false]

theorem frames_init {key : PreferenceKey} (h : key ≠ port.key) : Frames key (port.init charset userIndex) := by
  unfold Port.init
  refine Frames.bind (frames_read _ _ _) fun text => ?_
  split
  · exact Frames.bind (frames_port_read h) (frames_set h)
  · exact fun s => rfl

theorem frames_persistAcrossReboot (port : Port) (enabled : Bool) :
    Frames port.key (persistAcrossReboot enabled) := by
  have hne : port.key ≠ .persistAcrossReboot := by cases port <;> decide
  unfold persistAcrossReboot
  refine Frames.bind (frames_read _ _ _) fun value => ?_
  cases value with
  | some value => exact fun s => rfl
  | none =>
    refine Frames.bind ?_ fun _ s => rfl
    intro s
    rw [exec_putBoolean, Store.get_write, if_neg hne]

/-- A port that later reads take is written as a text. -/
theorem keeps_write {value : ℤ} (hseen : seen charset userIndex port s = .ok value)
    (hvalue : (1025 ≤ value ∧ value ≤ 65535) ∨ value = port.ofUser userIndex) (s' : Store) :
    Accepted userIndex port (s'.write port.key (some (.string, utf8 (intText value)))) ∧
      seen charset userIndex port (s'.write port.key (some (.string, utf8 (intText value)))) =
        seen charset userIndex port s := by
  obtain ⟨hnone, hwritten⟩ := seen_write charset userIndex port s' value
  constructor
  · intro v hv
    rw [hnone] at hv
    cases hv
  · rw [hwritten, hseen, parsePort_intText userIndex hvalue]

/-- A read writes back the number it returns. -/
theorem keeps_read (port port' : Port) : Keeps charset userIndex port (port'.read charset userIndex) := by
  by_cases hport : port = port'
  · rw [← hport]
    intro s hs
    rw [exec_port_read]
    cases hlegacy : legacy port s with
    | error e => exact ⟨hs, rfl⟩
    | ok value =>
      cases value with
      | none => exact ⟨hs, rfl⟩
      | some value =>
        have hseen : seen charset userIndex port s = .ok value := by rw [seen_eq, hlegacy]
        exact keeps_write hseen (hs value hlegacy) s
  · exact (frames_port_read fun hkey => hport (Port.key_injective hkey)).keeps

/-- What `initGlobal` writes for a port is what reads saw before. -/
theorem keeps_init (port port' : Port) : Keeps charset userIndex port (port'.init charset userIndex) := by
  by_cases hport : port = port'
  · rw [← hport]
    intro s hs
    unfold Port.init
    rw [exec_bind, exec_getString_stored]
    simp only
    by_cases hstored : stored charset port s = none
    · rw [if_pos hstored, exec_bind, exec_port_read]
      cases hlegacy : legacy port s with
      | error e => exact ⟨hs, rfl⟩
      | ok value =>
        cases value with
        | none =>
          have hdefault : parsePort none (port.ofUser userIndex) 1025 = port.ofUser userIndex := by
            unfold parsePort
            exact ite_self _
          have hseen : seen charset userIndex port s = .ok (port.ofUser userIndex) := by
            rw [seen_eq, hlegacy, hstored]
            exact congrArg Except.ok hdefault
          rw [hstored]
          simp only [hdefault]
          exact keeps_write hseen (Or.inr rfl) s
        | some value =>
          have hseen : seen charset userIndex port s = .ok value := by rw [seen_eq, hlegacy]
          exact keeps_write hseen (hs value hlegacy) _
    · rw [if_neg hstored]
      exact ⟨hs, rfl⟩
  · exact (frames_init fun hkey => hport (Port.key_injective hkey)).keeps

theorem keeps_initGlobal (port : Port) (enabled : Bool) :
    Keeps charset userIndex port (initGlobal charset userIndex enabled) := by
  unfold initGlobal
  refine (frames_persistAcrossReboot port enabled).keeps.bind fun _ => ?_
  exact (keeps_init port .proxy).bind fun _ => (keeps_init port .localDns).bind fun _ =>
    keeps_init port .transproxy

/-- **Any accesses** leave a port as it was seen. -/
theorem seen_foldl_after (accesses : List Access) (h : Accepted userIndex port s) :
    seen charset userIndex port (accesses.foldl (Access.after charset userIndex) s) =
      seen charset userIndex port s := by
  induction accesses generalizing s with
  | nil => rfl
  | cons access accesses ih =>
    have hstep : Accepted userIndex port (access.after charset userIndex s) ∧
        seen charset userIndex port (access.after charset userIndex s) = seen charset userIndex port s := by
      cases access with
      | read port' => exact keeps_read port port' s h
      | initGlobal enabled => exact keeps_initGlobal port enabled s h
    rw [List.foldl_cons, ih hstep.1, hstep.2]

/-- The migration of a number. -/
theorem after_read (charset : Charset) (userIndex : ℤ) {value : ℤ} (h : legacy port s = .ok (some value)) :
    (Access.read port).after charset userIndex s =
      s.write port.key (some (.string, utf8 (intText value))) := by
  have hexec := exec_port_read charset userIndex port s
  rw [h] at hexec
  exact congrArg Prod.snd hexec

/-- **When a port is stable.** Two consecutive reads see the same port, and so do all reads
after any reads and initializations, exactly if a number that is stored is in `1025..65535` or
is the port of the user. -/
theorem stable_iff (charset : Charset) (userIndex : ℤ) (port : Port) (s : Store) :
    (seen charset userIndex port ((Access.read port).after charset userIndex s) =
        seen charset userIndex port s ↔ Accepted userIndex port s) ∧
      ((∀ accesses : List Access, seen charset userIndex port
          (accesses.foldl (Access.after charset userIndex) s) = seen charset userIndex port s) ↔
        Accepted userIndex port s) := by
  have htwice : seen charset userIndex port ((Access.read port).after charset userIndex s) =
      seen charset userIndex port s → Accepted userIndex port s := by
    intro h value hlegacy
    rw [after_read charset userIndex hlegacy, (seen_write charset userIndex port s value).2, seen_eq, hlegacy] at h
    have hparse := Except.ok.inj h
    rcases parsePort_cases (some (intText value)) (port.ofUser userIndex) 1025 with hcase | hcase
    · right
      rw [← hparse, hcase]
    · left
      rw [hparse] at hcase
      exact hcase
  refine ⟨⟨htwice, fun h => seen_foldl_after [.read port] h⟩, ?_, fun h accesses => seen_foldl_after accesses h⟩
  intro h
  exact htwice (h [.read port])

/-- The port 80, as a number of an older version. -/
def legacyStore : Store := Store.empty.write .portProxy (some (.int, [0, 0, 0, 80]))

/-- The first read returns 80, the second one 1080. -/
theorem stable_legacy :
    seen default 0 .proxy legacyStore = .ok 80 ∧
      seen default 0 .proxy ((Access.read .proxy).after default 0 legacyStore) = .ok 1080 ∧
      ¬ ∀ (charset : Charset) (userIndex : ℤ) (port : Port) (s : Store),
        seen charset userIndex port ((Access.read port).after charset userIndex s) =
          seen charset userIndex port s := by
  have hfirst : seen default 0 .proxy legacyStore = .ok 80 := rfl
  have hsecond : seen default 0 .proxy ((Access.read .proxy).after default 0 legacyStore) = .ok 1080 := by
    have hlegacy : legacy .proxy legacyStore = .ok (some 80) := rfl
    have hparse : parsePort (some (intText 80)) (Port.ofUser 0 .proxy) 1025 = 1080 := by decide +kernel
    rw [after_read default 0 hlegacy]
    exact (seen_write default 0 .proxy legacyStore 80).2.trans (congrArg Except.ok hparse)
  refine ⟨hfirst, hsecond, fun h => ?_⟩
  have := h default 0 .proxy legacyStore
  rw [hfirst, hsecond] at this
  cases this

end DataStore

end BlackButton
