import Mathlib.Data.Bool.Basic
import Mathlib.Data.Rat.Defs
import BlackButton.Lib.Async
import BlackButton.Lib.Generations
import BlackButton.Lib.Machine

/-!
# Nonces that were seen (`context.rs`)

All connections and UDP sockets of a service share a `Context`. It remembers the nonces
(the salts and initialization vectors) that were made or received in two Bloom filters,
which take turns. A new salt is drawn until the context does not know it; a received one
that it knows is reported. The filter itself is a parameter (`Bloom`): it may report what
it was not given, but knows what it was.

* `PingPongBloom.Keeps`: the two filters are the two generations of `Generations`.
* `Nonces.run_reports`: **each of the newest `item_count` nonces is reported**, and no filter
  is given more than it was made for.
* `Nonces.run_fresh`: **of `item_count + 1` nonces that are entered one after the other no two are
  equal**, so a salt is not made again, nor made to be one that a peer used.
-/

namespace BlackButton

namespace Relay

/-! ## The filters -/

/-- `Bloom<[u8]>` of `bloomfilter`. -/
structure Bloom where
  Filter : Type
  newForFpRate (itemsCount : ℕ) (fpP : ℚ) : Filter
  check : Filter → Bytes → Bool
  set : Filter → Bytes → Filter
  clear : Filter → Filter

/-- What the code relies on: a filter knows what was set in it. -/
structure Bloom.Lawful (B : Bloom) : Prop where
  check_set : ∀ f x, B.check (B.set f x) x = true
  check_set_of_check : ∀ f x y, B.check f x = true → B.check (B.set f y) x = true

/-- The filter without false positives. -/
def Bloom.exact : Bloom where
  Filter := List Bytes
  newForFpRate _ _ := []
  check f x := f.contains x
  set f x := x :: f
  clear _ := []

theorem Bloom.exact_lawful : Bloom.exact.Lawful where
  check_set _ _ := List.contains_iff_mem.2 List.mem_cons_self
  check_set_of_check _ _ y h := List.contains_iff_mem.2 (List.mem_cons_of_mem y (List.contains_iff_mem.1 h))

/-- `ServerType`. -/
inductive ServerType
  | «local»
  | server
  deriving DecidableEq

def BF_NUM_ENTRIES_FOR_SERVER : ℕ := 1000000
def BF_NUM_ENTRIES_FOR_CLIENT : ℕ := 10000
def BF_ERROR_RATE_FOR_SERVER : ℚ := 1 / 10 ^ 6
def BF_ERROR_RATE_FOR_CLIENT : ℚ := 1 / 10 ^ 15

variable (B : Bloom)

/-- The indices 0 and 1 of the two filters are `false` and `true`. -/
structure PingPongBloom where
  blooms : Bool → B.Filter
  bloomCount : Bool → ℕ
  itemCount : ℕ
  current : Bool

variable {B}

namespace PingPongBloom

/-- `PingPongBloom::new`. -/
def new (ty : ServerType) : PingPongBloom B :=
  let (itemCount, fpP) :=
    match ty with
    | .local => (BF_NUM_ENTRIES_FOR_CLIENT, BF_ERROR_RATE_FOR_CLIENT)
    | .server => (BF_NUM_ENTRIES_FOR_SERVER, BF_ERROR_RATE_FOR_SERVER)
  let itemCount := itemCount / 2
  { blooms _ := B.newForFpRate itemCount fpP
    bloomCount _ := 0
    itemCount
    current := false }

/-- The other filter, cleared, becomes the current one. -/
def turn (p : PingPongBloom B) : PingPongBloom B :=
  let current := !p.current
  { p with
    current
    bloomCount := Function.update p.bloomCount current 0
    blooms := Function.update p.blooms current (B.clear (p.blooms current)) }

/-- Set into the current filter. -/
def set (p : PingPongBloom B) (buf : Bytes) : PingPongBloom B :=
  { p with
    blooms := Function.update p.blooms p.current (B.set (p.blooms p.current) buf)
    bloomCount := Function.update p.bloomCount p.current (p.bloomCount p.current + 1) }

/-- Whether a filter knows `buf`. -/
def known (p : PingPongBloom B) (buf : Bytes) : Bool := B.check (p.blooms false) buf || B.check (p.blooms true) buf

/-- `check_and_set`. -/
def checkAndSet (p : PingPongBloom B) (buf : Bytes) : Bool × PingPongBloom B :=
  if p.known buf then (true, p)
  else
    let p := if p.bloomCount p.current ≥ p.itemCount then p.turn else p
    (false, p.set buf)

end PingPongBloom

variable (B) in
/-- `Context`. -/
structure Context where
  noncePpbloom : PingPongBloom B

namespace Context

/-- `Context::new`. -/
def new (configType : ServerType) : Context B := ⟨.new configType⟩

/-- `check_nonce_and_set`. -/
def checkNonceAndSet (c : Context B) (nonce : Bytes) : Bool × Context B :=
  if nonce = [] then (false, c)
  else
    let (found, noncePpbloom) := c.noncePpbloom.checkAndSet nonce
    (found, { c with noncePpbloom })

/-- The loop that draws a salt until the context does not know it; `none` when it is still drawing. -/
def drawSalt {n : ℕ} (c : Context B) : List (List.Vector UInt8 n) → Option (Bytes × Context B)
  | [] => none
  | salt :: draws =>
    match c.checkNonceAndSet salt.val with
    | (true, c) => drawSalt c draws
    | (false, c) => some (salt.val, c)

/-- The salt of `CryptoStream::from_stream`, `encrypt_payload_stream` and `encrypt_payload_aead`, with what
`random_iv_or_salt` fills it with. -/
def generateSalt (c : Context B) (saltLen : ℕ) (draws : List (List.Vector UInt8 saltLen)) : Option (Bytes × Context B) :=
  if saltLen > 0 then c.drawSalt draws
  else
    let (_, c) := c.checkNonceAndSet []
    some ([], c)

end Context

/-! ## The two generations -/

/-- What was set in a filter since it was made or cleared, newest first. -/
inductive Bloom.Fed (B : Bloom) : B.Filter → List Bytes → Prop
  | new (itemsCount : ℕ) (fpP : ℚ) : Fed B (B.newForFpRate itemsCount fpP) []
  | clear (f : B.Filter) : Fed B (B.clear f) []
  | set {f : B.Filter} {xs : List Bytes} (x : Bytes) : Fed B f xs → Fed B (B.set f x) (x :: xs)

theorem Bloom.Fed.check (hB : B.Lawful) {f : B.Filter} {xs : List Bytes} (h : B.Fed f xs) {x : Bytes} (hx : x ∈ xs) :
    B.check f x = true := by
  induction h with
  | new => cases hx
  | clear => cases hx
  | @set f xs y _ ih =>
    rcases List.mem_cons.1 hx with rfl | hx
    · exact hB.check_set f x
    · exact hB.check_set_of_check f x y (ih hx)

namespace PingPongBloom

/-- The filters hold the two generations. -/
structure Keeps {N : ℕ} (p : PingPongBloom B) (g : Generations Bytes N) : Prop where
  itemCount : p.itemCount = N
  current : B.Fed (p.blooms p.current) g.current
  old : B.Fed (p.blooms !p.current) g.old
  count : p.bloomCount p.current = g.current.length
  oldCount : p.bloomCount (!p.current) = g.old.length

theorem known_iff (p : PingPongBloom B) (buf : Bytes) : p.known buf = true ↔ ∃ i, B.check (p.blooms i) buf = true := by
  unfold known
  rw [Bool.or_eq_true, Bool.exists_bool]

variable {p : PingPongBloom B} {N : ℕ} {g : Generations Bytes N} {buf : Bytes}

theorem Keeps.known (hB : B.Lawful) (h : p.Keeps g) (hbuf : buf ∈ g.items) : p.known buf = true := by
  rw [known_iff]
  rcases List.mem_append.1 hbuf with hin | hin
  · exact ⟨_, h.current.check hB hin⟩
  · exact ⟨_, h.old.check hB hin⟩

theorem Keeps.set_room (h : p.Keeps g) (hroom : ¬N ≤ g.current.length) (buf : Bytes) : (p.set buf).Keeps (g.add buf) := by
  obtain ⟨hcurrent, hold⟩ := Generations.add_of_room (x := buf) hroom
  have hne : (!p.current) ≠ p.current := Bool.not_ne_self p.current
  constructor
  · exact h.itemCount
  · rw [hcurrent]
    simpa [set] using h.current.set buf
  · rw [hold]
    simpa [set, hne] using h.old
  · rw [hcurrent]
    simpa [set] using h.count
  · rw [hold]
    simpa [set, hne] using h.oldCount

theorem Keeps.set_full (h : p.Keeps g) (hfull : N ≤ g.current.length) (buf : Bytes) :
    (p.turn.set buf).Keeps (g.add buf) := by
  obtain ⟨hcurrent, hold⟩ := Generations.add_of_full (x := buf) hfull
  have hne : (!p.current) ≠ p.current := Bool.not_ne_self p.current
  have hother : (!!p.current) = p.current := Bool.not_not p.current
  constructor
  · exact h.itemCount
  · rw [hcurrent]
    simpa [set, turn] using Bloom.Fed.set buf (.clear (p.blooms !p.current))
  · rw [hold]
    simpa [set, turn, hother, hne.symm] using h.current
  · rw [hcurrent]
    simp [set, turn]
  · rw [hold]
    simpa [set, turn, hother, hne.symm] using h.count

/-- **One call of `check_and_set`**: a known nonce changes nothing, another one is entered. -/
theorem Keeps.checkAndSet (h : p.Keeps g) (buf : Bytes) :
    (p.known buf = true ∧ p.checkAndSet buf = (true, p)) ∨
      (p.known buf = false ∧ ∃ p', p.checkAndSet buf = (false, p') ∧ p'.Keeps (g.add buf)) := by
  unfold PingPongBloom.checkAndSet
  by_cases hknown : p.known buf = true
  · exact Or.inl ⟨hknown, by rw [if_pos hknown]⟩
  refine Or.inr ⟨eq_false_of_ne_true hknown, ?_⟩
  rw [if_neg hknown]
  by_cases hfull : N ≤ g.current.length
  · have hcount : p.bloomCount p.current ≥ p.itemCount := by
      rw [h.count, h.itemCount]
      exact hfull
    exact ⟨_, rfl, by rw [if_pos hcount]; exact h.set_full hfull buf⟩
  · have hcount : ¬p.bloomCount p.current ≥ p.itemCount := by
      rw [h.count, h.itemCount]
      exact hfull
    exact ⟨_, rfl, by rw [if_neg hcount]; exact h.set_room hfull buf⟩

end PingPongBloom

variable {N : ℕ} {g : Generations Bytes N}

namespace Context

variable {c c' : Context B} {nonce : Bytes}

/-- **One call of `check_nonce_and_set`**: what is empty or known changes nothing, another nonce is entered. -/
theorem checkNonceAndSet_cases (h : c.noncePpbloom.Keeps g) (nonce : Bytes) :
    (nonce = [] ∧ c.checkNonceAndSet nonce = (false, c)) ∨
      (c.noncePpbloom.known nonce = true ∧ c.checkNonceAndSet nonce = (true, c)) ∨
        (nonce ≠ [] ∧ c.noncePpbloom.known nonce = false ∧
          ∃ c', c.checkNonceAndSet nonce = (false, c') ∧ c'.noncePpbloom.Keeps (g.add nonce)) := by
  unfold checkNonceAndSet
  by_cases hnil : nonce = []
  · exact Or.inl ⟨hnil, by rw [if_pos hnil]⟩
  rw [if_neg hnil]
  rcases h.checkAndSet nonce with ⟨hknown, heq⟩ | ⟨hknown, p', heq, hkeeps⟩
  · exact Or.inr (Or.inl ⟨hknown, by rw [heq]⟩)
  · exact Or.inr (Or.inr ⟨hnil, hknown, _, by rw [heq], hkeeps⟩)

/-- A salt that is drawn was not known. -/
theorem drawSalt_some {n : ℕ} (hn : 0 < n) (h : c.noncePpbloom.Keeps g) {draws : List (List.Vector UInt8 n)}
    {salt : Bytes} (hdraw : c.drawSalt draws = some (salt, c')) :
    salt ≠ [] ∧ c.noncePpbloom.known salt = false ∧ c'.noncePpbloom.Keeps (g.add salt) := by
  induction draws with
  | nil => cases hdraw
  | cons iv draws ih =>
    have hne : iv.val ≠ [] := by
      intro hnil
      have hlen := iv.property
      rw [hnil, List.length_nil] at hlen
      omega
    unfold drawSalt at hdraw
    rcases checkNonceAndSet_cases h iv.val with ⟨hnil, -⟩ | ⟨-, heq⟩ | ⟨-, hknown, c₁, heq, hkeeps⟩
    · exact absurd hnil hne
    · rw [heq] at hdraw
      exact ih hdraw
    · rw [heq] at hdraw
      cases hdraw
      exact ⟨hne, hknown, hkeeps⟩

theorem generateSalt_some (h : c.noncePpbloom.Keeps g) {n : ℕ} {draws : List (List.Vector UInt8 n)} {salt : Bytes}
    (hgen : c.generateSalt n draws = some (salt, c')) :
    (salt = [] ∧ c' = c) ∨
      (salt ≠ [] ∧ c.noncePpbloom.known salt = false ∧ c'.noncePpbloom.Keeps (g.add salt)) := by
  unfold generateSalt at hgen
  split at hgen
  · rename_i hn
    exact Or.inr (drawSalt_some hn h hgen)
  · cases hgen
    exact Or.inl ⟨rfl, rfl⟩

end Context

/-! ## All users of a context -/

/-- Where a nonce comes from: it was made for a stream or a packet to send, or read from one. -/
inductive Origin
  | generated
  | received
  deriving DecidableEq

variable (B) in
/-- A context, and the nonces that it did not know when they came, newest first. -/
structure Nonces where
  context : Context B
  entered : List (Origin × Bytes)

namespace Nonces

inductive Event
  -- a stream or a packet is made; what `random_iv_or_salt` draws
  | generates (saltLen : ℕ) (draws : List (List.Vector UInt8 saltLen))
  -- a stream or a packet came with the nonce
  | receives (nonce : Bytes)

/-- The nonces entered after one more that was not known; the empty one is not kept. -/
def enter (entered : List (Origin × Bytes)) (origin : Origin) (nonce : Bytes) : List (Origin × Bytes) :=
  if nonce = [] then entered else (origin, nonce) :: entered

def step (s : Nonces B) : Event → Option (Nonces B)
  | .generates saltLen draws =>
    (s.context.generateSalt saltLen draws).map fun (salt, context) => ⟨context, enter s.entered .generated salt⟩
  | .receives nonce =>
    match s.context.checkNonceAndSet nonce with
    | (true, context) => some ⟨context, s.entered⟩
    | (false, context) => some ⟨context, enter s.entered .received nonce⟩

variable (B) in
def machine (ty : ServerType) : Machine (Nonces B) Event where
  init := ⟨.new ty, []⟩
  step := step

/-- The nonces without their origin. -/
def history (s : Nonces B) : List Bytes := s.entered.map Prod.snd

/-- **The invariant**: the filters hold the newest of the nonces, which do not repeat too soon. -/
structure Held (N : ℕ) (s : Nonces B) : Prop where
  keeps : ∃ g : Generations Bytes N, s.context.noncePpbloom.Keeps g ∧ g.Remembers s.history
  spaced : Spaced N s.history
  ne_nil : ∀ nonce ∈ s.history, nonce ≠ []

/-- What is not known goes in. -/
theorem Held.enter (hB : B.Lawful) {s : Nonces B} (h : s.Held N) (hkeeps : s.context.noncePpbloom.Keeps g)
    (hrem : g.Remembers s.history) {c' : Context B} {nonce : Bytes} (hne : nonce ≠ [])
    (hknown : s.context.noncePpbloom.known nonce = false) (hkeeps' : c'.noncePpbloom.Keeps (g.add nonce))
    (origin : Origin) : Held N ⟨c', Nonces.enter s.entered origin nonce⟩ := by
  have hhist : (⟨c', Nonces.enter s.entered origin nonce⟩ : Nonces B).history = nonce :: s.history := by
    unfold history Nonces.enter
    rw [if_neg hne, List.map_cons]
  have hnew : nonce ∉ s.history.take N := by
    intro hin
    have hreported := hkeeps.known hB (hrem.take_subset hin)
    rw [hknown] at hreported
    cases hreported
  constructor
  · exact ⟨g.add nonce, hkeeps', by rw [hhist]; exact hrem.add nonce⟩
  · rw [hhist]
    exact h.spaced.cons hnew
  · rw [hhist]
    intro x hx
    rcases List.mem_cons.1 hx with rfl | hx
    · exact hne
    · exact h.ne_nil x hx

/-- **One step.** -/
theorem Held.step (hB : B.Lawful) {s s' : Nonces B} {e : Event} (h : s.Held N) (hstep : s.step e = some s') :
    s'.Held N := by
  obtain ⟨g, hkeeps, hrem⟩ := h.keeps
  cases e with
  | generates saltLen draws =>
    obtain ⟨⟨salt, c'⟩, hgen, rfl⟩ := Option.map_eq_some_iff.1 hstep
    rcases Context.generateSalt_some hkeeps hgen with ⟨rfl, rfl⟩ | ⟨hne, hknown, hkeeps'⟩
    · exact h
    · exact h.enter hB hkeeps hrem hne hknown hkeeps' .generated
  | receives nonce =>
    simp only [Nonces.step] at hstep
    rcases Context.checkNonceAndSet_cases hkeeps nonce with ⟨rfl, heq⟩ | ⟨-, heq⟩ | ⟨hne, hknown, c', heq, hkeeps'⟩
    · rw [heq] at hstep
      cases hstep
      exact h
    · rw [heq] at hstep
      cases hstep
      exact h
    · rw [heq] at hstep
      cases hstep
      exact h.enter hB hkeeps hrem hne hknown hkeeps' .received

/-- What one filter is made for. -/
def capacity : ServerType → ℕ
  | .local => BF_NUM_ENTRIES_FOR_CLIENT / 2
  | .server => BF_NUM_ENTRIES_FOR_SERVER / 2

theorem capacity_pos (ty : ServerType) : 0 < capacity ty := by cases ty <;> decide

theorem held_init (ty : ServerType) : (machine B ty).init.Held (capacity ty) where
  keeps := by
    refine ⟨.empty (capacity_pos ty), ?_, Generations.remembers_empty (capacity_pos ty)⟩
    cases ty <;> exact ⟨rfl, .new _ _, .new _ _, rfl, rfl⟩
  spaced := spaced_nil
  ne_nil := by
    intro nonce hin
    cases hin

theorem run_held (hB : B.Lawful) {ty : ServerType} {es : List Event} {s : Nonces B}
    (hrun : (machine B ty).run (machine B ty).init es = some s) : s.Held (capacity ty) := by
  refine Machine.run_inv (P := Held (capacity ty)) ?_ (held_init ty) hrun
  intro s e s' h hstep
  exact h.step hB hstep

/-- **The newest nonces are reported**, and a filter is not given more than it was made for. -/
theorem run_reports (hB : B.Lawful) {ty : ServerType} {es : List Event} {s : Nonces B}
    (hrun : (machine B ty).run (machine B ty).init es = some s) :
    (∀ nonce ∈ s.history.take (capacity ty), (s.context.checkNonceAndSet nonce).1 = true) ∧
      ∀ i, ∃ xs, B.Fed (s.context.noncePpbloom.blooms i) xs ∧ xs.length ≤ capacity ty := by
  have h := run_held hB hrun
  obtain ⟨g, hkeeps, hrem⟩ := h.keeps
  constructor
  · intro nonce hin
    have hknown := hkeeps.known hB (hrem.take_subset hin)
    have hne := h.ne_nil nonce (List.mem_of_mem_take hin)
    rcases Context.checkNonceAndSet_cases hkeeps nonce with ⟨hnil, -⟩ | ⟨-, heq⟩ | ⟨-, hunknown, -⟩
    · exact absurd hnil hne
    · rw [heq]
    · rw [hknown] at hunknown
      cases hunknown
  · intro i
    by_cases hi : i = s.context.noncePpbloom.current
    · rw [hi]
      exact ⟨g.current, hkeeps.current, g.current_le⟩
    · have hi : i = !s.context.noncePpbloom.current := Bool.eq_not.2 hi
      rw [hi]
      exact ⟨g.old, hkeeps.old, g.old_le⟩

theorem run_reports_received :
    ∃ s, (machine .exact .local).run (machine .exact .local).init [.generates 1 [⟨[7], rfl⟩], .receives [9]] = some s ∧
      (s.context.checkNonceAndSet [9]).1 = true := by
  obtain ⟨s, hrun, hin⟩ : ∃ s, (machine .exact .local).run (machine .exact .local).init
      [.generates 1 [⟨[7], rfl⟩], .receives [9]] = some s ∧ [9] ∈ s.history.take (capacity .local) :=
    ⟨_, rfl, List.mem_cons_self⟩
  exact ⟨s, hrun, (run_reports Bloom.exact_lawful hrun).1 [9] hin⟩

/-- **No nonce is entered again among the next `item_count`.** -/
theorem run_fresh (hB : B.Lawful) {ty : ServerType} {es : List Event} {s : Nonces B}
    (hrun : (machine B ty).run (machine B ty).init es = some s) : Spaced (capacity ty) s.history :=
  (run_held hB hrun).spaced

-- the second salt is drawn again
theorem run_fresh_drawn_again :
    ∃ s, (machine .exact .local).run (machine .exact .local).init
      [.generates 1 [⟨[7], rfl⟩], .generates 1 [⟨[7], rfl⟩, ⟨[8], rfl⟩]] = some s ∧ s.history = [[8], [7]] ∧
        Spaced (capacity .local) s.history := by
  obtain ⟨s, hrun, hhist⟩ : ∃ s, (machine .exact .local).run (machine .exact .local).init
      [.generates 1 [⟨[7], rfl⟩], .generates 1 [⟨[7], rfl⟩, ⟨[8], rfl⟩]] = some s ∧ s.history = [[8], [7]] :=
    ⟨_, rfl, rfl⟩
  exact ⟨s, hrun, hhist, run_fresh Bloom.exact_lawful hrun⟩

end Nonces

end Relay

end BlackButton
