import Mathlib.Data.List.Basic
import Mathlib.Logic.Basic

/-!
# Event machines and their runs

A machine is a start state and a partial step function: `step s e = none` when
the event `e` is not enabled in `s`. Everything that is not determined by the
state (which coroutine runs next, whether a call fails) is part of the event, so
a run is a list of events.

* `Machine.Reach ok`: the states reached by runs all of whose steps meet `ok`,
  a condition on the state before the step and on the event.
* `Reach.inv`: the invariant rule. What holds at the start and is kept by every
  step that meets `ok` holds in every such state.
* `run_until`: the ranking rule, for what a run comes to.
* `Machine.stateAt es n`: the state after the first `n` events, for statements about
  a whole run.
-/

namespace BlackButton

/-- A start state and a partial step function. -/
structure Machine (σ ε : Type) where
  init : σ
  step : σ → ε → Option σ

namespace Machine

variable {σ ε : Type} (M : Machine σ ε)

/-- The state after the events `es`, if each is enabled in its turn. -/
def run : σ → List ε → Option σ
  | s, [] => some s
  | s, e :: es => (M.step s e).bind fun s' => run s' es

/-- The state after the first `n` events of `es`. -/
def stateAt (es : List ε) (n : ℕ) : Option σ := M.run M.init (es.take n)

/-- The states reached by runs all of whose steps meet `ok`. -/
inductive Reach (ok : σ → ε → Prop) : σ → Prop
  | init : Reach ok M.init
  | step {s s' : σ} {e : ε} : Reach ok s → ok s e → M.step s e = some s' → Reach ok s'

/-- Every step of the run of `es` from `s` meets `ok`. -/
def MeetsFrom (ok : σ → ε → Prop) : σ → List ε → Prop
  | _, [] => True
  | s, e :: es => ok s e ∧ ∀ s', M.step s e = some s' → MeetsFrom ok s' es

/-- Whether the steps of a given run meet a decidable condition can be computed. -/
instance MeetsFrom.decidable (ok : σ → ε → Prop) [∀ s e, Decidable (ok s e)] :
    ∀ s es, Decidable (M.MeetsFrom ok s es)
  | _, [] => isTrue trivial
  | s, e :: es =>
    match h : M.step s e with
    | none =>
      decidable_of_iff (ok s e) ⟨fun ho => ⟨ho, fun s' hs' => by rw [h] at hs'; cases hs'⟩, And.left⟩
    | some s' =>
      have : Decidable (M.MeetsFrom ok s' es) := MeetsFrom.decidable ok s' es
      decidable_of_iff (ok s e ∧ M.MeetsFrom ok s' es)
        ⟨fun hm => ⟨hm.1, fun s₁ hs₁ => by rw [h] at hs₁; cases hs₁; exact hm.2⟩,
          fun hm => ⟨hm.1, hm.2 s' h⟩⟩

/-- Every step of the run of `es` meets `ok`. -/
def Meets (ok : σ → ε → Prop) (es : List ε) : Prop := M.MeetsFrom ok M.init es

/-- `P` holds in every state of the run of `es` from `s`. -/
def AlongFrom (P : σ → Prop) : σ → List ε → Prop
  | s, [] => P s
  | s, e :: es => P s ∧ ∀ s', M.step s e = some s' → AlongFrom P s' es

variable {M} {ok : σ → ε → Prop}

/-- **The invariant rule.** -/
theorem Reach.inv {P : σ → Prop} (h0 : P M.init)
    (hstep : ∀ s e s', P s → ok s e → M.step s e = some s' → P s') {s : σ} (h : M.Reach ok s) : P s := by
  induction h with
  | init => exact h0
  | step _ hok he ih => exact hstep _ _ _ ih hok he

/-- The same along a run: what every step keeps, a run keeps. -/
theorem run_inv {P : σ → Prop} (hstep : ∀ s e s', P s → M.step s e = some s' → P s') {es : List ε} :
    ∀ {s s' : σ}, P s → M.run s es = some s' → P s' := by
  induction es with
  | nil =>
    intro s s' h hrun
    cases hrun
    exact h
  | cons e es ih =>
    intro s s' h hrun
    obtain ⟨s₁, hs₁, hrest⟩ := Option.bind_eq_some_iff.1 hrun
    exact ih (hstep s e s₁ h hs₁) hrest

/-- The same along a run of events that are allowed. -/
theorem run_inv_of {P : σ → Prop} (allowed : ε → Prop)
    (hstep : ∀ s e s', P s → allowed e → M.step s e = some s' → P s') {es : List ε} :
    ∀ {s s' : σ}, P s → (∀ e ∈ es, allowed e) → M.run s es = some s' → P s' := by
  induction es with
  | nil =>
    intro s s' h _ hrun
    cases hrun
    exact h
  | cons e es ih =>
    intro s s' h hes hrun
    obtain ⟨s₁, hs₁, hrest⟩ := Option.bind_eq_some_iff.1 hrun
    have hnext := hstep s e s₁ h (hes e List.mem_cons_self) hs₁
    exact ih hnext (fun e' he' => hes e' (List.mem_cons_of_mem e he')) hrest

/-- **The ranking rule.** As long as `Q` does not hold, no event of the run is refused, none raises the rank and
those that `moves` lower it: with more of these than the rank, the run comes to `Q`. -/
theorem run_until {P Q : σ → Prop} (allowed : ε → Prop) (rank : σ → ℕ) (moves : ε → Bool)
    (hstep : ∀ s e, P s → ¬Q s → allowed e →
      ∃ s', M.step s e = some s' ∧ (Q s' ∨ (P s' ∧ rank s' ≤ rank s ∧ (moves e = true → rank s' < rank s)))) :
    ∀ {es : List ε} {s : σ}, P s → (∀ e ∈ es, allowed e) → rank s < es.countP moves →
      ∃ k s', M.run s (es.take k) = some s' ∧ Q s' := by
  intro es
  induction es with
  | nil =>
    intro s _ _ hlt
    exact absurd hlt (Nat.not_lt_zero _)
  | cons e es ih =>
    intro s hP hes hlt
    by_cases hQ : Q s
    · exact ⟨0, s, rfl, hQ⟩
    obtain ⟨s₁, hs₁, hnext⟩ := hstep s e hP hQ (hes e List.mem_cons_self)
    have hrun (k : ℕ) : M.run s ((e :: es).take (k + 1)) = M.run s₁ (es.take k) := by
      rw [List.take_succ_cons, run, hs₁, Option.bind_some]
    rcases hnext with hQ₁ | ⟨hP₁, hle, hmoves⟩
    · exact ⟨1, s₁, (hrun 0).trans rfl, hQ₁⟩
    have hcount : rank s₁ < es.countP moves := by
      rw [List.countP_cons] at hlt
      by_cases he : moves e = true
      · have hlower := hmoves he
        rw [if_pos he] at hlt
        omega
      · rw [if_neg he] at hlt
        omega
    obtain ⟨k, s', hk, hQ'⟩ := ih hP₁ (fun e' he' => hes e' (List.mem_cons_of_mem e he')) hcount
    exact ⟨k + 1, s', (hrun k).trans hk, hQ'⟩

theorem run_append (s : σ) (es fs : List ε) :
    M.run s (es ++ fs) = (M.run s es).bind fun s' => M.run s' fs := by
  induction es generalizing s with
  | nil => rfl
  | cons e es ih =>
    simp only [List.cons_append, run]
    cases M.step s e with
    | none => rfl
    | some s' => exact ih s'

/-- One more event of a run is one more step. -/
theorem stateAt_succ {es : List ε} {n : ℕ} {e : ε} (he : es[n]? = some e) :
    M.stateAt es (n + 1) = (M.stateAt es n).bind fun s => M.step s e := by
  unfold stateAt
  rw [List.take_add_one, he, Option.toList_some, run_append]
  congr 1
  funext s
  simp only [run]
  cases M.step s e <;> rfl

/-- The state before a step that was taken. -/
theorem stateAt_succ_some {es : List ε} {n : ℕ} {s' : σ} (hn : n < es.length) (h : M.stateAt es (n + 1) = some s') :
    ∃ s e, es[n]? = some e ∧ M.stateAt es n = some s ∧ M.step s e = some s' := by
  have he : es[n]? = some es[n] := List.getElem?_eq_getElem hn
  rw [stateAt_succ he] at h
  obtain ⟨s, hs, hstep⟩ := Option.bind_eq_some_iff.1 h
  exact ⟨s, es[n], he, hs, hstep⟩

/-- Past the end of the run nothing changes. -/
theorem stateAt_of_length_le {es : List ε} {n : ℕ} (hn : es.length ≤ n) : M.stateAt es n = M.run M.init es := by
  unfold stateAt
  rw [List.take_of_length_le hn]

/-- The run from a reached state stays within the reached states. -/
theorem Reach.run {es : List ε} : ∀ {s s' : σ}, M.Reach ok s → M.MeetsFrom ok s es →
    M.run s es = some s' → M.Reach ok s' := by
  induction es with
  | nil =>
    intro s s' hr _ h
    cases h; exact hr
  | cons e es ih =>
    intro s s' hr hm h
    obtain ⟨s₁, hs₁, hrun⟩ := Option.bind_eq_some_iff.1 h
    exact ih (hr.step hm.1 hs₁) (hm.2 s₁ hs₁) hrun

theorem MeetsFrom.take {es : List ε} : ∀ {s : σ}, M.MeetsFrom ok s es →
    ∀ n, M.MeetsFrom ok s (es.take n) := by
  induction es with
  | nil => intro s _ n; simp [MeetsFrom]
  | cons e es ih =>
    intro s hm n
    cases n with
    | zero => trivial
    | succ n => exact ⟨hm.1, fun s' hs' => ih (hm.2 s' hs') n⟩

/-- The states of a run whose steps meet `ok` are reached under `ok`. -/
theorem reach_stateAt {es : List ε} (hm : M.Meets ok es) (n : ℕ) (s : σ) (h : M.stateAt es n = some s) :
    M.Reach ok s :=
  Reach.run Reach.init (hm.take n) h

/-- **The exact-condition rule.** `I` holds at the start, gives `P`, and is kept by the steps that
meet `ok`; a step that does not meet it breaks `P` at once. Then `P` holds along a run exactly if
all its steps meet `ok`. -/
theorem along_iff_meets {I P : σ → Prop} (hP : ∀ s, I s → P s)
    (hgood : ∀ s e s', I s → ok s e → M.step s e = some s' → I s')
    (hbad : ∀ s e s', I s → ¬ok s e → M.step s e = some s' → ¬P s') :
    ∀ (es : List ε) {s s' : σ}, I s → M.run s es = some s' →
      (M.AlongFrom P s es ↔ M.MeetsFrom ok s es) := by
  intro es
  induction es with
  | nil => intro s _ hI _; simp [AlongFrom, MeetsFrom, hP s hI]
  | cons e es ih =>
    intro s s' hI hrun
    obtain ⟨s₁, hs₁, hrest⟩ := Option.bind_eq_some_iff.1 hrun
    constructor
    · rintro ⟨-, halong⟩
      have ha := halong s₁ hs₁
      have hok : ok s e := by
        by_contra hno
        refine hbad s e s₁ hI hno hs₁ ?_
        cases es with
        | nil => exact ha
        | cons e' es' => exact ha.1
      refine ⟨hok, ?_⟩
      intro s₂ hs₂
      rw [hs₁] at hs₂; cases hs₂
      exact (ih (hgood s e s₁ hI hok hs₁) hrest).1 ha
    · rintro ⟨hok, hmeets⟩
      refine ⟨hP s hI, ?_⟩
      intro s₂ hs₂
      rw [hs₁] at hs₂; cases hs₂
      exact (ih (hgood s e s₁ hI hok hs₁) hrest).2 (hmeets s₁ hs₁)

end Machine

end BlackButton
