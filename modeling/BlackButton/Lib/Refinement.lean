import BlackButton.Lib.Machine

/-!
# Refinement of event machines

A machine refines another one along a map of its states: each of its steps is a run of
the other machine (none, if the step does not show there).

* `Refines.reach`, `Refines.run`: **the reached states and the runs carry over**.
* `Refines.transfer`: what holds in all states of the abstract machine holds of the
  images of the concrete ones.
* `Refines.trans`: refinements compose.
* `Fifo`: the stream that gives out what was put in, in order and once, the machine that
  stream implementations refine; `Fifo.received_prefix` is what all of them have.
-/

namespace BlackButton

namespace Machine

variable {σ τ υ ε δ φ : Type}

/-- `M` refines `A` along `f`, in the steps that meet `ok`; `Inv` is what `M` keeps meanwhile. -/
structure Refines (M : Machine σ ε) (A : Machine τ δ) (ok : σ → ε → Prop) (Inv : σ → Prop) (f : σ → τ) : Prop where
  init_inv : Inv M.init
  init_eq : f M.init = A.init
  step : ∀ s e s', Inv s → ok s e → M.step s e = some s' → Inv s' ∧ ∃ ds, A.run (f s) ds = some (f s')

variable {M : Machine σ ε} {A : Machine τ δ} {B : Machine υ φ} {ok : σ → ε → Prop} {Inv : σ → Prop} {f : σ → τ}

theorem run_singleton (s : σ) (e : ε) : M.run s [e] = M.step s e := by
  simp only [Machine.run]
  exact Option.bind_fun_some _

/-- Every step allowed. -/
def anyStep (_ : σ) (_ : ε) : Prop := True

theorem meetsFrom_anyStep (ds : List δ) : ∀ t, A.MeetsFrom anyStep t ds := by
  induction ds with
  | nil => intro t; trivial
  | cons d ds ih => exact fun t => ⟨trivial, fun t' _ => ih t'⟩

theorem Refines.inv (h : Refines M A ok Inv f) {s : σ} (hs : M.Reach ok s) : Inv s :=
  hs.inv h.init_inv fun s e s' hi hok he => (h.step s e s' hi hok he).1

/-- **A reached state stands for a reached state.** -/
theorem Refines.reach (h : Refines M A ok Inv f) {s : σ} (hs : M.Reach ok s) : A.Reach anyStep (f s) := by
  induction hs with
  | init =>
    rw [h.init_eq]
    exact .init
  | step hr hok he ih =>
    obtain ⟨-, ds, hds⟩ := h.step _ _ _ (h.inv hr) hok he
    exact Reach.run ih (meetsFrom_anyStep ds _) hds

/-- What all states of the abstract machine have. -/
theorem Refines.transfer (h : Refines M A ok Inv f) {P : τ → Prop} (hP : ∀ t, A.Reach anyStep t → P t) {s : σ}
    (hs : M.Reach ok s) : P (f s) :=
  hP _ (h.reach hs)

/-- **A run stands for a run.** -/
theorem Refines.run (h : Refines M A ok Inv f) {es : List ε} :
    ∀ {s s' : σ}, Inv s → M.MeetsFrom ok s es → M.run s es = some s' →
      Inv s' ∧ ∃ ds, A.run (f s) ds = some (f s') := by
  induction es with
  | nil =>
    intro s s' hi _ hrun
    cases hrun
    exact ⟨hi, [], rfl⟩
  | cons e es ih =>
    intro s s' hi hm hrun
    obtain ⟨s₁, hs₁, hrest⟩ := Option.bind_eq_some_iff.1 hrun
    obtain ⟨hi₁, ds, hds⟩ := h.step s e s₁ hi hm.1 hs₁
    obtain ⟨hi', ds', hds'⟩ := ih hi₁ (hm.2 s₁ hs₁) hrest
    refine ⟨hi', ds ++ ds', ?_⟩
    rw [run_append, hds]
    exact hds'

/-- **Refinements compose.** -/
theorem Refines.trans {Inv' : τ → Prop} {g : τ → υ} (h : Refines M A ok Inv f) (h' : Refines A B anyStep Inv' g) :
    Refines M B ok (fun s => Inv s ∧ Inv' (f s)) (g ∘ f) where
  init_inv := ⟨h.init_inv, by rw [h.init_eq]; exact h'.init_inv⟩
  init_eq := by rw [Function.comp_apply, h.init_eq, h'.init_eq]
  step s e s' hi hok he := by
    obtain ⟨hi', ds, hds⟩ := h.step s e s' hi.1 hok he
    obtain ⟨hj', bs, hbs⟩ := h'.run hi.2 (meetsFrom_anyStep ds _) hds
    exact ⟨⟨hi', hj'⟩, bs, hbs⟩

end Machine

/-! ## The stream as its two ends see it -/

/-- What was put into a stream, what came out of it, whether the sender has closed it, whether it
was cut, and whether the receiver has seen an end. -/
structure Fifo (α : Type) where
  sent : List α
  received : List α
  closed : Bool
  broken : Bool
  ended : Bool
  deriving DecidableEq

namespace Fifo

variable {α : Type} [DecidableEq α]

inductive Event (α : Type)
  | send (xs : List α)
  | receive (xs : List α)
  | close
  | cut
  | finish

/-- What comes out is the next of what was put in; the end is seen after all of it, unless the
stream was cut. -/
def step (s : Fifo α) : Event α → Option (Fifo α)
  | .send xs => if s.closed then none else some { s with sent := s.sent ++ xs }
  | .receive xs =>
    if s.received ++ xs <+: s.sent ∧ s.ended = false then some { s with received := s.received ++ xs } else none
  | .close => some { s with closed := true }
  | .cut => some { s with broken := true }
  | .finish => if s.broken ∨ (s.closed ∧ s.received = s.sent) then some { s with ended := true } else none

def machine (α : Type) [DecidableEq α] : Machine (Fifo α) (Event α) where
  init := ⟨[], [], false, false, false⟩
  step := step

/-- **In order, nothing twice and nothing lost**: what came out is the beginning of what was put in, and all
of it once the end is seen, unless the stream was cut. -/
theorem received_prefix {s : Fifo α} (h : (machine α).Reach Machine.anyStep s) :
    s.received <+: s.sent ∧ (s.ended = true → s.broken = false → s.closed = true ∧ s.received = s.sent) := by
  refine h.inv (P := fun s => s.received <+: s.sent ∧
    (s.ended = true → s.broken = false → s.closed = true ∧ s.received = s.sent))
    ⟨List.prefix_rfl, by simp [machine]⟩ ?_
  rintro s e s' ⟨hpre, hend⟩ - he
  cases e with
  | send xs =>
    obtain ⟨hopen, he⟩ := Option.ite_none_left_eq_some.1 he
    cases he
    refine ⟨hpre.trans (List.prefix_append _ _), ?_⟩
    intro h hb
    exact absurd (hend h hb).1 hopen
  | receive xs =>
    obtain ⟨⟨hle, hrun⟩, he⟩ := Option.ite_none_right_eq_some.1 he
    cases he
    exact ⟨hle, fun h => absurd (hrun.symm.trans h) (by decide)⟩
  | close =>
    cases he
    exact ⟨hpre, fun h hb => ⟨rfl, (hend h hb).2⟩⟩
  | cut =>
    cases he
    exact ⟨hpre, fun _ => nofun⟩
  | finish =>
    obtain ⟨hall, he⟩ := Option.ite_none_right_eq_some.1 he
    cases he
    refine ⟨hpre, fun _ hb => ?_⟩
    rcases hall with hbroken | hall
    · exact absurd (hb.symm.trans hbroken) (by decide)
    · exact hall

end Fifo

end BlackButton
