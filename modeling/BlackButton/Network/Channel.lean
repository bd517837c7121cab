import BlackButton.Network.Invariant
import Mathlib.Data.List.DropRight

/-!
# Messages that wait in the channel

`start`, `get`, `stop` and the system callback send to a rendezvous channel: a sender
waits, behind those that came before, until the actor takes its message. The callback
is only called while it is registered, but what it sends may be handled after it was
unregistered.

`no_stale_iff`: along a run, the network is forgotten while nobody listens and every
value that is given comes from a `Put` after the last `register()`, exactly if no
`Put` is handled while nobody listens.
-/

namespace BlackButton.Network

/-- The messages of `Callback`. -/
def Message.fromCallback {K L N : Type} : Message K L N → Bool
  | .put _ => true
  | .update _ => true
  | .lost _ => true
  | _ => false

def Message.isPut {K L N : Type} : Message K L N → Bool
  | .put _ => true
  | _ => false

/-- The actor and the senders that wait. -/
structure System (K L N : Type) where
  world : World K L N
  channel : List (Message K L N)
  deriving DecidableEq

inductive System.Event (K L N : Type)
  -- a call of `networkActor.send`
  | send (m : Message K L N)
  -- the actor takes the next message
  | receive
  deriving DecidableEq

namespace System

variable {K L N : Type} [DecidableEq K] [DecidableEq L] [DecidableEq N]

def init : System K L N := ⟨World.init, []⟩

def step (s : System K L N) : Event K L N → Option (System K L N)
  | .send m =>
    if m.fromCallback = true ∧ callbackRegistered s.world.log = false then none
    else some { s with channel := s.channel ++ [m] }
  | .receive =>
    match s.channel with
    | [] => none
    | m :: ms => (s.world.step m).map fun w => ⟨w, ms⟩

/-- The actor with its channel, as a machine. -/
def machine (K L N : Type) [DecidableEq K] [DecidableEq N] :
    Machine (System K L N) (Event K L N) where
  init := init
  step := step

/-! ## Where a network comes from -/

/-- The network that a call hands out. -/
def given : Call K L N → Option N
  | .notified _ v => v
  | .completed _ n => some n
  | _ => none

/-- A `Put` with this network was handled after the last `register()`. -/
def Fresh (log : List (Call K L N)) (n : N) : Prop := Call.handled (.put n) ∈ log.rtakeWhile (· ≠ .register)

instance (log : List (Call K L N)) (n : N) : Decidable (Fresh log n) := inferInstanceAs (Decidable (_ ∈ _))

/-- Every network was fresh when it was handed out. -/
def AllFresh (log : List (Call K L N)) : Prop :=
  ∀ pre c post n, log = pre ++ c :: post → given c = some n → Fresh pre n

/-- Nobody is given an old network. -/
def NoStale (s : System K L N) : Prop :=
  (s.world.actor.listeners = [] → s.world.actor.network = none) ∧ AllFresh s.world.log

/-- A `Put` is only handled while somebody listens. -/
def PutHeard (s : System K L N) (e : Event K L N) : Prop :=
  e = .receive ∧ s.channel.head?.any Message.isPut = true → s.world.actor.listeners ≠ []

instance (s : System K L N) (e : Event K L N) : Decidable (PutHeard s e) :=
  inferInstanceAs (Decidable (_ ∧ _ → _ ≠ _))

theorem Fresh.append {log : List (Call K L N)} {n : N} (h : Fresh log n) {calls : List (Call K L N)}
    (hr : Call.register ∉ calls) : Fresh (log ++ calls) n := by
  have hall : ∀ c ∈ calls.reverse, decide (c ≠ Call.register) = true := by
    intro c hc
    rw [decide_eq_true_eq]
    rintro rfl
    exact hr (List.mem_reverse.1 hc)
  unfold Fresh List.rtakeWhile at h ⊢
  rw [List.reverse_append, List.takeWhile_append_of_pos hall, List.reverse_append, List.reverse_reverse]
  exact List.mem_append_left _ h

theorem fresh_put (log : List (Call K L N)) (n : N) : Fresh (log ++ [.handled (.put n)]) n := by
  unfold Fresh
  rw [List.rtakeWhile_concat_pos _ _ _ (by simp)]
  exact List.mem_append_right _ List.mem_cons_self

/-- More calls: what they hand out is fresh. -/
theorem AllFresh.append {log calls : List (Call K L N)} (h : AllFresh log)
    (hcalls : ∀ c ∈ calls, ∀ n, given c = some n → Fresh log n ∧ Call.register ∉ calls) :
    AllFresh (log ++ calls) := by
  intro pre c post n hsplit hgiven
  rcases List.append_eq_append_iff.1 hsplit with ⟨more, hpre, hpost⟩ | ⟨more, hlog, hmore⟩
  · have hc : c ∈ calls := by rw [hpost]; exact List.mem_append_right _ List.mem_cons_self
    obtain ⟨hfresh, hr⟩ := hcalls c hc n hgiven
    rw [hpre]
    apply hfresh.append
    intro hmem
    exact hr (by rw [hpost]; exact List.mem_append_left _ hmem)
  · cases more with
    | nil =>
      rw [List.append_nil] at hlog
      have hc : c ∈ calls := by rw [show calls = c :: post from hmore.symm]; exact List.mem_cons_self
      rw [← hlog]
      exact (hcalls c hc n hgiven).1
    | cons c' more =>
      obtain ⟨rfl, -⟩ := List.cons.inj hmore
      exact h pre c more n hlog hgiven

/-- Why nobody is given an old network: the current one is fresh. -/
structure Inv (s : System K L N) : Prop where
  forgotten : s.world.actor.listeners = [] → s.world.actor.network = none
  current : ∀ n, s.world.actor.network = some n → Fresh s.world.log n
  all : AllFresh s.world.log

theorem inv_init : (init : System K L N).Inv where
  forgotten _ := rfl
  current n h := by cases h
  all pre c post n h := by cases pre <;> cases h

omit [DecidableEq K] [DecidableEq L] [DecidableEq N] in
theorem mem_notifyAll {a : Actor K L N} {v : Option N} {c : Call K L N} (hc : c ∈ a.notifyAll v) :
    given c = v ∧ c ≠ .register := by
  obtain ⟨e, -, rfl⟩ := List.mem_map.1 hc
  exact ⟨rfl, by simp⟩

/-- A message that is handled without `register()`. -/
theorem Inv.handled {s : System K L N} (h : s.Inv) {m : Message K L N} {ms : List (Message K L N)}
    {a : Actor K L N} {calls : List (Call K L N)} (hregister : Call.register ∉ calls)
    (hgiven : ∀ c ∈ calls, ∀ n, given c = some n → Fresh (s.world.log ++ [.handled m]) n)
    (hcurrent : ∀ n, a.network = some n → Fresh (s.world.log ++ [.handled m]) n)
    (hforgotten : a.listeners = [] → a.network = none) :
    (⟨⟨a, s.world.log ++ .handled m :: calls, s.world.handled + 1⟩, ms⟩ : System K L N).Inv := by
  have hlog : AllFresh (s.world.log ++ [.handled m]) := by
    apply h.all.append
    intro c hc n hn
    rw [List.mem_singleton.1 hc] at hn
    cases hn
  have hsplit : s.world.log ++ .handled m :: calls = s.world.log ++ [.handled m] ++ calls := by simp
  refine ⟨hforgotten, ?_, ?_⟩
  · intro n hn
    simp only [hsplit]
    exact (hcurrent n hn).append hregister
  · simp only [hsplit]
    apply hlog.append
    intro c hc n hn
    exact ⟨hgiven c hc n hn, hregister⟩

/-- What was fresh stays fresh when a message is handled. -/
theorem Inv.fresh_handled {s : System K L N} (h : s.Inv) (m : Message K L N) {n : N}
    (hn : s.world.actor.network = some n) : Fresh (s.world.log ++ [.handled m]) n :=
  (h.current n hn).append (by simp)

/-- A listener is started: it gets the current network, which is none if the callback is registered only now. -/
theorem Inv.start {s : System K L N} (h : s.Inv) (key : K) (l : L) (ms : List (Message K L N)) :
    (⟨⟨{ s.world.actor with listeners := Assoc.put s.world.actor.listeners key l },
      s.world.log ++ .handled (.start key l) ::
        ((if s.world.actor.listeners = [] then [.register] else []) ++ [.started l] ++
          s.world.actor.network.elim [] fun n => [.notified l (some n)]),
      s.world.handled + 1⟩, ms⟩ : System K L N).Inv := by
  by_cases hl : s.world.actor.listeners = []
  · have hn := h.forgotten hl
    rw [if_pos hl, hn]
    refine ⟨fun _ => hn, fun n hsome => absurd (hn.symm.trans hsome) (by simp), h.all.append ?_⟩
    intro c hc n hgiven
    simp only [List.mem_cons, List.mem_append, List.not_mem_nil, or_false, Option.elim_none] at hc
    rcases hc with rfl | rfl | rfl <;> cases hgiven
  · rw [if_neg hl]
    have hcalls : ∀ c ∈ ([] ++ [.started l] ++ s.world.actor.network.elim [] fun n => [.notified l (some n)] :
        List (Call K L N)), c ≠ .register ∧ ∀ n, given c = some n → s.world.actor.network = some n := by
      intro c hc
      cases hn : s.world.actor.network with
      | none =>
        rw [hn] at hc
        simp only [Option.elim_none, List.nil_append, List.append_nil, List.mem_singleton] at hc
        subst hc
        exact ⟨by simp, fun n hg => by cases hg⟩
      | some n =>
        rw [hn] at hc
        simp only [Option.elim_some, List.nil_append, List.mem_append, List.mem_singleton] at hc
        rcases hc with rfl | rfl
        · exact ⟨by simp, fun n hg => by cases hg⟩
        · exact ⟨by simp, fun n hg => hg⟩
    exact h.handled (fun hc => (hcalls _ hc).1 rfl) (fun c hc n hg => h.fresh_handled _ ((hcalls c hc).2 n hg))
      (fun n hn => h.fresh_handled _ hn) (fun hnil => absurd hnil (Assoc.put_ne_nil _ _ _))

/-- Handling a message hands out the current network, or that of the `Put`. -/
theorem inv_receive {s : System K L N} {m : Message K L N} {ms : List (Message K L N)} {w : World K L N}
    (h : s.Inv) (hok : m.isPut = true → s.world.actor.listeners ≠ []) (hstep : s.world.step m = some w) :
    (⟨w, ms⟩ : System K L N).Inv := by
  have hkeep : ∀ n, s.world.actor.network = some n → Fresh (s.world.log ++ [.handled m]) n :=
    fun n hn => h.fresh_handled m hn
  have hno : ∀ c : Call K L N, c ∉ ([] : List (Call K L N)) := fun _ => List.not_mem_nil
  obtain ⟨a, calls, hhandled, rfl⟩ := handled_of_step hstep
  cases hhandled with
  | start key l => exact h.start key l ms
  | wait hl hn => exact h.handled (hno _) (fun c hc => absurd hc (hno c)) hkeep h.forgotten
  | @answer hl n hn =>
    refine h.handled (by simp) ?_ hkeep h.forgotten
    intro c hc n' hg
    rw [List.mem_singleton.1 hc] at hg
    cases hg
    exact hkeep n hn
  | stopLast key hkey hlast =>
    refine h.handled (by simp) ?_ (fun n hn => by cases hn) (fun _ => rfl)
    intro c hc n hg
    rw [List.mem_singleton.1 hc] at hg
    cases hg
  | stop key hnot =>
    exact h.handled (hno _) (fun c hc => absurd hc (hno c)) hkeep
      (fun hnil => h.forgotten ((Assoc.remove_eq_nil hnot).1 hnil))
  | put n =>
    have hput := fresh_put s.world.log n
    refine h.handled ?_ ?_ ?_ (fun hnil => absurd hnil (hok rfl))
    · intro hc
      rcases List.mem_append.1 hc with hc | hc
      · obtain ⟨r, -, hr⟩ := List.mem_map.1 hc
        cases hr
      · exact (mem_notifyAll hc).2 rfl
    · intro c hc n' hg
      have hn : given c = some n := by
        rcases List.mem_append.1 hc with hc | hc
        · obtain ⟨r, -, rfl⟩ := List.mem_map.1 hc
          rfl
        · exact (mem_notifyAll hc).1
      rw [hn] at hg
      cases hg
      exact hput
    · intro n' hn
      cases hn
      exact hput
  | @update n hn =>
    refine h.handled (fun hc => (mem_notifyAll hc).2 rfl) ?_ hkeep h.forgotten
    intro c hc n' hg
    rw [(mem_notifyAll hc).1, ← hn] at hg
    exact hkeep n' hg
  | updateOther hn => exact h.handled (hno _) (fun c hc => absurd hc (hno c)) hkeep h.forgotten
  | @lost n hn =>
    refine h.handled (fun hc => (mem_notifyAll hc).2 rfl) ?_ (fun n hn => by cases hn) (fun _ => rfl)
    intro c hc n' hg
    rw [(mem_notifyAll hc).1] at hg
    cases hg
  | lostOther hn => exact h.handled (hno _) (fun c hc => absurd hc (hno c)) hkeep h.forgotten

theorem step_inv {s s' : System K L N} {e : Event K L N} (h : s.Inv) (hok : PutHeard s e)
    (hstep : s.step e = some s') : s'.Inv := by
  cases e with
  | send m =>
    simp only [step] at hstep
    split at hstep
    · cases hstep
    · cases hstep
      exact ⟨h.forgotten, h.current, h.all⟩
  | receive =>
    cases hc : s.channel with
    | nil => simp [step, hc] at hstep
    | cons m ms =>
      simp only [step, hc] at hstep
      obtain ⟨w, hw, rfl⟩ := Option.map_eq_some_iff.1 hstep
      apply inv_receive h _ hw
      intro hput
      apply hok
      rw [hc]
      exact ⟨rfl, by simpa using hput⟩

/-- A `Put` that nobody hears is remembered. -/
theorem step_stale {s s' : System K L N} {e : Event K L N} (hbad : ¬PutHeard s e) (hstep : s.step e = some s') :
    ¬NoStale s' := by
  unfold PutHeard at hbad
  push Not at hbad
  obtain ⟨⟨rfl, hput⟩, hl⟩ := hbad
  cases hc : s.channel with
  | nil => simp [hc] at hput
  | cons m ms =>
    rw [hc] at hput
    cases m with
    | put n =>
      simp only [step, hc] at hstep
      obtain ⟨w, hw, rfl⟩ := Option.map_eq_some_iff.1 hstep
      obtain rfl := Option.some.inj hw
      intro hno
      have := hno.1 hl
      cases this
    | start key l => cases hput
    | get => cases hput
    | stop key => cases hput
    | update n => cases hput
    | lost n => cases hput

/-- **No stale network**: along a run, the network is forgotten while nobody listens and whatever is handed
out comes from a `Put` after the last `register()`, exactly if no `Put` is handled while nobody listens. -/
theorem no_stale_iff (es : List (Event K L N)) (s : System K L N) (h : (machine K L N).run init es = some s) :
    (machine K L N).AlongFrom NoStale init es ↔ (machine K L N).MeetsFrom PutHeard init es :=
  Machine.along_iff_meets (fun _ hi => ⟨hi.forgotten, hi.all⟩) (fun _ _ _ hi hok hs => step_inv hi hok hs)
    (fun _ _ _ _ hbad hs => step_stale hbad hs) es inv_init h

/-- A listener that comes, hears of a network and leaves, with an update still waiting, and comes back. -/
def lateUpdate : List (Event ℕ ℕ ℕ) :=
  [.send (.start 0 0), .receive, .send (.put 7), .receive, .send (.stop 0), .send (.update 7), .receive, .receive,
    .send (.start 0 1), .receive]

theorem no_stale_lateUpdate : (machine ℕ ℕ ℕ).AlongFrom NoStale init lateUpdate := by
  have hm : (machine ℕ ℕ ℕ).MeetsFrom PutHeard init lateUpdate := by decide
  exact (no_stale_iff lateUpdate _ rfl).2 hm

/-- **A `Put` that waited while the last listener left** is given to the next one. -/
theorem stale_put :
    ∃ s, (machine ℕ ℕ ℕ).run init [.send (.start 0 0), .receive, .send (.stop 0), .send (.put 7), .receive, .receive,
        .send (.start 0 1), .receive] = some s ∧
      s.world.log.getLast? = some (.notified 1 (some 7)) ∧ ¬Fresh s.world.log 7 ∧ ¬NoStale s := by
  refine ⟨_, rfl, rfl, by decide, ?_⟩
  rintro ⟨-, hall⟩
  have := hall [.handled (.start 0 0), .register, .started 0, .handled (.stop 0), .unregister, .handled (.put 7),
    .handled (.start 0 1), .register, .started 1] (.notified 1 (some 7)) [] 7 rfl rfl
  revert this
  decide

end System

end BlackButton.Network
