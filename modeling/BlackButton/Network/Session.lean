import BlackButton.Network.Channel

/-!
# VPN sessions and the network actor (`bg/VpnService.kt`)

A session of a `VpnService` starts with `preInit`, which calls
`DefaultNetworkListener.start(this)`, and ends with `killProcesses`, which calls
`scope.launch { DefaultNetworkListener.stop(this) }`. In the body of `launch`, `this`
is the coroutine that was launched and not the service, so the two keys differ and
the actor ignores the `Stop`.

`not_released`: after any number of sessions, of any services, a service that was
started and stopped is still in the map of listeners, and the callback is registered.
-/

namespace BlackButton.Network.Session

/-- The objects that are passed as keys. -/
inductive Key
  | service (s : ℕ)
  -- the receiver of the body of a `launch`
  | coroutine (i : ℕ)
  | other (o : ℕ)
  deriving DecidableEq

/-- The lambdas that are passed as listeners. -/
inductive Listener
  | underlyingNetwork (s : ℕ)
  | other (o : ℕ)
  deriving DecidableEq

variable {N : Type} [DecidableEq N]

/-- The actor with its channel, and how many coroutines were launched by `killProcesses`. -/
structure Process (N : Type) where
  system : System Key Listener N
  launched : ℕ
  deriving DecidableEq

inductive Event (N : Type)
  | preInit (s : ℕ)
  | killProcesses (s : ℕ)
  | startOther (o : ℕ)
  | stopOther (o : ℕ)
  | get
  | callback (m : Message Key Listener N)
  | receive
  deriving DecidableEq

namespace Process

def init : Process N := ⟨System.init, 0⟩

/-- A call of `networkActor.send`, or a message that is taken. -/
def act (p : Process N) (e : System.Event Key Listener N) : Option (Process N) :=
  (p.system.step e).map fun s => { p with system := s }

def step (p : Process N) : Event N → Option (Process N)
  | .preInit s => p.act (.send (.start (.service s) (.underlyingNetwork s)))
  | .killProcesses _ => (p.act (.send (.stop (.coroutine p.launched)))).map fun p => { p with launched := p.launched + 1 }
  | .startOther o => p.act (.send (.start (.other o) (.other o)))
  | .stopOther o => p.act (.send (.stop (.other o)))
  | .get => p.act (.send .get)
  | .callback m => if m.fromCallback then p.act (.send m) else none
  | .receive => p.act .receive

end Process

/-- The services of a process, as a machine. -/
def machine (N : Type) [DecidableEq N] : Machine (Process N) (Event N) where
  init := Process.init
  step := Process.step

/-- The service is not listening any more; and if nobody else is, the callback is unregistered and the
network is forgotten. -/
def Released (p : Process N) (s : ℕ) : Prop :=
  Key.service s ∉ Assoc.keys p.system.world.actor.listeners ∧
    (p.system.world.actor.listeners = [] →
      callbackRegistered p.system.world.log = false ∧ p.system.world.actor.network = none)

/-- The service was started and, later, stopped. -/
def Cycle (es : List (Event N)) (s : ℕ) : Prop :=
  ∃ pre mid post, es = pre ++ .preInit s :: (mid ++ .killProcesses s :: post)

/-- The messages of its sessions are handled: no `Start` of it and no `Stop` of a coroutine waits. -/
def Settled (p : Process N) (s : ℕ) : Prop :=
  (∀ l, Message.start (Key.service s) l ∉ p.system.channel) ∧
    ∀ i, Message.stop (Key.coroutine i) ∉ p.system.channel

/-! ## Nobody stops a service -/

/-- No waiting `Stop` has a service for its key. -/
def NoStop (p : Process N) : Prop := ∀ s, Message.stop (Key.service s) ∉ p.system.channel

/-- The service listens, or its `Start` waits. -/
def Held (p : Process N) (s : ℕ) : Prop :=
  Key.service s ∈ Assoc.keys p.system.world.actor.listeners ∨
    ∃ l, Message.start (Key.service s) l ∈ p.system.channel

/-- A key stays until a `Stop` with this key. -/
theorem key_kept {K L : Type} [DecidableEq K] {w w' : World K L N} {m : Message K L N} {k : K}
    (hstep : w.step m = some w') (hm : m ≠ .stop k) (hk : k ∈ Assoc.keys w.actor.listeners) :
    k ∈ Assoc.keys w'.actor.listeners := by
  have hremove : ∀ k', k ≠ k' → k ∈ Assoc.keys (Assoc.remove w.actor.listeners k') := by
    intro k' hne
    by_contra hnot
    have hget := Assoc.get_remove w.actor.listeners k' k
    rw [Assoc.get_eq_none.2 hnot, if_neg (Ne.symm hne)] at hget
    exact Assoc.get_eq_none.1 hget.symm hk
  obtain ⟨a, calls, hhandled, rfl⟩ := handled_of_step hstep
  cases hhandled with
  | start key l =>
    change k ∈ Assoc.keys (Assoc.put w.actor.listeners key l)
    rw [Assoc.keys_put]
    split
    · exact hk
    · exact List.mem_append_left _ hk
  | stopLast key hkey hlast => exact hremove key (fun h => hm (by rw [h]))
  | stop key hnot => exact hremove key (fun h => hm (by rw [h]))
  | wait hl hn => exact hk
  | answer hl hn => exact hk
  | put n => exact hk
  | update hn => exact hk
  | updateOther hn => exact hk
  | lost hn => exact hk
  | lostOther hn => exact hk

theorem key_started {K L : Type} [DecidableEq K] {w w' : World K L N} {k : K} {l : L}
    (hstep : w.step (.start k l) = some w') : k ∈ Assoc.keys w'.actor.listeners := by
  obtain rfl := Option.some.inj hstep
  change k ∈ Assoc.keys (Assoc.put w.actor.listeners k l)
  rw [Assoc.keys_put]
  split
  · assumption
  · exact List.mem_append_right _ List.mem_cons_self

theorem act_send {p p' : Process N} {m : Message Key Listener N} (h : p.act (.send m) = some p') :
    p'.system.world = p.system.world ∧ p'.system.channel = p.system.channel ++ [m] := by
  obtain ⟨s, hs, rfl⟩ := Option.map_eq_some_iff.1 h
  simp only [System.step] at hs
  split at hs
  · cases hs
  · cases hs
    exact ⟨rfl, rfl⟩

/-- What a step can do: send a message, which is no `Stop` of a service, or handle one. -/
theorem step_cases {p p' : Process N} {e : Event N} (h : p.step e = some p') :
    (∃ m, p'.system.world = p.system.world ∧ p'.system.channel = p.system.channel ++ [m] ∧
      (∀ s, m ≠ .stop (.service s)) ∧ ∀ s, e = .preInit s → ∃ l, m = .start (.service s) l) ∨
    (e = .receive ∧ ∃ m ms w, p.system.channel = m :: ms ∧ p.system.world.step m = some w ∧ p'.system = ⟨w, ms⟩) := by
  cases e with
  | preInit s =>
    obtain ⟨hw, hc⟩ := act_send h
    refine Or.inl ⟨_, hw, hc, by simp, ?_⟩
    intro s' hs
    cases hs
    exact ⟨_, rfl⟩
  | killProcesses s =>
    simp only [Process.step] at h
    obtain ⟨p₁, hact, rfl⟩ := Option.map_eq_some_iff.1 h
    obtain ⟨hw, hc⟩ := act_send hact
    exact Or.inl ⟨_, hw, hc, by simp, by simp⟩
  | startOther o =>
    obtain ⟨hw, hc⟩ := act_send h
    exact Or.inl ⟨_, hw, hc, by simp, by simp⟩
  | stopOther o =>
    obtain ⟨hw, hc⟩ := act_send h
    exact Or.inl ⟨_, hw, hc, by simp, by simp⟩
  | get =>
    obtain ⟨hw, hc⟩ := act_send h
    exact Or.inl ⟨_, hw, hc, by simp, by simp⟩
  | callback m =>
    simp only [Process.step] at h
    split at h
    · rename_i hm
      obtain ⟨hw, hc⟩ := act_send h
      refine Or.inl ⟨m, hw, hc, ?_, by simp⟩
      rintro s rfl
      cases hm
    · cases h
  | receive =>
    obtain ⟨s, hs, rfl⟩ := Option.map_eq_some_iff.1 h
    cases hc : p.system.channel with
    | nil => simp [System.step, hc] at hs
    | cons m ms =>
      simp only [System.step, hc] at hs
      obtain ⟨w, hw, rfl⟩ := Option.map_eq_some_iff.1 hs
      exact Or.inr ⟨rfl, m, ms, w, rfl, hw, rfl⟩

theorem step_world_inv {p p' : Process N} {e : Event N} (h : p.system.world.Inv) (hstep : p.step e = some p') :
    p'.system.world.Inv := by
  rcases step_cases hstep with ⟨m, hw, -⟩ | ⟨-, m, ms, w, -, hw, hp'⟩
  · rw [hw]
    exact h
  · rw [hp']
    exact step_inv h hw

theorem step_noStop {p p' : Process N} {e : Event N} (h : NoStop p) (hstep : p.step e = some p') : NoStop p' := by
  intro s hmem
  rcases step_cases hstep with ⟨m, -, hc, hm, -⟩ | ⟨-, m, ms, w, hc, -, hp'⟩
  · rw [hc, List.mem_append, List.mem_singleton] at hmem
    rcases hmem with hmem | hmem
    · exact h s hmem
    · exact hm s hmem.symm
  · rw [hp'] at hmem
    exact h s (by rw [hc]; exact List.mem_cons_of_mem m hmem)

/-- **Once a service is held, it stays held.** -/
theorem step_held {p p' : Process N} {e : Event N} {s : ℕ} (h : NoStop p) (hheld : Held p s)
    (hstep : p.step e = some p') : Held p' s := by
  rcases step_cases hstep with ⟨m, hw, hc, -, -⟩ | ⟨-, m, ms, w, hc, hw, hp'⟩
  · rcases hheld with hheld | ⟨l, hl⟩
    · exact Or.inl (by rw [hw]; exact hheld)
    · exact Or.inr ⟨l, by rw [hc]; exact List.mem_append_left _ hl⟩
  · have hm : m ≠ .stop (.service s) := by
      rintro rfl
      exact h s (by rw [hc]; exact List.mem_cons_self)
    rw [Held, hp']
    rcases hheld with hheld | ⟨l, hl⟩
    · exact Or.inl (key_kept hw hm hheld)
    · rw [hc, List.mem_cons] at hl
      rcases hl with rfl | hl
      · exact Or.inl (key_started hw)
      · exact Or.inr ⟨l, hl⟩

theorem held_preInit {p p' : Process N} {s : ℕ} (hstep : p.step (.preInit s) = some p') : Held p' s := by
  rcases step_cases hstep with ⟨m, -, hc, -, hm⟩ | ⟨he, -⟩
  · obtain ⟨l, rfl⟩ := hm s rfl
    exact Or.inr ⟨l, by rw [hc]; exact List.mem_append_right _ List.mem_cons_self⟩
  · cases he

/-- **No session is ever released**: once a service was started and stopped and its messages are handled,
it is still listening, and the callback is still registered. -/
theorem not_released (es : List (Event N)) (p : Process N) (h : (machine N).run Process.init es = some p) (s : ℕ)
    (hcycle : Cycle es s) (hsettled : Settled p s) :
    Key.service s ∈ Assoc.keys p.system.world.actor.listeners ∧ callbackRegistered p.system.world.log = true ∧
      ¬Released p s := by
  have hworld : p.system.world.Inv := Machine.run_inv (P := fun p => p.system.world.Inv)
    (fun _ _ _ hi hs => step_world_inv hi hs) inv_init h
  obtain ⟨pre, mid, post, rfl⟩ := hcycle
  rw [Machine.run_append] at h
  obtain ⟨p₁, hpre, hrest⟩ := Option.bind_eq_some_iff.1 h
  obtain ⟨p₂, hstart, hrest⟩ := Option.bind_eq_some_iff.1 hrest
  have hinit : NoStop (Process.init : Process N) := fun s hs => absurd hs List.not_mem_nil
  have hno₁ : NoStop p₁ := Machine.run_inv (P := NoStop) (fun _ _ _ hno hs => step_noStop hno hs) hinit hpre
  have hno₂ : NoStop p₂ := step_noStop hno₁ (e := .preInit s) hstart
  have hheld : Held p s := (Machine.run_inv (P := fun p => NoStop p ∧ Held p s)
    (fun _ _ _ h hs => ⟨step_noStop h.1 hs, step_held h.1 h.2 hs⟩) ⟨hno₂, held_preInit hstart⟩ hrest).2
  have hkey : Key.service s ∈ Assoc.keys p.system.world.actor.listeners := by
    rcases hheld with hkey | ⟨l, hl⟩
    · exact hkey
    · exact absurd hl (hsettled.1 l)
  have hne : p.system.world.actor.listeners ≠ [] := by
    intro hnil
    rw [hnil] at hkey
    cases hkey
  exact ⟨hkey, hworld.registered.2 hne, fun hreleased => hreleased.1 hkey⟩

/-- Two sessions of a service, with a network. -/
def twoSessions : List (Event ℕ) :=
  [.preInit 0, .receive, .callback (.put 7), .receive, .killProcesses 0, .receive, .preInit 0, .receive,
    .killProcesses 0, .receive]

theorem not_released_twoSessions :
    ∃ p, (machine ℕ).run Process.init twoSessions = some p ∧ p.system.channel = [] ∧ ¬Released p 0 := by
  refine ⟨_, rfl, rfl, ?_⟩
  refine (not_released twoSessions _ rfl 0 ?_ ?_).2.2
  · exact ⟨[], [.receive, .callback (.put 7), .receive], [.receive, .preInit 0, .receive, .killProcesses 0, .receive], rfl⟩
  · exact ⟨fun l h => absurd h List.not_mem_nil, fun i h => absurd h List.not_mem_nil⟩

/-- **One session**: the service is still listening, and the callback is still registered. -/
theorem one_session :
    ∃ p, (machine ℕ).run Process.init [.preInit 0, .receive, .killProcesses 0, .receive] = some p ∧
      p.system.channel = [] ∧ p.system.world.actor.listeners = [(.service 0, .underlyingNetwork 0)] ∧
      callbackRegistered p.system.world.log = true ∧ ¬Released p 0 := by
  refine ⟨_, rfl, rfl, rfl, rfl, ?_⟩
  intro h
  exact h.1 List.mem_cons_self

end BlackButton.Network.Session
