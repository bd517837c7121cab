import BlackButton.Lib.Assoc
import BlackButton.Lib.Machine

/-!
# The network actor (`net/DefaultNetworkListener.kt`)

The actor handles one message after the other. `Actor.handle` is what it does with a
message: its next state, and the calls it makes, in order. `World` is the actor with
the calls it has made so far.

Keys, listeners and networks are arbitrary types: the code only compares keys and
networks. A `Get` is made anew by each call of `get()`, so it is named by the place of
its message in the sequence.

`Handled` lists what handling a message can be; everything that is proved about a step
is a case analysis over it.
-/

namespace BlackButton.Network

/-- `NetworkMessage`. -/
inductive Message (K L N : Type)
  | start (key : K) (listener : L)
  | get
  | stop (key : K)
  | put (network : N)
  | update (network : N)
  | lost (network : N)
  deriving DecidableEq

/-- What is seen of the actor from outside. -/
inductive Call (K L N : Type)
  -- a message is taken from the channel
  | handled (message : Message K L N)
  | register
  | unregister
  -- a listener is put into the map
  | started (listener : L)
  | notified (listener : L) (network : Option N)
  | completed (request : ℕ) (network : N)
  deriving DecidableEq

/-- The variables of the actor. -/
structure Actor (K L N : Type) where
  listeners : List (K × L)
  network : Option N
  pendingRequests : List ℕ
  deriving DecidableEq

namespace Actor

variable {K L N : Type} [DecidableEq K] [DecidableEq L] [DecidableEq N]

def init : Actor K L N := ⟨[], none, []⟩

/-- `listeners.values.forEach { it(network) }`. -/
def notifyAll (a : Actor K L N) (network : Option N) : List (Call K L N) :=
  a.listeners.map fun e => .notified e.2 network

/-- The body of the loop, for the `request`-th message; `none` if the check for listeners fails. -/
def handle (request : ℕ) (a : Actor K L N) : Message K L N → Option (Actor K L N × List (Call K L N))
  | .start key listener =>
    some ({ a with listeners := Assoc.put a.listeners key listener },
      (if a.listeners = [] then [.register] else []) ++ [.started listener] ++
        a.network.elim [] fun n => [.notified listener (some n)])
  | .get =>
    if a.listeners = [] then none
    else
      match a.network with
      | none => some ({ a with pendingRequests := a.pendingRequests ++ [request] }, [])
      | some n => some (a, [.completed request n])
  | .stop key =>
    let listeners := Assoc.remove a.listeners key
    if (Assoc.get a.listeners key).isSome ∧ listeners = [] then
      some ({ a with listeners := listeners, network := none }, [.unregister])
    else some ({ a with listeners := listeners }, [])
  | .put n =>
    some ({ a with network := some n, pendingRequests := [] },
      a.pendingRequests.map (fun r => .completed r n) ++ a.notifyAll (some n))
  | .update n => if a.network = some n then some (a, a.notifyAll (some n)) else some (a, [])
  | .lost n =>
    if a.network = some n then some ({ a with network := none }, a.notifyAll none) else some (a, [])

end Actor

/-- The actor, the calls it has made, and how many messages it has handled. -/
structure World (K L N : Type) where
  actor : Actor K L N
  log : List (Call K L N)
  handled : ℕ
  deriving DecidableEq

namespace World

variable {K L N : Type} [DecidableEq K] [DecidableEq N]

def init : World K L N := ⟨Actor.init, [], 0⟩

def step (w : World K L N) (m : Message K L N) : Option (World K L N) :=
  (w.actor.handle w.handled m).map fun r => ⟨r.1, w.log ++ .handled m :: r.2, w.handled + 1⟩

end World

/-- What handling a message can be. -/
inductive Handled {K L N : Type} [DecidableEq K] (request : ℕ) (a : Actor K L N) :
    Message K L N → Actor K L N → List (Call K L N) → Prop
  | start (key : K) (l : L) :
    Handled request a (.start key l) { a with listeners := Assoc.put a.listeners key l }
      ((if a.listeners = [] then [.register] else []) ++ [.started l] ++
        a.network.elim [] fun n => [.notified l (some n)])
  | wait (hl : a.listeners ≠ []) (hn : a.network = none) :
    Handled request a .get { a with pendingRequests := a.pendingRequests ++ [request] } []
  | answer (hl : a.listeners ≠ []) {n : N} (hn : a.network = some n) :
    Handled request a .get a [.completed request n]
  | stopLast (key : K) (hkey : (Assoc.get a.listeners key).isSome) (hlast : Assoc.remove a.listeners key = []) :
    Handled request a (.stop key) { a with listeners := Assoc.remove a.listeners key, network := none } [.unregister]
  | stop (key : K) (hnot : ¬((Assoc.get a.listeners key).isSome ∧ Assoc.remove a.listeners key = [])) :
    Handled request a (.stop key) { a with listeners := Assoc.remove a.listeners key } []
  | put (n : N) :
    Handled request a (.put n) { a with network := some n, pendingRequests := [] }
      (a.pendingRequests.map (fun r => .completed r n) ++ a.notifyAll (some n))
  | update {n : N} (hn : a.network = some n) : Handled request a (.update n) a (a.notifyAll (some n))
  | updateOther {n : N} (hn : a.network ≠ some n) : Handled request a (.update n) a []
  | lost {n : N} (hn : a.network = some n) :
    Handled request a (.lost n) { a with network := none } (a.notifyAll none)
  | lostOther {n : N} (hn : a.network ≠ some n) : Handled request a (.lost n) a []

theorem handled_of_handle {K L N : Type} [DecidableEq K] [DecidableEq N] {request : ℕ} {a a' : Actor K L N}
    {m : Message K L N} {calls : List (Call K L N)} (h : a.handle request m = some (a', calls)) :
    Handled request a m a' calls := by
  cases m with
  | start key l =>
    cases h
    exact .start key l
  | get =>
    simp only [Actor.handle] at h
    split at h
    · cases h
    · rename_i hl
      split at h
      · rename_i hn
        cases h
        exact .wait hl hn
      · rename_i n hn
        cases h
        exact .answer hl hn
  | stop key =>
    simp only [Actor.handle] at h
    split at h
    · rename_i hlast
      cases h
      exact .stopLast key hlast.1 hlast.2
    · rename_i hnot
      cases h
      exact .stop key hnot
  | put n =>
    cases h
    exact .put n
  | update n =>
    simp only [Actor.handle] at h
    split at h
    · rename_i hn
      cases h
      exact .update hn
    · rename_i hn
      cases h
      exact .updateOther hn
  | lost n =>
    simp only [Actor.handle] at h
    split at h
    · rename_i hn
      cases h
      exact .lost hn
    · rename_i hn
      cases h
      exact .lostOther hn

/-- A step is a message that is handled, and its calls go to the log. -/
theorem handled_of_step {K L N : Type} [DecidableEq K] [DecidableEq N] {w w' : World K L N} {m : Message K L N}
    (h : w.step m = some w') :
    ∃ a calls, Handled w.handled w.actor m a calls ∧ w' = ⟨a, w.log ++ .handled m :: calls, w.handled + 1⟩ := by
  obtain ⟨⟨a, calls⟩, hr, rfl⟩ := Option.map_eq_some_iff.1 h
  exact ⟨a, calls, handled_of_handle hr, rfl⟩

/-- The actor as a machine over its messages. -/
def machine (K L N : Type) [DecidableEq K] [DecidableEq N] : Machine (World K L N) (Message K L N) where
  init := World.init
  step := World.step

end BlackButton.Network
