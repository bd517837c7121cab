import BlackButton.Database.Manager

/-!
# Subscription sync (`SubscriptionService.createProfilesFromSubscription`)

The rows are listed once; their objects are changed in memory (first all of them are
marked obsolete, then those that the documents yield are marked active again) and
written back at the end, if they are in `toUpdate`. New profiles are written at once.
Everything that a document throws is caught and shown (`toasts`).
-/

namespace BlackButton

/-- A profile of a subscription, by name and address. -/
abbrev Key := Option Str × Str

/-- The variables of `createProfilesFromSubscription`, with `DataStore.profileId`. -/
structure Sync where
  profileId : ℤ
  -- the objects are referred to by their ids
  subscriptions : List (Key × ℤ)
  toUpdate : List ℤ
  -- not in the code: the pairs that were handed to the callback so far
  handed : List Key

/-- What the callback assigns to an obsolete profile that a document yields. -/
def Profile.refresh (oldProfile it : Profile) : Profile :=
  { oldProfile with
    password := it.password
    method := it.method
    plugin := it.plugin
    udpFallback := it.udpFallback
    subscription := .active }

@[simp] theorem Profile.id_refresh (o p : Profile) : (o.refresh p).id = o.id := rfl
@[simp] theorem Profile.pair_refresh (o p : Profile) : (o.refresh p).pair = o.pair := rfl
@[simp] theorem Profile.subscription_refresh (o p : Profile) : (o.refresh p).subscription = .active := rfl

namespace Sync

/-- One turn of the preprocessing phase. -/
def preprocess (currentId : ℤ) (w : World Sync) (profile : Profile) : World Sync × Option Fault :=
  if profile.subscription = .userConfigured then (w, none)
  else
    match Assoc.get w.extra.subscriptions profile.pair with
    | some _ =>
      match w.delProfile profile.id with
      | (w, some f) => (w, some f)
      | (w, none) =>
        (if currentId = profile.id then { w with extra := { w.extra with profileId := 0 } } else w, none)
    | none =>
      let w := { w with
        extra := { w.extra with subscriptions := Assoc.put w.extra.subscriptions profile.pair profile.id } }
      if profile.subscription = .active then
        let w := { w with extra := { w.extra with toUpdate := profile.id :: w.extra.toUpdate } }
        (w.setObject (profile.withStatus .obsolete), none)
      else (w, none)

/-- The preprocessing phase: an exception ends it. -/
def preprocessAll (currentId : ℤ) : List Profile → World Sync → World Sync × Option Fault
  | [], w => (w, none)
  | p :: ps, w =>
    match preprocess currentId w p with
    | (w, some f) => (w, some f)
    | (w, none) => preprocessAll currentId ps w

/-- The callback: `subscriptions.compute` of the pair. -/
def create (w : World Sync) (it : Profile) : World Sync × ℤ :=
  let w := { w with extra := { w.extra with handed := it.pair :: w.extra.handed } }
  let createNew : World Sync × ℤ :=
    let (w, id) := w.createProfile (it.withStatus .active)
    ({ w with extra := { w.extra with subscriptions := Assoc.put w.extra.subscriptions it.pair id } }, id)
  match (Assoc.get w.extra.subscriptions it.pair).bind w.object with
  | none => createNew
  | some oldProfile =>
    match oldProfile.subscription with
    | .active => (w, oldProfile.id)
    | .obsolete =>
      let w := { w with extra := { w.extra with toUpdate := oldProfile.id :: w.extra.toUpdate } }
      (w.setObject (oldProfile.refresh it), oldProfile.id)
    | .userConfigured => createNew

/-- One document: what it throws is caught. -/
def readDocument (H : HashOrder) (feature : Option Profile) (s : World Sync × List Fault) (d : Document) :
    World Sync × List Fault :=
  match d.single with
  | .error f => (s.1, s.2 ++ [f])
  | .ok json =>
    match JsonParser.parseJson create H feature json s.1 with
    | (w, none) => (w, s.2)
    | (w, some f) => (w, s.2 ++ [f])

/-- The objects of the listing that were changed are written back: an exception ends the loop. -/
def writeBack : List Profile → World Sync → World Sync × Option Fault
  | [], w => (w, none)
  | p :: ps, w =>
    if p.id ∈ w.extra.toUpdate then
      match w.updateProfile ((w.object p.id).getD p) with
      | (w, some f) => (w, some f)
      | (w, none) => writeBack ps w
    else writeBack ps w

/-- The state before the preprocessing phase. -/
def init (t : Table) (profileId : ℤ) : World Sync := ⟨t, t.rows, ⟨profileId, [], [], []⟩⟩

/-- `feature`: the current profile. -/
def featureOf (t : Table) (profileId : ℤ) : Option Profile := t.rows.find? fun p => p.id = profileId

/-- What is left after a sync. -/
structure Result where
  world : World Sync
  -- what the documents threw, in order
  toasts : List Fault
  -- what `createProfilesFromSubscription` itself throws
  thrown : Option Fault

end Sync

open Sync in
/-- `createProfilesFromSubscription`. -/
def createProfilesFromSubscription (H : HashOrder) (t : Table) (profileId : ℤ) (jsons : List Document) :
    Result :=
  match preprocessAll profileId t.rows (init t profileId) with
  | (w, some f) => ⟨w, [], some f⟩
  | (w, none) =>
    let (w, toasts) := jsons.foldl (readDocument H (featureOf t profileId)) (w, [])
    let (w, thrown) := writeBack t.rows w
    ⟨w, toasts, thrown⟩

end BlackButton
