import BlackButton.Plugin.Configuration

/-!
# Profiles and the JSON parser (`database/Profile.kt`)

`JsonParser.process` collects the profiles of a document, and the UDP fallback of
each in a map whose keys are compared by content. A document can be rejected with an
exception (plugin options with control characters).

`process_eq`: what is collected is a list of accepted entries, added one after the
other. `entries_rule`: what holds of single objects holds of documents.
-/

namespace BlackButton

open Text

/-- `SubscriptionStatus`. -/
inductive SubscriptionStatus
  | userConfigured
  | active
  | obsolete
  deriving DecidableEq

/-- `Profile`. -/
structure Profile where
  id : ℤ := 0
  name : Option Str := some []
  host : Str := []
  remotePort : ℤ := 0
  password : Str := []
  method : Str := []
  route : Str := "all".toList
  remoteDns : Str := "dns.google".toList
  proxyApps : Bool := false
  bypass : Bool := false
  udpdns : Bool := false
  ipv6 : Bool := false
  metered : Bool := false
  individual : Str := []
  plugin : Option Str := none
  udpFallback : Option ℤ := none
  subscription : SubscriptionStatus := .userConfigured
  tx : ℤ := 0
  rx : ℤ := 0
  userOrder : ℤ := 0
  deriving DecidableEq

namespace Profile

/-- `formattedAddress`. -/
def formattedAddress (p : Profile) : Str :=
  if ':' ∈ p.host then "[".toList ++ p.host ++ "]:".toList ++ intText p.remotePort
  else p.host ++ ":".toList ++ intText p.remotePort

/-- The pair by which subscriptions tell profiles apart. -/
def pair (p : Profile) : Option Str × Str := (p.name, p.formattedAddress)

/-- `copyFeatureSettingsTo`. -/
def copyFeatureSettingsTo (feature profile : Profile) : Profile :=
  { profile with
    route := feature.route
    ipv6 := feature.ipv6
    metered := feature.metered
    proxyApps := feature.proxyApps
    bypass := feature.bypass
    individual := feature.individual
    udpdns := feature.udpdns }

/-- `plugin.isNullOrEmpty()`. -/
def noPlugin (p : Profile) : Bool := p.plugin.getD [] = []

/-- The options that `PluginConfiguration(plugin ?: "").getOptions()` returns; `none` is an
exception. -/
def selectedOptions (defaultConfig : Str → Option Str) (p : Profile) : Option PluginOptions :=
  (PluginConfiguration.parse (p.plugin.getD [])).bind fun c =>
    PluginConfiguration.getOptions defaultConfig c c.selected

/-! Assignments to fields. -/

def withId (p : Profile) (id : ℤ) : Profile := { p with id := id }

def withOrder (p : Profile) (userOrder : ℤ) : Profile := { p with userOrder := userOrder }

def withFallback (p : Profile) (id : ℤ) : Profile := { p with udpFallback := some id }

def withStatus (p : Profile) (subscription : SubscriptionStatus) : Profile :=
  { p with subscription := subscription }

section Fields

variable (p : Profile) (i : ℤ) (s : SubscriptionStatus)

@[simp] theorem id_withId : (p.withId i).id = i := rfl
@[simp] theorem id_withOrder : (p.withOrder i).id = p.id := rfl
@[simp] theorem id_withFallback : (p.withFallback i).id = p.id := rfl
@[simp] theorem id_withStatus : (p.withStatus s).id = p.id := rfl
@[simp] theorem pair_withId : (p.withId i).pair = p.pair := rfl
@[simp] theorem pair_withOrder : (p.withOrder i).pair = p.pair := rfl
@[simp] theorem pair_withFallback : (p.withFallback i).pair = p.pair := rfl
@[simp] theorem pair_withStatus : (p.withStatus s).pair = p.pair := rfl
@[simp] theorem subscription_withId : (p.withId i).subscription = p.subscription := rfl
@[simp] theorem subscription_withOrder : (p.withOrder i).subscription = p.subscription := rfl
@[simp] theorem subscription_withFallback : (p.withFallback i).subscription = p.subscription := rfl
@[simp] theorem subscription_withStatus : (p.withStatus s).subscription = s := rfl

end Fields

end Profile

/-- A value that Gson parsed. A number has its text and its `asInt`, which can fail. -/
inductive Json
  | null
  | bool (b : Bool)
  | num (text : Str) (int : Option ℤ)
  | str (s : Str)
  | arr (elems : List Json)
  | obj (members : List (Str × Json))

namespace Json

/-- `optString`. -/
def optString : Option Json → Option Str
  | some (.bool b) => some (if b then "true".toList else "false".toList)
  | some (.num text _) => some text
  | some (.str s) => some s
  | _ => none

/-- `optBoolean`. -/
def optBoolean : Option Json → Option Bool
  | some (.bool b) => some b
  | _ => none

/-- `optInt`. -/
def optInt : Option Json → Option ℤ
  | some (.num _ int) => int
  | some (.str s) => toInt s
  | _ => none

end Json

/-- What is thrown while documents are read. -/
inductive Fault
  -- `single()`: the document is malformed, or is not one value
  | document
  -- "No control characters allowed."
  | controlCharacters
  -- the `check` of `updateProfile` or `delProfile`
  | check
  deriving DecidableEq

namespace JsonParser

open Json

/-- The members of an object. -/
abbrev Members := List (Str × Json)

/-- `json[key]`. -/
def field (json : Members) (key : String) : Option Json := Assoc.get json key.toList

/-- The plugin of a profile. -/
def pluginOf (H : HashOrder) (json : Members) : Except Fault (Option Str) :=
  let id := (optString (field json "plugin")).getD []
  if id = [] then .ok none
  else
    match PluginOptions.parseWith id (optString (field json "plugin_opts")) with
    | none => .error .controlCharacters
    | some o => .ok (some (PluginOptions.toString H false o))

/-- The settings that a fallback does not have. -/
def mainSettings (json : Members) (p : Profile) : Profile :=
  let p := { p with
    remoteDns := (optString (field json "remote_dns")).getD p.remoteDns
    ipv6 := (optBoolean (field json "ipv6")).getD p.ipv6
    metered := (optBoolean (field json "metered")).getD p.metered }
  let p :=
    match field json "proxy_apps" with
    | some (.obj apps) =>
      { p with
        proxyApps := (optBoolean (field apps "enabled")).getD p.proxyApps
        bypass := (optBoolean (field apps "bypass")).getD p.bypass
        individual :=
          match field apps "android_list" with
          | some (.arr elems) => List.intercalate ['\n'] (elems.filterMap fun e => optString (some e))
          | _ => p.individual }
    | _ => p
  { p with udpdns := (optBoolean (field json "udpdns")).getD p.udpdns }

/-- `tryParse`, up to the fallback of the profile. -/
def parseProfile (H : HashOrder) (feature : Option Profile) (json : Members) (fallback : Bool) :
    Except Fault (Option Profile) :=
  let host := (optString (field json "server")).getD []
  let remotePort := (optInt (field json "server_port")).getD 0
  let password := (optString (field json "password")).getD []
  let method := (optString (field json "method")).getD []
  if host = [] ∨ remotePort ≤ 0 ∨ password = [] ∨ method = [] then .ok none
  else do
    let p : Profile :=
      { host := host, remotePort := remotePort, password := password, method := method }
    let p := match feature with
      | none => p
      | some f => f.copyFeatureSettingsTo p
    let plugin ← pluginOf H json
    let p := { p with
      plugin := plugin
      name := optString (field json "remarks")
      route := (optString (field json "route")).getD p.route }
    .ok (some (if fallback then p else mainSettings json p))

/-- `tryParse`: a profile and its fallback. -/
def tryParse (H : HashOrder) (feature : Option Profile) (json : Members) :
    Except Fault (Option (Profile × Option Profile)) := do
  match ← parseProfile H feature json false with
  | none => .ok none
  | some p =>
    match field json "udp_fallback" with
    | some (.obj fallback) => .ok (some (p, ← parseProfile H feature fallback true))
    | _ => .ok (some (p, none))

end JsonParser

/-- A `JsonParser`: the profiles of the list, and their fallbacks. -/
structure JsonParser where
  profiles : List Profile
  fallbackMap : List (Profile × Profile)

namespace JsonParser

def new : JsonParser := ⟨[], []⟩

/-- An accepted object: it is added to the list, its fallback to the map. -/
def addEntry (s : JsonParser) (e : Profile × Option Profile) : JsonParser where
  profiles := s.profiles ++ [e.1]
  fallbackMap :=
    match e.2 with
    | none => s.fallbackMap
    | some f => Assoc.put s.fallbackMap e.1 f

theorem profiles_foldl (es : List (Profile × Option Profile)) (s : JsonParser) :
    (es.foldl addEntry s).profiles = s.profiles ++ es.map Prod.fst := by
  induction es generalizing s with
  | nil => simp
  | cons e es ih =>
    rw [List.foldl_cons, ih]
    simp [addEntry]

/-- The map has fallbacks of entries only. -/
theorem mem_fallbackMap {es : List (Profile × Option Profile)} {x : Profile × Profile}
    (h : x ∈ (es.foldl addEntry new).fallbackMap) : (x.1, some x.2) ∈ es := by
  have hfold : ∀ (es : List (Profile × Option Profile)) (s : JsonParser),
      x ∈ (es.foldl addEntry s).fallbackMap → x ∈ s.fallbackMap ∨ (x.1, some x.2) ∈ es := by
    intro es
    induction es with
    | nil => exact fun s h => Or.inl h
    | cons e es ih =>
      intro s h
      rcases ih _ h with h | h
      · unfold addEntry at h
        cases he : e.2 with
        | none =>
          rw [he] at h
          exact Or.inl h
        | some f =>
          rw [he] at h
          rcases Assoc.mem_put h with h | rfl
          · exact Or.inl h
          · right
            rw [← he]
            exact List.mem_cons_self
      · exact Or.inr (List.mem_cons_of_mem e h)
  rcases hfold es new h with h | h
  · cases h
  · exact h

section

variable (H : HashOrder) (feature : Option Profile)

mutual

/-- `process`. -/
def process : Json → JsonParser → Except Fault JsonParser
  | .obj members, s =>
    match tryParse H feature members with
    | .error f => .error f
    | .ok (some e) => .ok (s.addEntry e)
    | .ok none => processMembers members s
  | .arr elems, s => processElems elems s
  | _, s => .ok s

def processElems : List Json → JsonParser → Except Fault JsonParser
  | [], s => .ok s
  | j :: js, s =>
    match process j s with
    | .error f => .error f
    | .ok s => processElems js s

def processMembers : List (Str × Json) → JsonParser → Except Fault JsonParser
  | [], s => .ok s
  | m :: ms, s =>
    match process m.2 s with
    | .error f => .error f
    | .ok s => processMembers ms s

end

mutual

/-- The entries that a document yields: a profile object ends the search, other values are searched. -/
def entries : Json → Except Fault (List (Profile × Option Profile))
  | .obj members =>
    match tryParse H feature members with
    | .error f => .error f
    | .ok (some e) => .ok [e]
    | .ok none => entriesMembers members
  | .arr elems => entriesElems elems
  | _ => .ok []

def entriesElems : List Json → Except Fault (List (Profile × Option Profile))
  | [] => .ok []
  | j :: js =>
    match entries j with
    | .error f => .error f
    | .ok es => (entriesElems js).map (es ++ ·)

def entriesMembers : List (Str × Json) → Except Fault (List (Profile × Option Profile))
  | [] => .ok []
  | m :: ms =>
    match entries m.2 with
    | .error f => .error f
    | .ok es => (entriesMembers ms).map (es ++ ·)

end

/-- Only plugin options are rejected. -/
theorem parseProfile_error {json : Members} {fallback : Bool} {f : Fault}
    (h : parseProfile H feature json fallback = .error f) : f = .controlCharacters := by
  unfold parseProfile at h
  simp only at h
  split at h
  · cases h
  · cases hp : pluginOf H json with
    | ok plugin =>
      rw [hp] at h
      cases h
    | error g =>
      rw [hp] at h
      cases h
      unfold pluginOf at hp
      simp only at hp
      split at hp
      · cases hp
      · split at hp
        · cases hp
          rfl
        · cases hp

/-- What `tryParse` makes of the results of `parseProfile`. -/
theorem tryParse_cases (json : Members) :
    (∃ json' fallback f, parseProfile H feature json' fallback = .error f ∧
      tryParse H feature json = .error f) ∨
    tryParse H feature json = .ok none ∨
    ∃ p q, parseProfile H feature json false = .ok (some p) ∧
      (∀ f, q = some f → ∃ json', parseProfile H feature json' true = .ok (some f)) ∧
      tryParse H feature json = .ok (some (p, q)) := by
  unfold tryParse
  cases hp : parseProfile H feature json false with
  | error g => exact Or.inl ⟨json, false, g, hp, rfl⟩
  | ok p =>
    cases p with
    | none => exact Or.inr (Or.inl rfl)
    | some p =>
      simp only [bind, Except.bind]
      split
      · rename_i fb hfb
        cases hq : parseProfile H feature fb true with
        | error g => exact Or.inl ⟨fb, true, g, hq, rfl⟩
        | ok q => exact Or.inr (Or.inr ⟨p, q, rfl, fun f hf => ⟨fb, by rw [hq, hf]⟩, rfl⟩)
      · exact Or.inr (Or.inr ⟨p, none, rfl, fun f hf => (by cases hf), rfl⟩)

theorem tryParse_error {json : Members} {f : Fault} (h : tryParse H feature json = .error f) :
    f = .controlCharacters := by
  rcases tryParse_cases H feature json with ⟨json', fallback, g, hg, heq⟩ | heq | ⟨p, q, -, -, heq⟩
  · rw [heq] at h
    cases h
    exact parseProfile_error H feature hg
  · rw [heq] at h
    cases h
  · rw [heq] at h
    cases h

/-- A property of the results of single objects that is kept when results are put together. -/
structure Collects (Q : Except Fault (List (Profile × Option Profile)) → Prop) : Prop where
  nil : Q (.ok [])
  error : ∀ members f, tryParse H feature members = .error f → Q (.error f)
  entry : ∀ members e, tryParse H feature members = .ok (some e) → Q (.ok [e])
  append : ∀ es r, Q (.ok es) → Q r → Q (r.map (es ++ ·))

section Rule

variable {Q : Except Fault (List (Profile × Option Profile)) → Prop}

mutual

/-- **Such a property holds of every document.** -/
theorem entries_rule (h : Collects H feature Q) : ∀ j : Json, Q (entries H feature j)
  | .obj members => by
    rw [entries]
    cases ht : tryParse H feature members with
    | error f => exact h.error members f ht
    | ok e =>
      cases e with
      | some e => exact h.entry members e ht
      | none => exact entriesMembers_rule h members
  | .arr elems => by
    rw [entries]
    exact entriesElems_rule h elems
  | .null => h.nil
  | .bool _ => h.nil
  | .num _ _ => h.nil
  | .str _ => h.nil

theorem entriesElems_rule (h : Collects H feature Q) : ∀ js : List Json, Q (entriesElems H feature js)
  | [] => h.nil
  | j :: js => by
    have hj := entries_rule h j
    rw [entriesElems]
    cases hentries : entries H feature j with
    | error f => rwa [hentries] at hj
    | ok es =>
      rw [hentries] at hj
      exact h.append es _ hj (entriesElems_rule h js)

theorem entriesMembers_rule (h : Collects H feature Q) :
    ∀ ms : List (Str × Json), Q (entriesMembers H feature ms)
  | [] => h.nil
  | (k, j) :: ms => by
    have hj := entries_rule h j
    rw [entriesMembers]
    cases hentries : entries H feature j with
    | error f => rwa [hentries] at hj
    | ok es =>
      rw [hentries] at hj
      exact h.append es _ hj (entriesMembers_rule h ms)

end

end Rule

theorem entries_error (j : Json) {f : Fault} (h : entries H feature j = .error f) : f = .controlCharacters := by
  have hrule : Collects H feature fun r => ∀ f, r = .error f → f = .controlCharacters := by
    refine ⟨?_, ?_, ?_, ?_⟩
    · rintro f ⟨⟩
    · rintro members g ht f ⟨⟩
      exact tryParse_error H feature ht
    · rintro members e - f ⟨⟩
    · rintro es (g | es') - hr f ⟨⟩
      exact hr g rfl
  exact entries_rule H feature hrule j f h

/-- The entries, added to what was collected before. -/
def collect (s : JsonParser) (es : Except Fault (List (Profile × Option Profile))) : Except Fault JsonParser :=
  es.map (·.foldl addEntry s)

theorem collect_append (s : JsonParser) (es : List (Profile × Option Profile))
    (r : Except Fault (List (Profile × Option Profile))) :
    collect s (r.map (es ++ ·)) = collect (es.foldl addEntry s) r := by
  cases r with
  | error f => rfl
  | ok es' => simp [collect, Except.map]

mutual

/-- **`process` adds the entries of the document.** -/
theorem process_eq : ∀ (j : Json) (s : JsonParser),
    process H feature j s = collect s (entries H feature j)
  | .obj members, s => by
    rw [process, entries]
    cases tryParse H feature members with
    | error f => rfl
    | ok e =>
      cases e with
      | some e => rfl
      | none => exact processMembers_eq members s
  | .arr elems, s => by
    rw [process, entries]
    exact processElems_eq elems s
  | .null, s => rfl
  | .bool b, s => rfl
  | .num t i, s => rfl
  | .str t, s => rfl

theorem processElems_eq : ∀ (js : List Json) (s : JsonParser),
    processElems H feature js s = collect s (entriesElems H feature js)
  | [], s => rfl
  | j :: js, s => by
    rw [processElems, entriesElems, process_eq j s]
    cases entries H feature j with
    | error f => rfl
    | ok es => exact (processElems_eq js _).trans (collect_append s es _).symm

theorem processMembers_eq : ∀ (ms : List (Str × Json)) (s : JsonParser),
    processMembers H feature ms s = collect s (entriesMembers H feature ms)
  | [], s => rfl
  | (k, j) :: ms, s => by
    rw [processMembers, entriesMembers, process_eq j s]
    cases entries H feature j with
    | error f => rfl
    | ok es => exact (processMembers_eq ms _).trans (collect_append s es _).symm

end

end

end JsonParser

end BlackButton
