import BlackButton.Database.Manager

/-!
# JSON backups (`Profile.toJson`, `ProfileManager.serializeToJson`)

* `tryParse_toJson`: the object that a profile is exported as is accepted, with the
  settings of the profile.
* `backup_roundtrip`: **importing a backup into an empty table gives the profiles
  back**, one row each, in their order; the fallbacks that refer to members find them.
-/

namespace BlackButton

open Text JsonParser

namespace Profile

/-! ## Export -/

/-- `JSONObject.put`, where a missing value is not put. -/
def member (key : String) (value : Option Json) (rest : Members) : Members :=
  match value with
  | none => rest
  | some j => (key.toList, j) :: rest

/-- The members that `toJson` always puts. -/
def serverMembers (p : Profile) (rest : Members) : Members :=
  member "server" (some (.str p.host)) <|
  member "server_port" (some (.num (intText p.remotePort) (some p.remotePort))) <|
  member "password" (some (.str p.password)) <|
  member "method" (some (.str p.method)) rest

/-- The object `proxy_apps`. -/
def proxyAppsMembers (p : Profile) : Members :=
  member "enabled" (some (.bool p.proxyApps)) <|
  member "bypass" (if p.proxyApps then some (.bool p.bypass) else none) <|
  member "android_list" (if p.proxyApps then some (.arr ((p.individual.splitOn '\n').map .str)) else none) []

/-- The object `udp_fallback`: a member of the backup without plugin. -/
def fallbackMember (lookup : ℤ → Option Profile) (p : Profile) : Option Json :=
  match p.udpFallback.bind lookup with
  | none => none
  | some fallback => if fallback.noPlugin then some (.obj (serverMembers fallback [])) else none

/-- The members of `toJson` for the selected plugin options `o`. -/
def jsonMembers (H : HashOrder) (lookup : ℤ → Option Profile) (p : Profile) (o : PluginOptions) : Members :=
  serverMembers p <|
  member "plugin" (if o.id = [] then none else some (.str o.id)) <|
  member "plugin_opts" (if o.id = [] then none else some (.str (PluginOptions.toString H true o))) <|
  member "remarks" (p.name.map .str) <|
  member "route" (some (.str p.route)) <|
  member "remote_dns" (some (.str p.remoteDns)) <|
  member "ipv6" (some (.bool p.ipv6)) <|
  member "metered" (some (.bool p.metered)) <|
  member "proxy_apps" (some (.obj (proxyAppsMembers p))) <|
  member "udpdns" (some (.bool p.udpdns)) <|
  member "udp_fallback" (fallbackMember lookup p) []

/-- `toJson(profiles)`. -/
def toJson (H : HashOrder) (defaultConfig : Str → Option Str) (lookup : ℤ → Option Profile) (p : Profile) :
    Option Json :=
  (selectedOptions defaultConfig p).map fun o => .obj (jsonMembers H lookup p o)

end Profile

/-- `ProfileManager.serializeToJson`. -/
def serializeToJson (H : HashOrder) (defaultConfig : Str → Option Str) (profiles : List Profile) :
    Option Json :=
  let lookup := Assoc.associateBy Profile.id profiles
  (profiles.mapM (Profile.toJson H defaultConfig (Assoc.get lookup))).map .arr

namespace Backup

open Profile

theorem field_member (k k' : String) (v : Option Json) (m : Members) :
    field (member k v m) k' = if k = k' then v.or (field m k') else field m k' := by
  unfold field member
  cases v with
  | none => simp
  | some j =>
    rw [Assoc.get_cons]
    simp [String.toList_inj]

@[simp] theorem field_nil (k : String) : field [] k = none := rfl

/-- A profile that can be exported and imported. -/
structure Exportable (defaultConfig : Str → Option Str) (p : Profile) : Prop where
  host : p.host ≠ []
  remotePort : 0 < p.remotePort
  password : p.password ≠ []
  method : p.method ≠ []
  -- the plugin string is accepted, and its options have no control characters
  plugin : ∃ c, PluginConfiguration.parse (p.plugin.getD []) = some c
  options : ∀ o, selectedOptions defaultConfig p = some o →
    (∀ c ∈ o.id, isISOControl c = false) ∧
    ∀ e ∈ o.entries, (∀ c ∈ e.1, isISOControl c = false) ∧ ∀ v, e.2 = some v → ∀ c ∈ v, isISOControl c = false

/-- The imported profile agrees with the exported one. -/
structure Restored (defaultConfig : Str → Option Str) (p q : Profile) : Prop where
  name : q.name = p.name
  host : q.host = p.host
  remotePort : q.remotePort = p.remotePort
  password : q.password = p.password
  method : q.method = p.method
  route : q.route = p.route
  remoteDns : q.remoteDns = p.remoteDns
  ipv6 : q.ipv6 = p.ipv6
  metered : q.metered = p.metered
  udpdns : q.udpdns = p.udpdns
  proxyApps : q.proxyApps = p.proxyApps
  apps : p.proxyApps = true → q.bypass = p.bypass ∧ q.individual = p.individual
  -- the plugin, if one is selected
  plugin : ∃ o, selectedOptions defaultConfig p = some o ∧
    if o.id = [] then q.plugin = none
    else ∃ o', PluginOptions.parse q.plugin = some o' ∧ PluginOptions.Equals o' o

/-- The selected options of an exportable profile can be printed. -/
theorem Exportable.printable {defaultConfig : Str → Option Str} {p : Profile}
    (h : Exportable defaultConfig p) :
    ∃ o, selectedOptions defaultConfig p = some o ∧ PluginOptions.Printable o ∧
      (p.noPlugin = true → o.id = []) := by
  obtain ⟨c, hc⟩ := h.plugin
  obtain ⟨o, ho, hid, hw⟩ := PluginConfiguration.getOptions_selected hc defaultConfig
  have hsel : selectedOptions defaultConfig p = some o := by
    unfold selectedOptions
    rw [hc]
    exact ho
  obtain ⟨h1, h2⟩ := h.options o hsel
  refine ⟨o, hsel, ⟨h1, fun e he => (h2 e he).1, fun e he => (h2 e he).2, hw.writable⟩, ?_⟩
  intro hno
  have hempty : p.plugin.getD [] = [] := by simpa [noPlugin] using hno
  rw [hempty] at hc
  cases hc
  exact hid

/-- The plugin that is imported: it stands for the same options. -/
theorem pluginOf_jsonMembers (H : HashOrder) (lookup : ℤ → Option Profile) (p : Profile) {o : PluginOptions}
    (ho : PluginOptions.Printable o) :
    ∃ plugin, pluginOf H (jsonMembers H lookup p o) = .ok plugin ∧
      if o.id = [] then plugin = none
      else ∃ o', PluginOptions.parse plugin = some o' ∧ PluginOptions.Equals o' o := by
  have hid : Json.optString (field (jsonMembers H lookup p o) "plugin") =
      if o.id = [] then none else some o.id := by
    by_cases h : o.id = []
    · simp [jsonMembers, serverMembers, field_member, h, Json.optString]
    · simp [jsonMembers, serverMembers, field_member, h, Json.optString]
  unfold pluginOf
  simp only [hid]
  by_cases h : o.id = []
  · simp only [h, if_true, Option.getD_none]
    exact ⟨none, rfl, rfl⟩
  · have hopts : Json.optString (field (jsonMembers H lookup p o) "plugin_opts") =
        some (PluginOptions.toString H true o) := by
      simp [jsonMembers, serverMembers, field_member, h, Json.optString]
    obtain ⟨o₁, hparse, hid₁, hperm₁⟩ := PluginOptions.parseWith_toString H ho
    obtain ⟨o₂, hparse₂, hid₂, hperm₂⟩ :=
      PluginOptions.parse_toString H (ho.perm hid₁ hperm₁) (by rw [hid₁]; exact h)
    simp only [h, if_false, Option.getD_some, hopts, hparse]
    exact ⟨_, rfl, o₂, hparse₂, PluginOptions.Equals.of_perm (hid₂.trans hid₁) (hperm₂.trans hperm₁)⟩

/-- The list of apps is read back. -/
theorem android_list (s : Str) :
    List.intercalate ['\n'] (((s.splitOn '\n').map Json.str).filterMap fun e => Json.optString (some e)) = s := by
  have hmap : ((s.splitOn '\n').map Json.str).filterMap (fun e => Json.optString (some e)) =
      s.splitOn '\n' := by
    rw [List.filterMap_map]
    exact List.filterMap_some
  rw [hmap]
  exact List.intercalate_splitOn '\n'

/-- The profile that is imported for `p`, with the plugin string `plugin`. -/
def imported (p : Profile) (plugin : Option Str) : Profile where
  name := p.name
  host := p.host
  remotePort := p.remotePort
  password := p.password
  method := p.method
  route := p.route
  remoteDns := p.remoteDns
  proxyApps := p.proxyApps
  bypass := p.proxyApps && p.bypass
  udpdns := p.udpdns
  ipv6 := p.ipv6
  metered := p.metered
  individual := if p.proxyApps then p.individual else []
  plugin := plugin

theorem optString_str (s : Str) : Json.optString (some (.str s)) = some s := rfl

theorem optBoolean_bool (b : Bool) : Json.optBoolean (some (.bool b)) = some b := rfl

theorem optInt_num (t : Str) (i : Option ℤ) : Json.optInt (some (.num t i)) = i := rfl

theorem mainSettings_jsonMembers (H : HashOrder) (lookup : ℤ → Option Profile) (p : Profile)
    (o : PluginOptions) (plugin : Option Str) :
    mainSettings (jsonMembers H lookup p o)
      { host := p.host, remotePort := p.remotePort, password := p.password, method := p.method,
        plugin := plugin, name := p.name, route := p.route } = imported p plugin := by
  have hdns : Json.optString (field (jsonMembers H lookup p o) "remote_dns") = some p.remoteDns := by
    simp [jsonMembers, serverMembers, field_member, optString_str]
  have hv6 : Json.optBoolean (field (jsonMembers H lookup p o) "ipv6") = some p.ipv6 := by
    simp [jsonMembers, serverMembers, field_member, optBoolean_bool]
  have hmet : Json.optBoolean (field (jsonMembers H lookup p o) "metered") = some p.metered := by
    simp [jsonMembers, serverMembers, field_member, optBoolean_bool]
  have hudp : Json.optBoolean (field (jsonMembers H lookup p o) "udpdns") = some p.udpdns := by
    simp [jsonMembers, serverMembers, field_member, optBoolean_bool]
  have happs : field (jsonMembers H lookup p o) "proxy_apps" = some (.obj (proxyAppsMembers p)) := by
    simp [jsonMembers, serverMembers, field_member]
  have henabled : Json.optBoolean (field (proxyAppsMembers p) "enabled") = some p.proxyApps := by
    simp [proxyAppsMembers, field_member, optBoolean_bool]
  unfold mainSettings imported
  simp only [hdns, hv6, hmet, hudp, happs, henabled, Option.getD_some]
  cases hp : p.proxyApps with
  | true =>
    have hby : Json.optBoolean (field (proxyAppsMembers p) "bypass") = some p.bypass := by
      simp [proxyAppsMembers, field_member, optBoolean_bool, hp]
    have hlist : field (proxyAppsMembers p) "android_list" =
        some (.arr ((p.individual.splitOn '\n').map .str)) := by
      simp [proxyAppsMembers, field_member, hp]
    simp only [hby, hlist, android_list, Option.getD_some, Bool.true_and, if_true]
  | false =>
    have hby : Json.optBoolean (field (proxyAppsMembers p) "bypass") = none := by
      simp [proxyAppsMembers, field_member, hp, Json.optBoolean]
    have hlist : field (proxyAppsMembers p) "android_list" = none := by
      simp [proxyAppsMembers, field_member, hp]
    simp [hby, hlist]

/-- An object with the four members of a server is accepted. -/
theorem parseProfile_server (H : HashOrder) (p : Profile) (rest : Members) (fallback : Bool)
    (hhost : p.host ≠ []) (hport : 0 < p.remotePort) (hpw : p.password ≠ []) (hm : p.method ≠ []) :
    parseProfile H none (serverMembers p rest) fallback =
      (pluginOf H (serverMembers p rest)).map fun plugin =>
        let q : Profile :=
          { host := p.host, remotePort := p.remotePort, password := p.password, method := p.method,
            plugin := plugin, name := Json.optString (field (serverMembers p rest) "remarks"),
            route := (Json.optString (field (serverMembers p rest) "route")).getD "all".toList }
        some (if fallback then q else mainSettings (serverMembers p rest) q) := by
  have h1 : Json.optString (field (serverMembers p rest) "server") = some p.host := by
    simp [serverMembers, field_member, optString_str]
  have h2 : Json.optInt (field (serverMembers p rest) "server_port") = some p.remotePort := by
    simp [serverMembers, field_member, optInt_num]
  have h3 : Json.optString (field (serverMembers p rest) "password") = some p.password := by
    simp [serverMembers, field_member, optString_str]
  have h4 : Json.optString (field (serverMembers p rest) "method") = some p.method := by
    simp [serverMembers, field_member, optString_str]
  have hok : ¬(p.host = [] ∨ p.remotePort ≤ 0 ∨ p.password = [] ∨ p.method = []) := by
    rintro (h | h | h | h)
    · exact hhost h
    · omega
    · exact hpw h
    · exact hm h
  unfold parseProfile
  simp only [h1, h2, h3, h4, Option.getD_some, hok, if_false]
  cases pluginOf H (serverMembers p rest) with
  | error f => rfl
  | ok plugin => rfl

/-- The profile that a fallback object is read as. -/
def fallbackOf (f : Profile) : Profile :=
  { host := f.host, remotePort := f.remotePort, password := f.password, method := f.method, name := none }

/-- The fallback that is read for `p`. -/
def importedFallback (lookup : ℤ → Option Profile) (p : Profile) : Option Profile :=
  match p.udpFallback.bind lookup with
  | none => none
  | some f => if f.noPlugin then some (fallbackOf f) else none

theorem parseProfile_fallback (H : HashOrder) {defaultConfig : Str → Option Str} {f : Profile}
    (hf : Exportable defaultConfig f) :
    parseProfile H none (serverMembers f []) true = .ok (some (fallbackOf f)) := by
  have hplugin : pluginOf H (serverMembers f []) = .ok none := by
    have hid : Json.optString (field (serverMembers f []) "plugin") = none := by
      simp [serverMembers, field_member, Json.optString]
    unfold pluginOf
    simp only [hid, Option.getD_none, if_true]
  have hname : field (serverMembers f []) "remarks" = none := by simp [serverMembers, field_member]
  have hroute : field (serverMembers f []) "route" = none := by simp [serverMembers, field_member]
  rw [parseProfile_server H f [] true hf.host hf.remotePort hf.password hf.method, hplugin, hname, hroute]
  rfl

/-- **An exported object is accepted**, with the settings of the profile and its fallback. -/
theorem tryParse_toJson (H : HashOrder) {defaultConfig : Str → Option Str} {lookup : ℤ → Option Profile}
    {p : Profile} (h : Exportable defaultConfig p)
    (hlookup : ∀ id f, lookup id = some f → Exportable defaultConfig f) :
    ∃ members plugin, toJson H defaultConfig lookup p = some (.obj members) ∧
      tryParse H none members = .ok (some (imported p plugin, importedFallback lookup p)) ∧
      Restored defaultConfig p (imported p plugin) ∧ (p.noPlugin = true → plugin = none) := by
  obtain ⟨o, hsel, hprint, hno⟩ := h.printable
  obtain ⟨plugin, hplugin, hequal⟩ := pluginOf_jsonMembers H lookup p hprint
  refine ⟨jsonMembers H lookup p o, plugin, by unfold toJson; rw [hsel]; rfl, ?_, ?_, ?_⟩
  · have hname : Json.optString (field (jsonMembers H lookup p o) "remarks") = p.name := by
      cases hn : p.name with
      | none => simp [jsonMembers, serverMembers, field_member, hn, Json.optString]
      | some n => simp [jsonMembers, serverMembers, field_member, hn, optString_str]
    have hroute : Json.optString (field (jsonMembers H lookup p o) "route") = some p.route := by
      simp [jsonMembers, serverMembers, field_member, optString_str]
    have hfb : field (jsonMembers H lookup p o) "udp_fallback" = fallbackMember lookup p := by
      simp [jsonMembers, serverMembers, field_member]
    have hmain : parseProfile H none (jsonMembers H lookup p o) false = .ok (some (imported p plugin)) := by
      unfold jsonMembers at hplugin hname hroute ⊢
      rw [parseProfile_server H p _ false h.host h.remotePort h.password h.method, hplugin, hname, hroute]
      exact congrArg (fun q => Except.ok (some q)) (mainSettings_jsonMembers H lookup p o plugin)
    unfold tryParse
    rw [hmain, hfb]
    unfold fallbackMember importedFallback
    simp only [bind, Except.bind]
    cases hu : p.udpFallback.bind lookup with
    | none => rfl
    | some f =>
      have hf : Exportable defaultConfig f := by
        obtain ⟨id, -, hid⟩ := Option.bind_eq_some_iff.1 hu
        exact hlookup id f hid
      by_cases hfp : f.noPlugin = true
      · simp only [hfp, if_true, parseProfile_fallback H hf]
      · simp only [hfp, if_false, Bool.false_eq_true]
  · refine ⟨rfl, rfl, rfl, rfl, rfl, rfl, rfl, rfl, rfl, rfl, rfl, ?_, o, hsel, hequal⟩
    intro hp
    simp [imported, hp]
  · intro hp
    rw [if_pos (hno hp)] at hequal
    exact hequal

/-! ## Import -/

/-- The settings of a profile: what a backup is about. -/
def settings (p : Profile) : Profile := { p with id := 0, userOrder := 0, udpFallback := none }

/-- With `createProfile` as callback, the objects are the rows. -/
def Mirrors (w : World Unit) : Prop := w.objects = w.table.rows

/-- The keys of the map are profiles that are still to be created, or that were; its values are
fallbacks that satisfy `F`. -/
def Ready (F : Profile → Prop) (w : World Unit) (map : List (Profile × Profile)) (rest : List Profile) : Prop :=
  ∀ e ∈ map, (e.1 ∈ rest ∨ e.1.id ∈ w.table.ids) ∧ F e.2

theorem createNext_createProfile {F : Profile → Prop} {w : World Unit} {map : List (Profile × Profile)}
    {p : Profile} {rest : List Profile} (hw : Mirrors w) (hr : Ready F w map (p :: rest)) :
    let s := createNext World.createProfile (w, map) p
    Mirrors s.1 ∧ Ready F s.1 s.2 rest ∧
      s.1.table.rows.map settings = w.table.rows.map settings ++ [settings p] := by
  have hmirror : Mirrors (w.createProfile p).1 := by
    unfold Mirrors World.createProfile
    simp only
    rw [hw]
    rfl
  have hids : (w.createProfile p).1.table.ids = w.table.ids ++ [w.table.seq + 1] := Table.ids_create _ _
  have hrows : (w.createProfile p).1.table.rows.map settings = w.table.rows.map settings ++ [settings p] := by
    simp [World.createProfile, Table.create, settings, Profile.withId, Profile.withOrder]
  have hrest : Ready F (w.createProfile p).1 (Assoc.remove map p) rest := by
    intro e he
    unfold Assoc.remove at he
    rw [List.mem_filter] at he
    have hne : e.1 ≠ p := by simpa using he.2
    obtain ⟨hk, hF⟩ := hr e he.1
    refine ⟨?_, hF⟩
    rcases hk with hk | hk
    · rcases List.mem_cons.1 hk with hk | hk
      · exact absurd hk hne
      · exact Or.inl hk
    · right
      rw [hids]
      exact List.mem_append_left _ hk
  unfold createNext
  simp only
  cases hget : Assoc.get map p with
  | none => exact ⟨hmirror, hrest, hrows⟩
  | some f =>
    refine ⟨hmirror, ?_, hrows⟩
    intro e he
    rcases Assoc.mem_put he with he | rfl
    · exact hrest e he
    · refine ⟨Or.inr ?_, (hr _ (Assoc.mem_of_get hget)).2⟩
      cases hobj : (w.createProfile p).1.object (w.createProfile p).2 with
      | none =>
        -- the object was just added
        unfold World.object at hobj
        rw [List.find?_eq_none] at hobj
        have hnone := hobj _ (List.mem_append_right _ List.mem_cons_self)
        simp [World.createProfile] at hnone
      | some o =>
        obtain ⟨-, hid⟩ := World.object_eq_some hobj
        simp only [Option.getD_some, hid]
        rw [hids]
        exact List.mem_append_right _ List.mem_cons_self

theorem createAll_createProfile {F : Profile → Prop} (ps : List Profile) :
    ∀ {w : World Unit} {map : List (Profile × Profile)}, Mirrors w → Ready F w map ps →
      let s := ps.foldl (createNext World.createProfile) (w, map)
      Mirrors s.1 ∧ (∀ e ∈ s.2, e.1.id ∈ s.1.table.ids ∧ F e.2) ∧
        s.1.table.rows.map settings = w.table.rows.map settings ++ ps.map settings := by
  induction ps with
  | nil =>
    intro w map hw hr
    refine ⟨hw, ?_, by simp⟩
    intro e he
    obtain ⟨hk, hF⟩ := hr e he
    rcases hk with hk | hk
    · cases hk
    · exact ⟨hk, hF⟩
  | cons p ps ih =>
    intro w map hw hr
    obtain ⟨hw', hr', hrows⟩ := createNext_createProfile hw hr
    obtain ⟨hw'', hr'', hrows'⟩ := ih hw' hr'
    refine ⟨hw'', hr'', ?_⟩
    rw [List.foldl_cons, hrows', hrows]
    simp

/-- Resolving a fallback that the table has changes nothing but the `udpFallback` of the profile. -/
theorem link_createProfile {w : World Unit} {profiles : List Profile} {e : Profile × Profile} (hw : Mirrors w)
    (hid : e.1.id ∈ w.table.ids) (hmatch : ∃ r ∈ profiles, matching e.2 r = true) :
    ∃ w', link World.createProfile profiles w e = (w', none) ∧ Mirrors w' ∧ w'.table.ids = w.table.ids ∧
      w'.table.rows.map settings = w.table.rows.map settings := by
  obtain ⟨m, hm⟩ : ∃ m, profiles.find? (matching e.2) = some m := by
    rw [← Option.isSome_iff_exists, List.find?_isSome]
    exact hmatch
  have htarget : target World.createProfile profiles w e.2 = (w, m.id) := by
    unfold target
    rw [hm]
  obtain ⟨r, hr, hrid⟩ := Table.mem_ids.1 hid
  have hobj : w.object e.1.id = some r := by
    rw [← hrid]
    exact World.object_of_mem (by rw [hw]; exact w.table.nodup) (by rw [hw]; exact hr)
  have hset : (replace w.table.rows (r.withFallback m.id)).map settings = w.table.rows.map settings := by
    unfold replace
    rw [List.map_map]
    refine List.map_congr_left ?_
    intro q hq
    by_cases h : q.id = r.id
    · rw [Table.eq_of_id hq hr h]
      simp [settings, Profile.withFallback]
    · simp [h]
  refine ⟨⟨w.table.update (r.withFallback m.id), replace w.objects (r.withFallback m.id), ()⟩, ?_, ?_, ?_, hset⟩
  · unfold link
    simp only [htarget, hobj, Option.getD_some]
    unfold World.updateProfile
    rw [if_pos]
    · rfl
    · show r.id ∈ w.table.ids
      rw [hrid]
      exact hid
  · unfold Mirrors
    simp only
    rw [hw]
    rfl
  · exact Table.ids_update _ _

theorem linkAll_createProfile {profiles : List Profile} (es : List (Profile × Profile)) :
    ∀ {w : World Unit}, Mirrors w →
      (∀ e ∈ es, e.1.id ∈ w.table.ids ∧ ∃ r ∈ profiles, matching e.2 r = true) →
      ∃ w', linkAll World.createProfile profiles es w = (w', none) ∧
        w'.table.rows.map settings = w.table.rows.map settings := by
  induction es with
  | nil =>
    intro w _ _
    exact ⟨w, rfl, rfl⟩
  | cons e es ih =>
    intro w hw hes
    obtain ⟨hid, hmatch⟩ := hes e List.mem_cons_self
    obtain ⟨w', hstep, hw', hids, hrows⟩ := link_createProfile hw hid hmatch
    obtain ⟨w'', hrest, hrows'⟩ := ih hw' (by
      intro x hx
      rw [hids]
      exact hes x (List.mem_cons_of_mem e hx))
    refine ⟨w'', ?_, hrows'.trans hrows⟩
    rw [linkAll, hstep]
    exact hrest

/-! ## The round trip -/

/-- What is read for the exported objects. -/
def Reads (defaultConfig : Str → Option Str) (lookup : ℤ → Option Profile) (p : Profile)
    (e : Profile × Option Profile) : Prop :=
  ∃ plugin, e = (imported p plugin, importedFallback lookup p) ∧
    Restored defaultConfig p (imported p plugin) ∧ (p.noPlugin = true → plugin = none)

theorem entries_toJson (H : HashOrder) {defaultConfig : Str → Option Str} {lookup : ℤ → Option Profile}
    (hlookup : ∀ id f, lookup id = some f → Exportable defaultConfig f) {ps : List Profile}
    (hps : ∀ p ∈ ps, Exportable defaultConfig p) :
    ∃ jsons es, ps.mapM (toJson H defaultConfig lookup) = some jsons ∧
      entriesElems H none jsons = .ok es ∧ List.Forall₂ (Reads defaultConfig lookup) ps es := by
  induction ps with
  | nil => exact ⟨[], [], rfl, rfl, List.Forall₂.nil⟩
  | cons p ps ih =>
    obtain ⟨members, plugin, hjson, htry, hrest, hno⟩ := tryParse_toJson H (hps p List.mem_cons_self) hlookup
    obtain ⟨jsons, es, hjsons, hes, hall⟩ := ih (fun q hq => hps q (List.mem_cons_of_mem p hq))
    refine ⟨.obj members :: jsons, (imported p plugin, importedFallback lookup p) :: es, ?_, ?_, ?_⟩
    · rw [List.mapM_cons, hjson, hjsons]
      rfl
    · rw [entriesElems, entries, htry, hes]
      rfl
    · exact List.Forall₂.cons ⟨plugin, rfl, hrest, hno⟩ hall

theorem Restored.of_settings {defaultConfig : Str → Option Str} {p q r : Profile}
    (h : Restored defaultConfig p q) (hs : settings r = settings q) : Restored defaultConfig p r := by
  have hplugin : (settings r).plugin = (settings q).plugin := congrArg Profile.plugin hs
  have hbypass : (settings r).bypass = (settings q).bypass := congrArg Profile.bypass hs
  have hindividual : (settings r).individual = (settings q).individual := congrArg Profile.individual hs
  refine ⟨(congrArg Profile.name hs).trans h.name, (congrArg Profile.host hs).trans h.host,
    (congrArg Profile.remotePort hs).trans h.remotePort, (congrArg Profile.password hs).trans h.password,
    (congrArg Profile.method hs).trans h.method, (congrArg Profile.route hs).trans h.route,
    (congrArg Profile.remoteDns hs).trans h.remoteDns, (congrArg Profile.ipv6 hs).trans h.ipv6,
    (congrArg Profile.metered hs).trans h.metered, (congrArg Profile.udpdns hs).trans h.udpdns,
    (congrArg Profile.proxyApps hs).trans h.proxyApps, ?_, ?_⟩
  · intro hp
    exact ⟨hbypass.trans (h.apps hp).1, hindividual.trans (h.apps hp).2⟩
  · obtain ⟨o, ho, hq⟩ := h.plugin
    refine ⟨o, ho, ?_⟩
    rw [show r.plugin = q.plugin from hplugin]
    exact hq

/-- Rows with the settings of what was read are restored. -/
theorem forall₂_restored {defaultConfig : Str → Option Str} {lookup : ℤ → Option Profile} {ps : List Profile}
    {es : List (Profile × Option Profile)} (h : List.Forall₂ (Reads defaultConfig lookup) ps es) :
    ∀ {rows : List Profile}, rows.map settings = (es.map Prod.fst).map settings →
      List.Forall₂ (Restored defaultConfig) ps rows := by
  induction h with
  | nil =>
    intro rows hrows
    rw [List.map_nil, List.map_nil, List.map_eq_nil_iff] at hrows
    rw [hrows]
    exact List.Forall₂.nil
  | cons hpe _ ih =>
    intro rows hrows
    obtain ⟨plugin, rfl, hrest, -⟩ := hpe
    cases rows with
    | nil => simp at hrows
    | cons r rows =>
      simp only [List.map_cons, List.cons.injEq] at hrows
      exact List.Forall₂.cons (hrest.of_settings hrows.1) (ih (by simpa using hrows.2))

/-- A fallback that refers to a member finds the row of the member. -/
theorem matching_fallbackOf {f r : Profile} (hs : settings r = settings (imported f none)) :
    matching (fallbackOf f) r = true := by
  have hhost : r.host = f.host :=
    show (settings r).host = (settings (imported f none)).host by rw [hs]
  have hport : r.remotePort = f.remotePort :=
    show (settings r).remotePort = (settings (imported f none)).remotePort by rw [hs]
  have hpw : r.password = f.password :=
    show (settings r).password = (settings (imported f none)).password by rw [hs]
  have hm : r.method = f.method :=
    show (settings r).method = (settings (imported f none)).method by rw [hs]
  have hplugin : r.plugin = none :=
    show (settings r).plugin = (settings (imported f none)).plugin by rw [hs]
  simp [matching, fallbackOf, hhost, hport, hpw, hm, noPlugin, hplugin]

/-- **The backup round trip.** The profiles of a backup that is imported into an empty table are
there, one row each, in their order, and nothing else is. -/
theorem backup_roundtrip (H : HashOrder) (defaultConfig : Str → Option Str) (ps : List Profile)
    (hps : ∀ p ∈ ps, Exportable defaultConfig p) (t : Table) (ht : t.rows = []) :
    ∃ json w, serializeToJson H defaultConfig ps = some json ∧
      parseJson World.createProfile H none json ⟨t, [], ()⟩ = (w, none) ∧
      List.Forall₂ (Restored defaultConfig) ps w.table.rows := by
  have hlookup : ∀ id f, Assoc.get (Assoc.associateBy Profile.id ps) id = some f → f ∈ ps :=
    fun id f hf => (Assoc.mem_associateBy (Assoc.mem_of_get hf)).2
  obtain ⟨jsons, es, hjsons, hes, hall⟩ := entries_toJson H (fun id f hf => hps f (hlookup id f hf)) hps
  obtain ⟨hto, hfrom⟩ := exists_of_forall₂ hall
  -- every fallback is one of a member without plugin
  have hready : Ready (fun F => ∃ f ∈ ps, f.noPlugin = true ∧ F = fallbackOf f) ⟨t, [], ()⟩
      (es.foldl addEntry .new).fallbackMap (es.map Prod.fst) := by
    intro e he
    have hmem := mem_fallbackMap he
    refine ⟨Or.inl (List.mem_map.2 ⟨_, hmem, rfl⟩), ?_⟩
    obtain ⟨p, hp, plugin, heq, -, -⟩ := hfrom _ hmem
    have hfb : importedFallback (Assoc.get (Assoc.associateBy Profile.id ps)) p = some e.2 :=
      (Prod.mk.inj heq).2.symm
    unfold importedFallback at hfb
    cases hu : p.udpFallback.bind (Assoc.get (Assoc.associateBy Profile.id ps)) with
    | none =>
      rw [hu] at hfb
      cases hfb
    | some f =>
      rw [hu] at hfb
      simp only [Option.ite_none_right_eq_some, Option.some.injEq] at hfb
      obtain ⟨id, -, hid⟩ := Option.bind_eq_some_iff.1 hu
      exact ⟨f, hlookup id f hid, hfb.1, hfb.2.symm⟩
  obtain ⟨hmirror, hmap, hrows⟩ := createAll_createProfile (es.map Prod.fst) (by
    unfold Mirrors
    rw [ht]) hready
  simp only [ht, List.map_nil, List.nil_append] at hrows
  -- the row of the member is there
  obtain ⟨w, hlink, hsettings⟩ := linkAll_createProfile _ hmirror (by
    intro e he
    obtain ⟨hid, f, hf, hno, heq⟩ := hmap e he
    refine ⟨hid, ?_⟩
    obtain ⟨x, hx, plugin, rfl, -, hplugin⟩ := hto f hf
    have hmem : settings (imported f none) ∈ ((es.map Prod.fst).map settings) := by
      rw [← hplugin hno]
      exact List.mem_map.2 ⟨_, List.mem_map.2 ⟨_, hx, rfl⟩, rfl⟩
    rw [← hrows] at hmem
    obtain ⟨r, hr, hrs⟩ := List.mem_map.1 hmem
    rw [heq]
    exact ⟨r, hr, matching_fallbackOf hrs⟩)
  refine ⟨.arr jsons, w, ?_, ?_, ?_⟩
  · unfold serializeToJson
    simp only [hjsons]
    rfl
  · have hentries : entries H none (.arr jsons) = .ok es := by
      rw [entries]
      exact hes
    rw [parseJson_ok World.createProfile hentries]
    exact hlink
  · exact forall₂_restored hall (hsettings.trans hrows)

/-- A profile with a plugin, a list of apps and a fallback, and the fallback itself. -/
def sampleProfiles : List Profile :=
  [{ id := 7, name := some ['a'], host := ['h'], remotePort := 8388, password := ['p'], method := ['m'],
     proxyApps := true, bypass := true, individual := ['x', '\n', 'y'], plugin := some ['v', ';', 't'],
     udpFallback := some 9 },
   { id := 9, name := none, host := [':', ':'], remotePort := 1, password := ['q'], method := ['n'] }]

theorem sample_parse :
    PluginConfiguration.parse ['v', ';', 't'] =
      some (.ofOptions [(PluginOptions.new.withId ['v']).put ['t'] none]) := by
  have hsplit : (['v', ';', 't'] : Str).splitOn '\n' = [['v', ';', 't']] := by decide
  have hline : PluginConfiguration.readLine ['v', ';', 't'] =
      some ((PluginOptions.new.withId ['v']).put ['t'] none) := by
    unfold PluginConfiguration.readLine
    rw [if_neg (by simp)]
    rfl
  unfold PluginConfiguration.parse
  rw [hsplit]
  simp [hline]

theorem sampleProfiles_exportable : ∀ p ∈ sampleProfiles, Exportable (fun _ => none) p := by
  intro p hp
  simp only [sampleProfiles, List.mem_cons, List.not_mem_nil, or_false] at hp
  rcases hp with rfl | rfl
  · refine ⟨by decide, by decide, by decide, by decide, ⟨_, sample_parse⟩, ?_⟩
    intro o ho
    have hsel : o = (PluginOptions.new.withId ['v']).put ['t'] none := by
      unfold selectedOptions at ho
      simp only [Option.getD_some, sample_parse, Option.bind_some] at ho
      cases ho
      rfl
    subst hsel
    refine ⟨forall_mem_of_all (by decide), ?_⟩
    intro e he
    have he' : e = (['t'], none) := List.mem_singleton.1 he
    rw [he']
    exact ⟨forall_mem_of_all (by decide), by simp⟩
  · refine ⟨by decide, by decide, by decide, by decide, ⟨_, rfl⟩, ?_⟩
    intro o ho
    cases ho
    exact ⟨forall_mem_of_all (by decide), by simp [PluginOptions.new]⟩

theorem backup_roundtrip_sample :
    ∃ json w, serializeToJson .insertion (fun _ => none) sampleProfiles = some json ∧
      parseJson World.createProfile .insertion none json ⟨Table.empty, [], ()⟩ = (w, none) ∧
      List.Forall₂ (Restored (fun _ => none)) sampleProfiles w.table.rows :=
  backup_roundtrip .insertion (fun _ => none) sampleProfiles sampleProfiles_exportable Table.empty rfl

end Backup

end BlackButton
