import BlackButton.Database.Profile
import BlackButton.Preference.DataStore

/-!
# Editing a profile (`Profile.serialize`, `Profile.deserialize`)

A profile is edited as preferences of the private store: it is written there field by
field, and read back when it is saved.

`deserialize_serialize`: **every field is read back**, whatever the store held before.
-/

namespace BlackButton

open Text Prefs RoomPreferenceDataStore

namespace DataStore

variable (charset : Charset)

def editingId : Prefs (Option ℤ) := getLong .id

def setEditingId (value : Option ℤ) : Prefs Unit := putLong .id value

def proxyApps : Prefs Bool := do return (← getBoolean .proxyApps).getD false

def setProxyApps (value : Bool) : Prefs Unit := putBoolean .proxyApps value

def bypass : Prefs Bool := do return (← getBoolean .bypass).getD false

def setBypass (value : Bool) : Prefs Unit := putBoolean .bypass value

def individual : Prefs Str := do return (← getString charset .individual).getD []

def setIndividual (value : Str) : Prefs Unit := putString .individual (some value)

def plugin : Prefs Str := do return (← getString charset .plugin).getD []

def setPlugin (value : Str) : Prefs Unit := putString .plugin (some value)

def udpFallback : Prefs (Option ℤ) := getLong .udpFallback

def setUdpFallback (value : Option ℤ) : Prefs Unit := putLong .udpFallback value

end DataStore

namespace Profile

/-- `serialize`. -/
def serialize (p : Profile) : Prefs Unit := do
  DataStore.setEditingId (some p.id)
  putString .name p.name
  putString .host (some p.host)
  putString .remotePort (some (intText p.remotePort))
  putString .password (some p.password)
  putString .route (some p.route)
  putString .remoteDns (some p.remoteDns)
  putString .method (some p.method)
  DataStore.setProxyApps p.proxyApps
  DataStore.setBypass p.bypass
  putBoolean .udpdns p.udpdns
  putBoolean .ipv6 p.ipv6
  putBoolean .metered p.metered
  DataStore.setIndividual p.individual
  DataStore.setPlugin (p.plugin.getD [])
  DataStore.setUdpFallback p.udpFallback
  remove .dirty

/-- `check(id == 0L || DataStore.editingId == id)`. -/
def checkEditing (p : Profile) : Prefs Unit := do
  if p.id ≠ 0 then
    if (← DataStore.editingId) ≠ some p.id then throw .check

/-- `deserialize`: the profile with the fields that were read. -/
def deserialize (charset : Charset) (p : Profile) : Prefs Profile := do
  checkEditing p
  DataStore.setEditingId none
  let name := (← getString charset .name).getD []
  let host := trim ((← getString charset .host).getD [])
  let remotePort := parsePort (← getString charset .remotePort) 8388 1
  let password := (← getString charset .password).getD []
  let method := (← getString charset .method).getD []
  let route := (← getString charset .route).getD []
  let remoteDns := (← getString charset .remoteDns).getD []
  let proxyApps ← DataStore.proxyApps
  let bypass ← DataStore.bypass
  let udpdns := (← getBoolean .udpdns).getD false
  let ipv6 := (← getBoolean .ipv6).getD false
  let metered := (← getBoolean .metered).getD false
  let individual ← DataStore.individual charset
  let plugin ← DataStore.plugin charset
  let udpFallback ← DataStore.udpFallback
  return { p with
    name := some name, host, remotePort, password, method, route, remoteDns, proxyApps, bypass, udpdns, ipv6,
    metered, individual, plugin := some plugin, udpFallback }

/-- What `serialize` writes. -/
def writes (p : Profile) : List (PreferenceKey × Option Store.Content) :=
  [(.id, some (.long, bigEndian 8 (BitVec.ofInt 64 p.id).toNat)),
    (.name, p.name.map fun name => (.string, utf8 name)),
    (.host, some (.string, utf8 p.host)),
    (.remotePort, some (.string, utf8 (intText p.remotePort))),
    (.password, some (.string, utf8 p.password)),
    (.route, some (.string, utf8 p.route)),
    (.remoteDns, some (.string, utf8 p.remoteDns)),
    (.method, some (.string, utf8 p.method)),
    (.proxyApps, some (.boolean, [if p.proxyApps then 1 else 0])),
    (.bypass, some (.boolean, [if p.bypass then 1 else 0])),
    (.udpdns, some (.boolean, [if p.udpdns then 1 else 0])),
    (.ipv6, some (.boolean, [if p.ipv6 then 1 else 0])),
    (.metered, some (.boolean, [if p.metered then 1 else 0])),
    (.individual, some (.string, utf8 p.individual)),
    (.plugin, some (.string, utf8 (p.plugin.getD []))),
    (.udpFallback, p.udpFallback.map fun id => (.long, bigEndian 8 (BitVec.ofInt 64 id).toNat)),
    (.dirty, none)]

theorem exec_serialize (p : Profile) (s : Store) :
    exec (serialize p) s = (.ok (), (writes p).foldl (fun s w => s.write w.1 w.2) s) := by
  unfold serialize DataStore.setEditingId DataStore.setProxyApps DataStore.setBypass DataStore.setIndividual
    DataStore.setPlugin DataStore.setUdpFallback
  simp only [exec_bind, exec_putLong, exec_putString, exec_putBoolean, exec_remove]
  rfl

/-- The rows of a profile that is edited, apart from the editing id. -/
def Edited (p : Profile) (s : Store) : Prop :=
  ∀ key content, (key, content) ∈ writes p → key ≠ .id → s.get key.text = content.map (Store.rowOf key)

theorem edited_serialize (p : Profile) (s : Store) :
    ∃ s', exec (serialize p) s = (.ok (), s') ∧
      s'.get PreferenceKey.id.text =
        some (Store.rowOf .id (.long, bigEndian 8 (BitVec.ofInt 64 p.id).toNat)) ∧
      Edited p (s'.write .id none) := by
  have hnodup : ((writes p).map Prod.fst).Nodup := by
    have hkeys : (writes p).map Prod.fst = [.id, .name, .host, .remotePort, .password, .route, .remoteDns,
        .method, .proxyApps, .bypass, .udpdns, .ipv6, .metered, .individual, .plugin, .udpFallback, .dirty] := rfl
    rw [hkeys]
    decide
  refine ⟨_, exec_serialize p s, ?_, ?_⟩
  · exact Store.get_writes hnodup List.mem_cons_self s
  · intro key content hmem hid
    rw [Store.get_write, if_neg hid]
    exact Store.get_writes hnodup hmem s

/-- What `deserialize` gives `q` of a profile that was written as `p`. -/
def edit (p q : Profile) : Profile :=
  { q with
    name := some (p.name.getD [])
    host := p.host
    remotePort := p.remotePort
    password := p.password
    method := p.method
    route := p.route
    remoteDns := p.remoteDns
    proxyApps := p.proxyApps
    bypass := p.bypass
    udpdns := p.udpdns
    ipv6 := p.ipv6
    metered := p.metered
    individual := p.individual
    plugin := some (p.plugin.getD [])
    udpFallback := p.udpFallback }

theorem exec_checkEditing {q : Profile} {s : Store} (h : q.id = 0 ∨ exec DataStore.editingId s = (.ok (some q.id), s)) :
    exec (checkEditing q) s = (.ok (), s) := by
  unfold checkEditing
  by_cases hzero : q.id = 0
  · simp only [hzero, ne_eq, not_true_eq_false, if_false, exec_pure]
  · have hediting := h.resolve_left hzero
    simp only [hzero, ne_eq, not_false_eq_true, not_true_eq_false, if_true, if_false, exec_bind, hediting,
      exec_pure]

/-- The fields are read back. -/
theorem exec_deserialize (charset : Charset) {p q : Profile} (hfallback : ∀ id ∈ p.udpFallback, IsLong id)
    (hhost : trim p.host = p.host) (hport : 1 ≤ p.remotePort ∧ p.remotePort ≤ 65535) {s : Store}
    (hid : q.id = 0 ∨ exec DataStore.editingId s = (.ok (some q.id), s)) (h : Edited p (s.write .id none)) :
    exec (deserialize charset q) s = (.ok (edit p q), s.write .id none) := by
  generalize hs : s.write .id none = s' at h
  have htext : ∀ (key : PreferenceKey) (value : Option Str),
      (key, value.map fun value => (.string, utf8 value)) ∈ writes p → key ≠ .id →
        exec (getString charset key) s' = (.ok value, s') :=
    fun key value hmem hne => exec_getString (h key _ hmem hne)
  have hflag : ∀ (key : PreferenceKey) (value : Bool),
      (key, some (.boolean, [if value then 1 else 0])) ∈ writes p → key ≠ .id →
        exec (getBoolean key) s' = (.ok (some value), s') :=
    fun key value hmem hne => exec_getBoolean (h key _ hmem hne)
  have hname := htext .name p.name (by simp [writes]) (by decide)
  have hhostText := htext .host (some p.host) (by simp [writes]) (by decide)
  have hportText := htext .remotePort (some (intText p.remotePort)) (by simp [writes]) (by decide)
  have hpassword := htext .password (some p.password) (by simp [writes]) (by decide)
  have hmethod := htext .method (some p.method) (by simp [writes]) (by decide)
  have hroute := htext .route (some p.route) (by simp [writes]) (by decide)
  have hremoteDns := htext .remoteDns (some p.remoteDns) (by simp [writes]) (by decide)
  have hindividual := htext .individual (some p.individual) (by simp [writes]) (by decide)
  have hplugin := htext .plugin (some (p.plugin.getD [])) (by simp [writes]) (by decide)
  have hproxyApps := hflag .proxyApps p.proxyApps (by simp [writes]) (by decide)
  have hbypass := hflag .bypass p.bypass (by simp [writes]) (by decide)
  have hudpdns := hflag .udpdns p.udpdns (by simp [writes]) (by decide)
  have hipv6 := hflag .ipv6 p.ipv6 (by simp [writes]) (by decide)
  have hmetered := hflag .metered p.metered (by simp [writes]) (by decide)
  have hudpFallback : exec (getLong .udpFallback) s' = (.ok p.udpFallback, s') :=
    exec_getLong hfallback (h .udpFallback _ (by simp [writes]) (by decide))
  have hparse : parsePort (some (intText p.remotePort)) 8388 1 = p.remotePort := by
    obtain ⟨n, hn⟩ := Int.eq_ofNat_of_zero_le (show 0 ≤ p.remotePort by omega)
    have hread : toInt (intText p.remotePort) = some p.remotePort := by
      rw [hn]
      exact toInt_decimal (by omega)
    unfold parsePort
    rw [Option.bind_some, hread, Option.getD_some, if_neg (by omega)]
  have hcheck := exec_checkEditing hid
  have hexec : exec (DataStore.setEditingId none) s = (.ok (), s') := by
    rw [← hs]
    rfl
  unfold deserialize DataStore.proxyApps DataStore.bypass DataStore.individual DataStore.plugin
    DataStore.udpFallback
  simp only [exec_bind, exec_pure, hcheck, hexec, hname, hhostText, hportText, hpassword, hmethod, hroute,
    hremoteDns, hindividual, hplugin, hproxyApps, hbypass, hudpdns, hipv6, hmetered, hudpFallback,
    Option.getD_some, hparse, hhost]
  rfl

/-- **Editing round trip.** Whatever the store held, a profile that was written is read back into
every profile with its id or without one, which keeps its other fields, and the editing id is
cleared. -/
theorem deserialize_serialize (charset : Charset) {p q : Profile} (hid : IsLong p.id)
    (hfallback : ∀ id ∈ p.udpFallback, IsLong id) (hhost : trim p.host = p.host)
    (hport : 1 ≤ p.remotePort ∧ p.remotePort ≤ 65535) (hq : q.id = p.id ∨ q.id = 0) (s : Store) :
    ∃ s' s'', exec (serialize p) s = (.ok (), s') ∧
      exec (deserialize charset q) s' = (.ok (edit p q), s'') ∧
      exec DataStore.editingId s'' = (.ok none, s'') := by
  obtain ⟨s', hserialize, hediting, hedited⟩ := edited_serialize p s
  have hcheck : q.id = 0 ∨ exec DataStore.editingId s' = (.ok (some q.id), s') := by
    rcases hq with hq | hq
    · right
      have hlong : ∀ v ∈ some p.id, IsLong v := by
        rintro v ⟨⟩
        exact hid
      rw [hq]
      exact exec_getLong hlong hediting
    · exact Or.inl hq
  refine ⟨s', s'.write .id none, hserialize, exec_deserialize charset hfallback hhost hport hcheck hedited, ?_⟩
  have hnone : ∀ v ∈ (none : Option ℤ), IsLong v := by simp
  exact exec_getLong hnone (by rw [Store.get_write, if_pos rfl]; rfl)

/-- A profile without name, with a plugin and a fallback. -/
def edited : Profile where
  id := 3
  name := none
  host := "proxy.example".toList
  remotePort := 443
  password := "p:@/".toList
  method := "aes-256-gcm".toList
  plugin := some "obfs-local;obfs=tls".toList
  udpFallback := some 7

/-- A store with values that an earlier edit left, one of another type. -/
def stale : Store :=
  (Store.empty.write .name (some (.string, utf8 "other".toList))).write .udpdns (some (.long, []))

theorem deserialize_serialize_edited :
    ∃ s' s'', exec (serialize edited) stale = (.ok (), s') ∧
      exec (deserialize default {}) s' = (.ok (edit edited {}), s'') ∧
      exec DataStore.editingId s'' = (.ok none, s'') := by
  have hid : IsLong edited.id := by
    unfold IsLong
    decide
  have hfallback : ∀ id ∈ edited.udpFallback, IsLong id := by
    rintro id ⟨⟩
    unfold IsLong
    decide
  exact deserialize_serialize default hid hfallback (by decide +kernel) (by decide) (Or.inr rfl) stale

end Profile

end BlackButton
