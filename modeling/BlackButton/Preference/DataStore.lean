import BlackButton.Database.KeyValuePair
import Mathlib.Data.List.Nodup
import Mathlib.Data.Int.Order.Basic

/-!
# Preferences (`preference/RoomPreferenceDataStore.kt`, `preference/DataStore.kt`)

A store is a table of key-value pairs, read by the type of their value. Reading a
malformed value throws, and what was written before stays written.

* `PreferenceKey.text_injective`: no two keys have the same text.
* `Store.get_write`: writing one key changes no other.
-/

namespace BlackButton

open Text

/-- `Key`, as far as it names preferences. -/
inductive PreferenceKey
  | id
  | name
  | individual
  | portProxy
  | portLocalDns
  | portTransproxy
  | route
  | persistAcrossReboot
  | proxyApps
  | bypass
  | udpdns
  | ipv6
  | metered
  | host
  | password
  | method
  | remotePort
  | remoteDns
  | plugin
  | udpFallback
  | dirty
  deriving DecidableEq

namespace PreferenceKey

def text : PreferenceKey → Str
  | id => "profileId".toList
  | name => "profileName".toList
  | individual => "Proxyed".toList
  | portProxy => "portProxy".toList
  | portLocalDns => "portLocalDns".toList
  | portTransproxy => "portTransproxy".toList
  | route => "route".toList
  | persistAcrossReboot => "isAutoConnect".toList
  | proxyApps => "isProxyApps".toList
  | bypass => "isBypassApps".toList
  | udpdns => "isUdpDns".toList
  | ipv6 => "isIpv6".toList
  | metered => "metered".toList
  | host => "proxy".toList
  | password => "sitekey".toList
  | method => "encMethod".toList
  | remotePort => "remotePortNum".toList
  | remoteDns => "remoteDns".toList
  | plugin => "plugin".toList
  | udpFallback => "udpFallback".toList
  | dirty => "profileDirty".toList

def all : List PreferenceKey :=
  [id, name, individual, portProxy, portLocalDns, portTransproxy, route, persistAcrossReboot, proxyApps,
    bypass, udpdns, ipv6, metered, host, password, method, remotePort, remoteDns, plugin, udpFallback, dirty]

theorem mem_all (key : PreferenceKey) : key ∈ all := by
  cases key <;> decide

/-- No two keys have the same text. -/
theorem text_injective : Function.Injective text := by
  have hnodup : (all.map text).Nodup := by decide +kernel
  intro a b h
  exact List.inj_on_of_nodup_map hnodup (mem_all a) (mem_all b) h

@[simp] theorem text_inj {a b : PreferenceKey} : a.text = b.text ↔ a = b := text_injective.eq_iff

end PreferenceKey

/-- The values of a `Long`. -/
def IsLong (value : ℤ) : Prop := -2 ^ 63 ≤ value ∧ value < 2 ^ 63

/-- The table of `KeyValuePair`, by its primary key. -/
structure Store where
  row : Str → Option KeyValuePair
  key_row : ∀ key p, row key = some p → p.key = key

namespace Store

/-- `SELECT * FROM KeyValuePair WHERE key = :key`. -/
def get (s : Store) (key : Str) : Option KeyValuePair := s.row key

/-- `INSERT OR REPLACE`. -/
def put (s : Store) (value : KeyValuePair) : Store where
  row key := if key = value.key then some value else s.row key
  key_row key p h := by
    split at h
    · rename_i hkey
      cases h
      exact hkey.symm
    · exact s.key_row key p h

/-- `DELETE FROM KeyValuePair WHERE key = :key`. -/
def delete (s : Store) (key : Str) : Store where
  row k := if k = key then none else s.row k
  key_row k p h := by
    split at h
    · cases h
    · exact s.key_row k p h

/-- The store without rows. -/
def empty : Store := ⟨fun _ => none, fun _ _ h => nomatch h⟩

/-- A type and the bytes of a value. -/
abbrev Content := ValueType × List UInt8

/-- The row of a key. -/
def rowOf (key : PreferenceKey) (content : Content) : KeyValuePair := ⟨key.text, content.1, content.2⟩

/-- Every operation on one key: its row is replaced or removed. -/
def write (s : Store) (key : PreferenceKey) (content : Option Content) : Store :=
  match content with
  | none => s.delete key.text
  | some content => s.put (rowOf key content)

/-- **Writing one key changes no other.** -/
@[simp] theorem get_write (s : Store) (key k : PreferenceKey) (content : Option Content) :
    (s.write key content).get k.text = if k = key then content.map (rowOf key) else s.get k.text := by
  have hkey : (if k.text = key.text then content.map (rowOf key) else s.get k.text) =
      if k = key then content.map (rowOf key) else s.get k.text := by
    simp only [PreferenceKey.text_inj]
  rw [← hkey]
  cases content <;> rfl

/-- Keys that are written once have what was written. -/
theorem get_writes {ws : List (PreferenceKey × Option Content)} (hnodup : (ws.map Prod.fst).Nodup) {key : PreferenceKey}
    {content : Option Content} (h : (key, content) ∈ ws) (s : Store) :
    (ws.foldl (fun s w => s.write w.1 w.2) s).get key.text = content.map (rowOf key) := by
  have hother : ∀ (ws : List (PreferenceKey × Option Content)) (s : Store), key ∉ ws.map Prod.fst →
      (ws.foldl (fun s w => s.write w.1 w.2) s).get key.text = s.get key.text := by
    intro ws
    induction ws with
    | nil => exact fun s _ => rfl
    | cons w ws ih =>
      intro s hmem
      rw [List.map_cons, List.mem_cons, not_or] at hmem
      rw [List.foldl_cons, ih _ hmem.2, get_write, if_neg hmem.1]
  induction ws generalizing s with
  | nil => cases h
  | cons w ws ih =>
    rw [List.map_cons, List.nodup_cons] at hnodup
    rw [List.foldl_cons]
    rcases List.mem_cons.1 h with rfl | h
    · rw [hother ws _ hnodup.1, get_write, if_pos rfl]
    · exact ih hnodup.2 h _

end Store

/-- What is thrown while preferences are read. -/
inductive PreferenceError
  | value (failure : Failure)
  -- the `check` of `deserialize`
  | check
  deriving DecidableEq

/-- A computation on a store. What it wrote before an exception stays written. -/
abbrev Prefs := ExceptT PreferenceError (StateM Store)

namespace Prefs

variable {α β : Type}

/-- The result and the store after it. -/
def exec (x : Prefs α) (s : Store) : Except PreferenceError α × Store := x s

@[simp] theorem exec_pure (a : α) (s : Store) : exec (pure a) s = (.ok a, s) := rfl

@[simp] theorem exec_bind (x : Prefs α) (f : α → Prefs β) (s : Store) :
    exec (x >>= f) s = match exec x s with
      | (.ok a, s') => exec (f a) s'
      | (.error e, s') => (.error e, s') := by
  have hbind : exec (x >>= f) s = ExceptT.bindCont f (exec x s).1 (exec x s).2 := rfl
  rw [hbind]
  rcases exec x s with ⟨r, s'⟩
  cases r <;> rfl

end Prefs

/-- `KeyValuePair(key)`. -/
def KeyValuePair.ofKey (key : PreferenceKey) : KeyValuePair := { key := key.text }

namespace RoomPreferenceDataStore

open Prefs

/-- `kvPairDao[key]?.…`. -/
def read {α : Type} (value : KeyValuePair → Except Failure (Option α)) (key : PreferenceKey) : Prefs (Option α) :=
  fun s => (match s.get key.text with
    | none => .ok none
    | some p => (value p).mapError .value, s)

def getBoolean (key : PreferenceKey) : Prefs (Option Bool) := read KeyValuePair.boolean key

def getLong (key : PreferenceKey) : Prefs (Option ℤ) :=
  read (fun p => p.long.map fun value => value.map BitVec.toInt) key

/-- `long?.toInt()`: the lower half of the number. -/
def getInt (key : PreferenceKey) : Prefs (Option ℤ) :=
  read (fun p => p.long.map fun value => value.map fun l => (l.setWidth 32).toInt) key

def getString (charset : Charset) (key : PreferenceKey) : Prefs (Option Str) :=
  read (fun p => .ok (p.string charset)) key

def remove (key : PreferenceKey) : Prefs Unit := fun s => (.ok (), s.delete key.text)

def putBoolean (key : PreferenceKey) (value : Bool) : Prefs Unit :=
  fun s => (.ok (), s.put ((KeyValuePair.ofKey key).putBoolean value))

def putLong (key : PreferenceKey) (value : Option ℤ) : Prefs Unit :=
  match value with
  | none => remove key
  | some value => fun s => (.ok (), s.put ((KeyValuePair.ofKey key).putLong (.ofInt 64 value)))

def putString (key : PreferenceKey) (value : Option Str) : Prefs Unit :=
  match value with
  | none => remove key
  | some value => fun s => (.ok (), s.put ((KeyValuePair.ofKey key).putString value))

section Lemmas

variable (charset : Charset) (key : PreferenceKey) (s : Store)

@[simp] theorem exec_read {α : Type} (value : KeyValuePair → Except Failure (Option α)) :
    exec (read value key) s = (match s.get key.text with
      | none => .ok none
      | some p => (value p).mapError .value, s) := rfl

@[simp] theorem exec_remove : exec (remove key) s = (.ok (), s.write key none) := rfl

@[simp] theorem exec_putBoolean (value : Bool) :
    exec (putBoolean key value) s = (.ok (), s.write key (some (.boolean, [if value then 1 else 0]))) := rfl

@[simp] theorem exec_putLong (value : Option ℤ) :
    exec (putLong key value) s =
      (.ok (), s.write key (value.map fun value => (.long, bigEndian 8 (BitVec.ofInt 64 value).toNat))) := by
  cases value <;> rfl

@[simp] theorem exec_putString (value : Option Str) :
    exec (putString key value) s = (.ok (), s.write key (value.map fun value => (.string, utf8 value))) := by
  cases value <;> rfl

variable {charset key s}

theorem exec_read_of_row {α : Type} {value : KeyValuePair → Except Failure (Option α)} {p : KeyValuePair}
    {result : Option α} (h : s.get key.text = some p) (hvalue : value p = .ok result) :
    exec (read value key) s = (.ok result, s) := by
  rw [exec_read, h]
  simp only [hvalue]
  rfl

theorem exec_getBoolean {value : Bool}
    (h : s.get key.text = some (Store.rowOf key (.boolean, [if value then 1 else 0]))) :
    exec (getBoolean key) s = (.ok (some value), s) :=
  exec_read_of_row h ((KeyValuePair.putAndGet default (.ofKey key)).1 value)

/-- A text is read back, and a removed one as null. -/
theorem exec_getString {value : Option Str}
    (h : s.get key.text = (value.map fun value => (.string, utf8 value)).map (Store.rowOf key)) :
    exec (getString charset key) s = (.ok value, s) := by
  cases value with
  | none =>
    unfold getString
    rw [exec_read, h]
    rfl
  | some value =>
    exact exec_read_of_row h (congrArg Except.ok ((KeyValuePair.putAndGet charset (.ofKey key)).2.2.2 value))

/-- A number is read back, and a removed one as null. -/
theorem exec_getLong {value : Option ℤ} (hvalue : ∀ v ∈ value, IsLong v)
    (h : s.get key.text = (value.map fun value =>
      (.long, bigEndian 8 (BitVec.ofInt 64 value).toNat)).map (Store.rowOf key)) :
    exec (getLong key) s = (.ok value, s) := by
  cases value with
  | none =>
    unfold getLong
    rw [exec_read, h]
    rfl
  | some value =>
    obtain ⟨hlo, hhi⟩ := hvalue value rfl
    have hlong : (BitVec.ofInt 64 value).toInt = value := by
      rw [BitVec.toInt_ofInt]
      exact Int.bmod_eq_of_le (by omega) (by omega)
    refine exec_read_of_row h ?_
    have hread : (Store.rowOf key (.long, bigEndian 8 (BitVec.ofInt 64 value).toNat)).long =
        .ok (some (BitVec.ofInt 64 value)) :=
      (KeyValuePair.putAndGet default (.ofKey key)).2.2.1 (BitVec.ofInt 64 value)
    rw [hread, Except.map, Option.map_some, hlong]

end Lemmas

end RoomPreferenceDataStore

/-- `parsePort`. -/
def parsePort (str : Option Str) (default min : ℤ) : ℤ :=
  let value := (str.bind toInt).getD default
  if value < min ∨ 65535 < value then default else value

end BlackButton
