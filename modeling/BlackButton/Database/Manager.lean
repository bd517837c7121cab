import BlackButton.Database.Profile

/-!
# The table of profiles (`Profile.Dao`, `database/ProfileManager.kt`) and `Profile.parseJson`

A `Table` has auto-increment keys. A `World` is the table together with the profile
objects in memory that have a row: `create` callbacks return such objects, which later
steps change and write back, so objects are referred to by the id of their row.

* `Table.create`, `Table.update`, `Table.delete` keep the keys distinct, and none is
  used twice.
* `parseJson` hands the profiles of a document to `create`, then resolves their
  fallbacks (`finalize`) against the rows at that time. What was done before an
  exception stays done.
-/

namespace BlackButton

/-- The profile with the id of `p`, if there is one, replaced by `p`. -/
def replace (l : List Profile) (p : Profile) : List Profile := l.map fun r => if r.id = p.id then p else r

theorem ids_replace (l : List Profile) (p : Profile) : (replace l p).map Profile.id = l.map Profile.id := by
  unfold replace
  rw [List.map_map]
  refine List.map_congr_left ?_
  intro r _
  by_cases h : r.id = p.id
  · simp [h]
  · simp [h]

theorem mem_replace {l : List Profile} {p r : Profile} :
    r ∈ replace l p ↔ (r ∈ l ∧ r.id ≠ p.id) ∨ (r = p ∧ p.id ∈ l.map Profile.id) := by
  unfold replace
  rw [List.mem_map, List.mem_map]
  constructor
  · rintro ⟨q, hq, rfl⟩
    by_cases h : q.id = p.id
    · rw [if_pos h]
      exact Or.inr ⟨rfl, q, hq, h⟩
    · rw [if_neg h]
      exact Or.inl ⟨hq, h⟩
  · rintro (⟨hr, hne⟩ | ⟨rfl, q, hq, hid⟩)
    · exact ⟨r, hr, if_neg hne⟩
    · exact ⟨q, hq, if_pos hid⟩

/-- The `Profile` table; `seq` is the largest key ever used. -/
structure Table where
  rows : List Profile
  seq : ℤ
  nodup : (rows.map Profile.id).Nodup
  le_seq : ∀ r ∈ rows, r.id ≤ seq

namespace Table

/-- An empty table. -/
def empty : Table := ⟨[], 0, List.nodup_nil, by simp⟩

/-- `Dao.get`. -/
def get (t : Table) (id : ℤ) : Option Profile := t.rows.find? fun r => r.id = id

/-- `Dao.nextOrder`. -/
def nextOrder (t : Table) : Option ℤ := (t.rows.map Profile.userOrder).max?.map (· + 1)

theorem nodup_create (t : Table) (value : Profile) :
    ((t.rows ++ [value.withId (t.seq + 1)]).map Profile.id).Nodup := by
  rw [List.map_append, List.nodup_append]
  refine ⟨t.nodup, List.nodup_singleton _, ?_⟩
  intro a ha b hb hab
  obtain ⟨r, hr, rfl⟩ := List.mem_map.1 ha
  have hle := t.le_seq r hr
  simp only [List.map_cons, List.map_nil, List.mem_singleton, Profile.id_withId] at hb
  omega

theorem le_create (t : Table) (value : Profile) :
    ∀ r ∈ t.rows ++ [value.withId (t.seq + 1)], r.id ≤ t.seq + 1 := by
  intro r hr
  rcases List.mem_append.1 hr with hr | hr
  · have := t.le_seq r hr
    omega
  · rw [List.mem_singleton] at hr
    have hid : r.id = t.seq + 1 := by rw [hr, Profile.id_withId]
    omega

/-- `Dao.create` of a profile whose id is 0. -/
def create (t : Table) (value : Profile) : Table :=
  ⟨t.rows ++ [value.withId (t.seq + 1)], t.seq + 1, nodup_create t value, le_create t value⟩

/-- `Dao.update`. -/
def update (t : Table) (value : Profile) : Table where
  rows := replace t.rows value
  seq := t.seq
  nodup := by rw [ids_replace]; exact t.nodup
  le_seq := by
    intro r hr
    rcases mem_replace.1 hr with ⟨hr, -⟩ | ⟨rfl, hid⟩
    · exact t.le_seq r hr
    · obtain ⟨q, hq, hqid⟩ := List.mem_map.1 hid
      have := t.le_seq q hq
      omega

/-- `Dao.delete`. -/
def delete (t : Table) (id : ℤ) : Table where
  rows := t.rows.filter fun r => r.id ≠ id
  seq := t.seq
  nodup := t.nodup.sublist (List.filter_sublist.map Profile.id)
  le_seq r hr := t.le_seq r (List.mem_of_mem_filter hr)

/-- The keys. -/
def ids (t : Table) : List ℤ := t.rows.map Profile.id

theorem mem_ids {t : Table} {id : ℤ} : id ∈ t.ids ↔ ∃ r ∈ t.rows, r.id = id := List.mem_map

theorem eq_of_id {t : Table} {r r' : Profile} (hr : r ∈ t.rows) (hr' : r' ∈ t.rows) (h : r.id = r'.id) :
    r = r' :=
  List.inj_on_of_nodup_map t.nodup hr hr' h

theorem mem_create {t : Table} {value r : Profile} :
    r ∈ (t.create value).rows ↔ r ∈ t.rows ∨ r = value.withId (t.seq + 1) := by
  simp [create]

theorem mem_update {t : Table} {value r : Profile} :
    r ∈ (t.update value).rows ↔ (r ∈ t.rows ∧ r.id ≠ value.id) ∨ (r = value ∧ value.id ∈ t.ids) :=
  mem_replace

@[simp] theorem ids_update (t : Table) (value : Profile) : (t.update value).ids = t.ids :=
  ids_replace t.rows value

@[simp] theorem ids_create (t : Table) (value : Profile) : (t.create value).ids = t.ids ++ [t.seq + 1] := by
  simp [ids, create]

theorem get_eq_some_iff {t : Table} {id : ℤ} {r : Profile} : t.get id = some r ↔ r ∈ t.rows ∧ r.id = id := by
  constructor
  · intro h
    exact ⟨List.mem_of_find?_eq_some h, by simpa using List.find?_some h⟩
  · rintro ⟨hr, rfl⟩
    have hsome : (t.get r.id).isSome := by
      unfold get
      rw [List.find?_isSome]
      exact ⟨r, hr, by simp⟩
    obtain ⟨q, hq⟩ := Option.isSome_iff_exists.1 hsome
    have hqid : q.id = r.id := by simpa using List.find?_some hq
    rw [hq, eq_of_id (List.mem_of_find?_eq_some hq) hr hqid]

theorem get_eq_none_iff {t : Table} {id : ℤ} : t.get id = none ↔ id ∉ t.ids := by
  unfold get
  rw [List.find?_eq_none, mem_ids]
  simp

/-- The row of an update, which was there. -/
theorem get_update {t : Table} {value r : Profile} (h : t.get value.id = some r) :
    (t.update value).get value.id = some value := by
  obtain ⟨hr, hid⟩ := get_eq_some_iff.1 h
  exact get_eq_some_iff.2 ⟨mem_update.2 (Or.inr ⟨rfl, mem_ids.2 ⟨r, hr, hid⟩⟩), rfl⟩

theorem get_update_ne {t : Table} {value : Profile} {id : ℤ} (h : id ≠ value.id) :
    (t.update value).get id = t.get id := by
  refine Option.ext fun r => ?_
  rw [get_eq_some_iff, get_eq_some_iff, mem_update]
  constructor
  · rintro ⟨⟨hr, -⟩ | ⟨rfl, -⟩, hid⟩
    · exact ⟨hr, hid⟩
    · exact absurd hid.symm h
  · rintro ⟨hr, rfl⟩
    exact ⟨Or.inl ⟨hr, h⟩, rfl⟩

theorem get_create (t : Table) (value : Profile) (id : ℤ) :
    (t.create value).get id = if id = t.seq + 1 then some (value.withId (t.seq + 1)) else t.get id := by
  split
  · rename_i hid
    rw [hid]
    exact get_eq_some_iff.2 ⟨mem_create.2 (Or.inr rfl), rfl⟩
  · rename_i hid
    refine Option.ext fun r => ?_
    rw [get_eq_some_iff, get_eq_some_iff, mem_create]
    constructor
    · rintro ⟨hr | rfl, hrid⟩
      · exact ⟨hr, hrid⟩
      · exact absurd hrid.symm hid
    · rintro ⟨hr, hrid⟩
      exact ⟨Or.inl hr, hrid⟩

end Table

/-- The table, the profile objects that have a row, and what the caller keeps. -/
structure World (τ : Type) where
  table : Table
  objects : List Profile
  extra : τ

namespace World

variable {τ : Type}

/-- The object of a row. -/
def object (w : World τ) (id : ℤ) : Option Profile := w.objects.find? fun o => o.id = id

/-- The object of a row is changed. -/
def setObject (w : World τ) (o : Profile) : World τ :=
  { w with objects := replace w.objects o }

/-- `ProfileManager.createProfile`. -/
def createProfile (w : World τ) (profile : Profile) : World τ × ℤ :=
  let profile := (profile.withId 0).withOrder (w.table.nextOrder.getD 0)
  let id := w.table.seq + 1
  ({ w with table := w.table.create profile, objects := w.objects ++ [profile.withId id] }, id)

/-- `ProfileManager.updateProfile`. -/
def updateProfile (w : World τ) (profile : Profile) : World τ × Option Fault :=
  if profile.id ∈ w.table.ids then ({ w with table := w.table.update profile }, none) else (w, some .check)

/-- `ProfileManager.delProfile`. -/
def delProfile (w : World τ) (id : ℤ) : World τ × Option Fault :=
  if id ∈ w.table.ids then ({ w with table := w.table.delete id }, none) else (w, some .check)

theorem object_eq_some {w : World τ} {id : ℤ} {o : Profile} (h : w.object id = some o) :
    o ∈ w.objects ∧ o.id = id := by
  refine ⟨List.mem_of_find?_eq_some h, ?_⟩
  simpa using List.find?_some h

theorem object_of_mem {w : World τ} (hnd : (w.objects.map Profile.id).Nodup) {o : Profile}
    (ho : o ∈ w.objects) : w.object o.id = some o := by
  have hsome : (w.object o.id).isSome := by
    unfold object
    rw [List.find?_isSome]
    exact ⟨o, ho, by simp⟩
  obtain ⟨q, hq⟩ := Option.isSome_iff_exists.1 hsome
  obtain ⟨hqm, hqid⟩ := object_eq_some hq
  rw [hq, List.inj_on_of_nodup_map hnd hqm ho hqid]

end World

namespace JsonParser

variable {τ : Type} (create : World τ → Profile → World τ × ℤ)

/-- One turn of the loop of `parseJson`: the profile is created, and its fallback is put back under
the object that `create` returned. -/
def createNext (s : World τ × List (Profile × Profile)) (p : Profile) : World τ × List (Profile × Profile) :=
  let fallback := Assoc.get s.2 p
  let map := Assoc.remove s.2 p
  let created := create s.1 p
  match fallback with
  | none => (created.1, map)
  | some f => (created.1, Assoc.put map ((created.1.object created.2).getD p) f)

/-- The profile of the table that a fallback refers to. -/
def matching (fallback it : Profile) : Bool :=
  fallback.host = it.host && fallback.remotePort = it.remotePort && fallback.password = it.password &&
    fallback.method = it.method && it.noPlugin

/-- The profile that a fallback stands for: one of the table, or a new one. -/
def target (profiles : List Profile) (w : World τ) (fallback : Profile) : World τ × ℤ :=
  match profiles.find? (matching fallback) with
  | some m => (w, m.id)
  | none => create w fallback

/-- One turn of the loop of `finalize`. -/
def link (profiles : List Profile) (w : World τ) (e : Profile × Profile) : World τ × Option Fault :=
  let s := target create profiles w e.2
  let o := ((s.1.object e.1.id).getD e.1).withFallback s.2
  (s.1.setObject o).updateProfile o

/-- The loop of `finalize`: an exception ends it. -/
def linkAll (profiles : List Profile) : List (Profile × Profile) → World τ → World τ × Option Fault
  | [], w => (w, none)
  | e :: es, w =>
    match link create profiles w e with
    | (w, some f) => (w, some f)
    | (w, none) => linkAll profiles es w

/-- `finalize`. -/
def finalize (fallbackMap : List (Profile × Profile)) (w : World τ) : World τ × Option Fault :=
  linkAll create w.table.rows fallbackMap w

/-- `parseJson`. -/
def parseJson (H : HashOrder) (feature : Option Profile) (json : Json) (w : World τ) :
    World τ × Option Fault :=
  match process H feature json .new with
  | .error f => (w, some f)
  | .ok s =>
    let created := s.profiles.foldl (createNext create) (w, s.fallbackMap)
    finalize create created.2 created.1

section

variable {H : HashOrder} {feature : Option Profile} {json : Json}

/-- A document that is rejected changes nothing. -/
theorem parseJson_error {f : Fault} (h : entries H feature json = .error f) (w : World τ) :
    parseJson create H feature json w = (w, some f) := by
  unfold parseJson
  rw [process_eq, h]
  rfl

/-- What is done with the entries of a document. -/
theorem parseJson_ok {es : List (Profile × Option Profile)} (h : entries H feature json = .ok es) (w : World τ) :
    parseJson create H feature json w =
      finalize create ((es.map Prod.fst).foldl (createNext create) (w, (es.foldl addEntry .new).fallbackMap)).2
        ((es.map Prod.fst).foldl (createNext create) (w, (es.foldl addEntry .new).fallbackMap)).1 := by
  have hprofiles : (es.foldl addEntry .new).profiles = es.map Prod.fst := by
    rw [profiles_foldl]
    rfl
  unfold parseJson
  rw [process_eq, h]
  simp only [collect, Except.map, hprofiles]

end

end JsonParser

/-- The values of a document, up to the first error. -/
structure Document where
  values : List Json
  wellFormed : Bool

/-- `JsonStreamParser(json).asSequence().single()`. -/
def Document.single (d : Document) : Except Fault Json :=
  match d.values, d.wellFormed with
  | [j], true => .ok j
  | _, _ => .error .document

end BlackButton
