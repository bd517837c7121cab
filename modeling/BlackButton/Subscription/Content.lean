import BlackButton.Subscription.Invariant

/-!
# What the documents of a subscription ask for

A document asks for profiles that are handed to the callback, and then for fallbacks
that are resolved, each for the profile with a given pair (`Content`). What it asks
for depends on the current profile in the feature settings only.

* `entries_alike`: with other feature settings the same objects are accepted.
* `readDocuments_run`: **reading documents is running their contents.**
-/

namespace BlackButton

open JsonParser

/-- The profiles that a document hands to the callback, and the fallbacks that are resolved afterwards. -/
structure Content where
  mains : List Profile
  links : List (Key × Profile)

namespace Content

/-- The fallbacks that are in the map after the loop of `parseJson`. -/
def linksOf : List Profile → List (Profile × Profile) → List (Key × Profile) → List (Key × Profile)
  | [], _, out => out
  | p :: ps, map, out =>
    match Assoc.get map p with
    | none => linksOf ps (Assoc.remove map p) out
    | some f => linksOf ps (Assoc.remove map p) (Assoc.put out p.pair f)

def ofEntries (es : List (Profile × Option Profile)) : Content :=
  let s := es.foldl addEntry .new
  ⟨s.profiles, linksOf s.profiles s.fallbackMap []⟩

/-- A document that throws before anything is created asks for nothing. -/
def ofDocument (H : HashOrder) (feature : Option Profile) (d : Document) : Option Content :=
  match d.single with
  | .error _ => none
  | .ok json =>
    match entries H feature json with
    | .error _ => none
    | .ok es => some (ofEntries es)

/-- The contents of the documents that are accepted. -/
def ofDocuments (H : HashOrder) (feature : Option Profile) (ds : List Document) : List Content :=
  ds.filterMap (ofDocument H feature)

end Content

/-! ## The feature settings -/

/-- Profiles that differ in the feature settings, as they come from a document. -/
structure Alike (p p' : Profile) : Prop where
  name : p'.name = p.name
  host : p'.host = p.host
  remotePort : p'.remotePort = p.remotePort
  password : p'.password = p.password
  method : p'.method = p.method
  plugin : p'.plugin = p.plugin
  status : p.subscription = .userConfigured ∧ p'.subscription = .userConfigured
  fallback : p.udpFallback = none ∧ p'.udpFallback = none

theorem Alike.pair {p p' : Profile} (h : Alike p p') : p'.pair = p.pair := by
  unfold Profile.pair Profile.formattedAddress
  rw [h.name, h.host, h.remotePort]

theorem Alike.matching {p p' : Profile} (h : Alike p p') (q : Profile) : matching p' q = matching p q := by
  unfold JsonParser.matching
  rw [h.host, h.remotePort, h.password, h.method]

/-- Two results agree up to `R`. -/
def Agree {α : Type} (R : α → α → Prop) : Except Fault α → Except Fault α → Prop
  | .error f, .error f' => f = f'
  | .ok a, .ok a' => R a a'
  | _, _ => False

theorem Agree.bind {α β : Type} {R : α → α → Prop} {S : β → β → Prop} {x x' : Except Fault α}
    {g g' : α → Except Fault β} (h : Agree R x x') (hg : ∀ a a', R a a' → Agree S (g a) (g' a')) :
    Agree S (x >>= g) (x' >>= g') := by
  cases x with
  | error f =>
    cases x' with
    | error f' => exact h
    | ok a' => exact h.elim
  | ok a =>
    cases x' with
    | error f' => exact h.elim
    | ok a' => exact hg a a' h

section Features

variable (H : HashOrder) (f f' : Option Profile)

theorem Alike.mainSettings {p p' : Profile} (h : Alike p p') (json : Members) :
    Alike (mainSettings json p) (mainSettings json p') := by
  have hkeep : ∀ q : Profile, Alike p q → Alike p (JsonParser.mainSettings json q) := by
    intro q hq
    unfold JsonParser.mainSettings
    simp only
    split
    · exact ⟨hq.name, hq.host, hq.remotePort, hq.password, hq.method, hq.plugin, hq.status, hq.fallback⟩
    · exact ⟨hq.name, hq.host, hq.remotePort, hq.password, hq.method, hq.plugin, hq.status, hq.fallback⟩
  have h₁ := hkeep p' h
  have h₂ := hkeep p ⟨rfl, rfl, rfl, rfl, rfl, rfl, ⟨h.status.1, h.status.1⟩, ⟨h.fallback.1, h.fallback.1⟩⟩
  exact ⟨h₁.name.trans h₂.name.symm, h₁.host.trans h₂.host.symm, h₁.remotePort.trans h₂.remotePort.symm,
    h₁.password.trans h₂.password.symm, h₁.method.trans h₂.method.symm, h₁.plugin.trans h₂.plugin.symm,
    ⟨h₂.status.2, h₁.status.2⟩, ⟨h₂.fallback.2, h₁.fallback.2⟩⟩

theorem parseProfile_alike (json : Members) (fallback : Bool) :
    Agree (Option.Rel Alike) (parseProfile H f json fallback) (parseProfile H f' json fallback) := by
  unfold parseProfile
  simp only
  split
  · exact .none
  · cases pluginOf H json with
    | error e => rfl
    | ok plugin =>
      refine .some ?_
      cases fallback with
      | true =>
        cases f <;> cases f' <;> exact ⟨rfl, rfl, rfl, rfl, rfl, rfl, ⟨rfl, rfl⟩, ⟨rfl, rfl⟩⟩
      | false =>
        refine Alike.mainSettings ?_ json
        cases f <;> cases f' <;> exact ⟨rfl, rfl, rfl, rfl, rfl, rfl, ⟨rfl, rfl⟩, ⟨rfl, rfl⟩⟩

/-- Entries whose profiles and fallbacks are alike. -/
def AlikeEntry (e e' : Profile × Option Profile) : Prop := Alike e.1 e'.1 ∧ Option.Rel Alike e.2 e'.2

theorem tryParse_alike (json : Members) :
    Agree (Option.Rel AlikeEntry) (tryParse H f json) (tryParse H f' json) := by
  unfold tryParse
  refine (parseProfile_alike H f f' json false).bind ?_
  rintro _ _ (h | _)
  · simp only
    split
    · refine (parseProfile_alike H f f' _ true).bind ?_
      intro q q' hq
      exact .some ⟨h, hq⟩
    · exact .some ⟨h, .none⟩
  · exact .none

theorem entries_obj (members : Members) :
    entries H f (.obj members) = tryParse H f members >>= fun e =>
      match e with
      | some e => .ok [e]
      | none => entriesMembers H f members := by
  rw [entries]
  rcases tryParse H f members with g | (_ | e) <;> rfl

theorem entriesElems_cons (j : Json) (js : List Json) :
    entriesElems H f (j :: js) = entries H f j >>= fun es =>
      entriesElems H f js >>= fun es' => .ok (es ++ es') := by
  rw [entriesElems]
  rcases entries H f j with g | es <;> rfl

theorem entriesMembers_cons (m : Str × Json) (ms : Members) :
    entriesMembers H f (m :: ms) = entries H f m.2 >>= fun es =>
      entriesMembers H f ms >>= fun es' => .ok (es ++ es') := by
  rw [entriesMembers]
  rcases entries H f m.2 with g | es <;> rfl

variable {A : Profile × Option Profile → Profile × Option Profile → Prop}

mutual

/-- The same objects are accepted, if each of them is or is not with both settings. -/
theorem entries_agree (h : ∀ m, Agree (Option.Rel A) (tryParse H f m) (tryParse H f' m)) : ∀ j : Json,
    Agree (List.Forall₂ A) (entries H f j) (entries H f' j)
  | .obj members => by
    rw [entries_obj, entries_obj]
    refine (h members).bind ?_
    rintro _ _ (ha | _)
    · exact .cons ha .nil
    · exact entriesMembers_agree h members
  | .arr elems => by
    rw [entries, entries]
    exact entriesElems_agree h elems
  | .null => .nil
  | .bool _ => .nil
  | .num _ _ => .nil
  | .str _ => .nil

theorem entriesElems_agree (h : ∀ m, Agree (Option.Rel A) (tryParse H f m) (tryParse H f' m)) :
    ∀ js : List Json, Agree (List.Forall₂ A) (entriesElems H f js) (entriesElems H f' js)
  | [] => .nil
  | j :: js => by
    rw [entriesElems_cons, entriesElems_cons]
    refine (entries_agree h j).bind ?_
    intro es es' hes
    refine (entriesElems_agree h js).bind ?_
    intro fs fs' hfs
    exact List.rel_append hes hfs

theorem entriesMembers_agree (h : ∀ m, Agree (Option.Rel A) (tryParse H f m) (tryParse H f' m)) :
    ∀ ms : List (Str × Json), Agree (List.Forall₂ A) (entriesMembers H f ms) (entriesMembers H f' ms)
  | [] => .nil
  | (k, j) :: ms => by
    rw [entriesMembers_cons, entriesMembers_cons]
    refine (entries_agree h j).bind ?_
    intro es es' hes
    refine (entriesMembers_agree h ms).bind ?_
    intro fs fs' hfs
    exact List.rel_append hes hfs

end

/-- **With other feature settings the same objects are accepted.** -/
theorem entries_alike (j : Json) : Agree (List.Forall₂ AlikeEntry) (entries H f j) (entries H f' j) :=
  entries_agree H f f' (tryParse_alike H f f') j

/-- Current profiles with the same feature settings, or none. -/
def SameFeatures (f f' : Option Profile) : Prop :=
  f.map Profile.copyFeatureSettingsTo = f'.map Profile.copyFeatureSettingsTo

theorem entries_eq {f f' : Option Profile} (h : SameFeatures f f') (j : Json) : entries H f j = entries H f' j := by
  have hparse : ∀ m b, parseProfile H f m b = parseProfile H f' m b := by
    intro m b
    unfold SameFeatures at h
    cases f with
    | none =>
      cases f' with
      | none => rfl
      | some g => cases h
    | some f =>
      cases f' with
      | none => cases h
      | some g =>
        simp only [Option.map_some, Option.some.injEq] at h
        unfold parseProfile
        simp only [h]
  have htry : ∀ m, Agree (Option.Rel Eq) (tryParse H f m) (tryParse H f' m) := by
    intro m
    have heq : tryParse H f m = tryParse H f' m := by
      unfold tryParse
      simp only [hparse]
    rw [heq]
    rcases tryParse H f' m with g | (_ | e)
    · rfl
    · exact .none
    · exact .some rfl
  have hall := entries_agree H f f' htry j
  cases hj : entries H f j with
  | error g =>
    cases hj' : entries H f' j with
    | error g' =>
      rw [hj, hj'] at hall
      have hg : g = g' := hall
      rw [hg]
    | ok es' => rw [hj, hj'] at hall; exact hall.elim
  | ok es =>
    cases hj' : entries H f' j with
    | error g' => rw [hj, hj'] at hall; exact hall.elim
    | ok es' =>
      rw [hj, hj'] at hall
      have hes : List.Forall₂ Eq es es' := hall
      rw [List.forall₂_eq_eq_eq] at hes
      rw [hes]

end Features

/-- A profile as it comes from a document. -/
def Parsed (p : Profile) : Prop := Alike p p

theorem parsed_of_entries {H : HashOrder} {f : Option Profile} {j : Json} {es : List (Profile × Option Profile)}
    (h : entries H f j = .ok es) : ∀ e ∈ es, Parsed e.1 ∧ ∀ q, e.2 = some q → Parsed q := by
  have hself := entries_alike H f f j
  rw [h] at hself
  have hes : List.Forall₂ AlikeEntry es es := hself
  intro e he
  obtain ⟨hmain, hfallback⟩ := List.forall₂_same.1 hes e he
  refine ⟨hmain, ?_⟩
  intro q hq
  rw [hq] at hfallback
  cases hfallback with
  | some h => exact h

namespace Content

/-- A content as it comes from a document: fallbacks are resolved for profiles of the document. -/
structure WellFormed (c : Content) : Prop where
  mains : ∀ p ∈ c.mains, Parsed p
  links : ∀ l ∈ c.links, Parsed l.2 ∧ ∃ p ∈ c.mains, p.pair = l.1

theorem mem_linksOf {ps : List Profile} : ∀ {map : List (Profile × Profile)} {out : List (Key × Profile)}
    {l : Key × Profile}, l ∈ linksOf ps map out → l ∈ out ∨ ∃ p ∈ ps, p.pair = l.1 ∧ (p, l.2) ∈ map := by
  induction ps with
  | nil => exact fun h => Or.inl h
  | cons p ps ih =>
    intro map out l h
    have hrest : ∀ q ∈ ps, (q, l.2) ∈ Assoc.remove map p → (q, l.2) ∈ map := fun q _ hq => List.mem_of_mem_filter hq
    rw [linksOf] at h
    cases hget : Assoc.get map p with
    | none =>
      rw [hget] at h
      rcases ih h with h | ⟨q, hq, hp, hm⟩
      · exact Or.inl h
      · exact Or.inr ⟨q, List.mem_cons_of_mem p hq, hp, hrest q hq hm⟩
    | some f =>
      rw [hget] at h
      rcases ih h with h | ⟨q, hq, hp, hm⟩
      · rcases Assoc.mem_put h with h | rfl
        · exact Or.inl h
        · exact Or.inr ⟨p, List.mem_cons_self, rfl, Assoc.mem_of_get hget⟩
      · exact Or.inr ⟨q, List.mem_cons_of_mem p hq, hp, hrest q hq hm⟩

theorem wellFormed_ofEntries {H : HashOrder} {f : Option Profile} {j : Json}
    {es : List (Profile × Option Profile)} (h : entries H f j = .ok es) : (ofEntries es).WellFormed := by
  have hparsed := parsed_of_entries h
  have hmains : (ofEntries es).mains = es.map Prod.fst := by
    unfold ofEntries
    simp only
    rw [profiles_foldl]
    rfl
  refine ⟨?_, ?_⟩
  · rw [hmains]
    intro p hp
    obtain ⟨e, he, rfl⟩ := List.mem_map.1 hp
    exact (hparsed e he).1
  · intro l hl
    rcases mem_linksOf hl with hl | ⟨p, hp, hpair, hm⟩
    · cases hl
    · exact ⟨(hparsed _ (mem_fallbackMap hm)).2 _ rfl, p, hp, hpair⟩

theorem wellFormed_ofDocuments {H : HashOrder} {f : Option Profile} {ds : List Document} :
    ∀ c ∈ ofDocuments H f ds, c.WellFormed := by
  intro c hc
  obtain ⟨d, -, hd⟩ := List.mem_filterMap.1 hc
  unfold ofDocument at hd
  cases hs : d.single with
  | error g => rw [hs] at hd; cases hd
  | ok json =>
    rw [hs] at hd
    cases hes : entries H f json with
    | error g => simp only [hes] at hd; cases hd
    | ok es =>
      simp only [hes, Option.some.injEq] at hd
      rw [← hd]
      exact wellFormed_ofEntries hes

end Content

/-! ## Running a content -/

namespace Sync

/-- A profile is handed to the callback. -/
def hand (w : World Sync) (p : Profile) : World Sync := (create w p).1

/-- The object of a profile gets its fallback, and is written. -/
def relink (w : World Sync) (o : Profile) (id : ℤ) : World Sync :=
  { w with table := w.table.update (o.withFallback id), objects := replace w.objects (o.withFallback id) }

/-- A fallback is resolved against the rows of the table at the end of the loop. -/
def resolve (rows : List Profile) (w : World Sync) (l : Key × Profile) : World Sync :=
  let s := target create rows w l.2
  match (Assoc.get s.1.extra.subscriptions l.1).bind s.1.object with
  | none => s.1
  | some o => relink s.1 o s.2

def run (w : World Sync) (c : Content) : World Sync :=
  let w := c.mains.foldl hand w
  c.links.foldl (resolve w.table.rows) w

variable {t : Table} {profileId : ℤ} {w : World Sync}

theorem get_create (h : Inv t profileId w) (it : Profile) {k : Key} {id : ℤ}
    (hk : Assoc.get w.extra.subscriptions k = some id) :
    Assoc.get (create w it).1.extra.subscriptions k = some id := by
  rcases create_cases h it with ⟨hget, hc⟩ | ⟨o, -, -, -, hc⟩ | ⟨o, -, -, -, hc⟩
  · rw [hc]
    have hne : it.pair ≠ k := by
      rintro rfl
      rw [hget] at hk
      cases hk
    show Assoc.get (Assoc.put _ _ _) _ = _
    rw [Assoc.get_put, if_neg hne]
    exact hk
  · rw [hc]
    exact hk
  · rw [hc]
    exact hk

/-- The object that the callback returns is active, and active objects stay as they are. -/
theorem create_object (h : Inv t profileId w) (it : Profile) :
    (∃ o ∈ (create w it).1.objects, o.id = (create w it).2 ∧ o.pair = it.pair ∧ o.subscription = .active ∧
      Assoc.get (create w it).1.extra.subscriptions it.pair = some o.id ∧
      (it.pair ∉ w.extra.handed → o.refresh it = o)) ∧
    ∀ o ∈ w.objects, o.subscription = .active → o ∈ (create w it).1.objects := by
  rcases create_cases h it with ⟨hget, hc⟩ | ⟨o, ho, hget, ha, hc⟩ | ⟨o, ho, hget, hst, hc⟩
  · rw [hc]
    refine ⟨⟨stored w it, List.mem_append_right _ List.mem_cons_self, rfl, rfl, rfl, ?_, fun _ => rfl⟩, ?_⟩
    · show Assoc.get (Assoc.put _ _ _) _ = _
      rw [Assoc.get_put, if_pos rfl]
      rfl
    · exact fun o ho _ => List.mem_append_left _ ho
  · rw [hc]
    have hp := (h.pair_of_get ho hget).1
    have hhanded : it.pair ∈ w.extra.handed := by
      rw [← hp, ← h.active o ho (by rw [hp]; exact hget)]
      exact ha
    exact ⟨⟨o, ho, rfl, hp, ha, hget, fun hne => absurd hhanded hne⟩, fun q hq _ => hq⟩
  · rw [hc]
    have hmem : o.id ∈ w.objects.map Profile.id := List.mem_map_of_mem ho
    refine ⟨⟨o.refresh it, mem_replace.2 (Or.inr ⟨rfl, hmem⟩), rfl, (h.pair_of_get ho hget).1, rfl, hget,
      fun _ => rfl⟩, ?_⟩
    intro q hq hqa
    refine mem_replace.2 (Or.inl ⟨hq, ?_⟩)
    intro hid
    rw [h.object_eq hq ho hid, hst] at hqa
    cases hqa

/-- An entry of the map, whose key is the object of a pair. -/
def Entry (w : World Sync) (e : Profile × Profile) (l : Key × Profile) : Prop :=
  e.1 ∈ w.objects ∧ e.1.subscription = .active ∧ Assoc.get w.extra.subscriptions l.1 = some e.1.id ∧ e.2 = l.2

theorem Entry.create {e : Profile × Profile} {l : Key × Profile} (he : Entry w e l) (h : Inv t profileId w)
    (it : Profile) : Entry (create w it).1 e l :=
  ⟨(create_object h it).2 e.1 he.1 he.2.1, he.2.1, get_create h it he.2.2.1, he.2.2.2⟩

/-- A fallback put under the object of a pair is put under the pair. -/
theorem forall₂_put (h : Inv t profileId w) {om : List (Profile × Profile)} {out : List (Key × Profile)}
    (hout : List.Forall₂ (Entry w) om out) {o : Profile} (ho : o ∈ w.objects) (ha : o.subscription = .active)
    {k : Key} (hget : Assoc.get w.extra.subscriptions k = some o.id) (q : Profile) :
    List.Forall₂ (Entry w) (Assoc.put om o q) (Assoc.put out k q) := by
  induction hout with
  | nil => exact .cons ⟨ho, ha, hget, rfl⟩ .nil
  | @cons e l om out he hrest ih =>
    obtain ⟨hm, hea, hl, hq⟩ := he
    have hiff : e.1 = o ↔ l.1 = k := by
      constructor
      · intro heo
        have h₁ := (h.pair_of_get hm hl).1
        have h₂ := (h.pair_of_get ho hget).1
        rw [← h₁, ← h₂, heo]
      · intro hlk
        rw [hlk, hget, Option.some.injEq] at hl
        exact h.object_eq hm ho hl.symm
    by_cases heo : e.1 = o
    · rw [Assoc.put, if_pos heo, Assoc.put, if_pos (hiff.1 heo)]
      exact .cons ⟨hm, hea, hl, rfl⟩ hrest
    · rw [Assoc.put, if_neg heo, Assoc.put, if_neg (fun hlk => heo (hiff.2 hlk))]
      exact .cons ⟨hm, hea, hl, hq⟩ ih

/-- **The loop of `parseJson`** hands over the profiles and leaves the fallbacks in the map. -/
theorem createAll_entries (ps : List Profile) :
    ∀ {w : World Sync} {m om : List (Profile × Profile)} {out : List (Key × Profile)}, Inv t profileId w →
      (∀ p ∈ ps, p.subscription = .userConfigured) → (∀ e ∈ m, e.1 ∈ ps) → List.Forall₂ (Entry w) om out →
      Inv t profileId (ps.foldl hand w) ∧ (ps.foldl (createNext create) (w, m ++ om)).1 = ps.foldl hand w ∧
        List.Forall₂ (Entry (ps.foldl hand w)) (ps.foldl (createNext create) (w, m ++ om)).2
          (Content.linksOf ps m out) := by
  induction ps with
  | nil =>
    intro w m om out h _ hm hout
    have hnil : m = [] := List.eq_nil_iff_forall_not_mem.2 fun e he => List.not_mem_nil (hm e he)
    rw [hnil]
    exact ⟨h, rfl, hout⟩
  | cons p ps ih =>
    intro w m om out h hps hm hout
    obtain ⟨⟨o, ho, hid, -, ha, hget, -⟩, -⟩ := create_object h p
    have h' := (create_inv h p).1
    have hout' : List.Forall₂ (Entry (create w p).1) om out := hout.imp fun _ _ he => he.create h p
    -- the keys of `om` are active, those of `m` are not
    have hnot : ∀ q : Profile, q.subscription = .userConfigured → q ∉ Assoc.keys om := by
      intro q hq hmem
      obtain ⟨e, he, rfl⟩ := List.mem_map.1 hmem
      obtain ⟨l, -, -, ha, -⟩ := (exists_of_forall₂ hout).1 e he
      rw [hq] at ha
      cases ha
    have hkeys : o ∉ Assoc.keys (Assoc.remove m p) := by
      intro hmem
      obtain ⟨e, he, rfl⟩ := List.mem_map.1 hmem
      rw [hps e.1 (hm e (List.mem_of_mem_filter he))] at ha
      cases ha
    have hrest : ∀ e ∈ Assoc.remove m p, e.1 ∈ ps := by
      intro e he
      have hne : e.1 ≠ p := by simpa using (List.mem_filter.1 he).2
      exact (List.mem_cons.1 (hm e (List.mem_of_mem_filter he))).resolve_left hne
    have hpu := hnot p (hps p List.mem_cons_self)
    have hps' : ∀ q ∈ ps, q.subscription = .userConfigured := fun q hq => hps q (List.mem_cons_of_mem p hq)
    have hobj : (create w p).1.object (create w p).2 = some o := by
      rw [← hid]
      exact World.object_of_mem h'.nodup ho
    rw [List.foldl_cons, List.foldl_cons, Content.linksOf]
    unfold createNext
    simp only [Assoc.get_append hpu, Assoc.remove_append hpu, hobj, Option.getD_some]
    cases Assoc.get m p with
    | none => exact ih h' hps' hrest hout'
    | some q =>
      simp only [Assoc.put_append hkeys]
      exact ih h' hps' hrest (forall₂_put h' hout' ho ha hget q)

theorem target_inv (h : Inv t profileId w) (rows : List Profile) (q : Profile) :
    Inv t profileId (target create rows w q).1 ∧ ∀ k id, Assoc.get w.extra.subscriptions k = some id →
      Assoc.get (target create rows w q).1.extra.subscriptions k = some id := by
  unfold target
  cases rows.find? (matching q) with
  | some m => exact ⟨h, fun _ _ hk => hk⟩
  | none => exact ⟨(create_inv h q).1, fun _ _ hk => get_create h q hk⟩

/-- A fallback of a profile with a known pair: its object is linked to the target. -/
theorem resolve_eq (h : Inv t profileId w) (rows : List Profile) {l : Key × Profile} {id : ℤ}
    (hget : Assoc.get w.extra.subscriptions l.1 = some id) :
    ∃ o ∈ (target create rows w l.2).1.objects, o.id = id ∧ o.pair = l.1 ∧
      (target create rows w l.2).1.object id = some o ∧ id ∈ (target create rows w l.2).1.table.ids ∧
      resolve rows w l = relink (target create rows w l.2).1 o (target create rows w l.2).2 := by
  obtain ⟨h', hmono⟩ := target_inv h rows l.2
  obtain ⟨hids, o, ho, hid, hp, -⟩ := h'.subs_object l.1 id (hmono _ _ hget)
  have hobj : (target create rows w l.2).1.object id = some o := by
    rw [← hid]
    exact World.object_of_mem h'.nodup ho
  refine ⟨o, ho, hid, hp, hobj, hids, ?_⟩
  unfold resolve
  simp only [hmono _ _ hget, Option.bind_some, hobj]

theorem link_resolve (h : Inv t profileId w) (rows : List Profile) {e : Profile × Profile} {l : Key × Profile}
    (hget : Assoc.get w.extra.subscriptions l.1 = some e.1.id) (heq : e.2 = l.2) :
    link create rows w e = (resolve rows w l, none) ∧ Inv t profileId (resolve rows w l) ∧
      ∀ k id, Assoc.get w.extra.subscriptions k = some id →
        Assoc.get (resolve rows w l).extra.subscriptions k = some id := by
  obtain ⟨o, ho, hid, -, hobj, hids, hres⟩ := resolve_eq h rows hget
  have hlink : link create rows w e = (resolve rows w l, none) := by
    have hmem : (o.withFallback (target create rows w l.2).2).id ∈ ((target create rows w l.2).1.setObject
        (o.withFallback (target create rows w l.2).2)).table.ids := by
      show o.id ∈ (target create rows w l.2).1.table.ids
      rw [hid]
      exact hids
    unfold link
    rw [heq]
    simp only [hobj, Option.getD_some]
    rw [World.updateProfile, if_pos hmem, hres]
    rfl
  obtain ⟨w', hw', h', -⟩ := link_inv h rows ⟨l.1, hget⟩
  rw [hlink, Prod.mk.injEq] at hw'
  refine ⟨hlink, by rw [hw'.1]; exact h', ?_⟩
  intro k i hk
  rw [hres]
  exact (target_inv h rows l.2).2 k i hk

theorem linkAll_resolve (rows : List Profile) {map : List (Profile × Profile)} {links : List (Key × Profile)} :
    ∀ {w : World Sync}, Inv t profileId w →
      List.Forall₂ (fun e l => Assoc.get w.extra.subscriptions l.1 = some e.1.id ∧ e.2 = l.2) map links →
      linkAll create rows map w = (links.foldl (resolve rows) w, none) ∧
        Inv t profileId (links.foldl (resolve rows) w) := by
  induction links generalizing map with
  | nil =>
    intro w h hall
    cases hall
    exact ⟨rfl, h⟩
  | cons l links ih =>
    intro w h hall
    cases hall with
    | @cons e _ map _ he hall =>
      obtain ⟨hlink, h', hmono⟩ := link_resolve h rows he.1 he.2
      rw [linkAll, hlink, List.foldl_cons]
      exact ih h' (hall.imp fun e l hel => ⟨hmono _ _ hel.1, hel.2⟩)

/-- **Reading a document is running its content.** -/
theorem parseJson_run (H : HashOrder) (feature : Option Profile) {json : Json}
    {es : List (Profile × Option Profile)} (hes : entries H feature json = .ok es) (h : Inv t profileId w) :
    parseJson create H feature json w = (run w (.ofEntries es), none) ∧
      Inv t profileId (run w (.ofEntries es)) := by
  have hparsed := parsed_of_entries hes
  have hprofiles : (es.foldl addEntry .new).profiles = es.map Prod.fst := by
    rw [profiles_foldl]
    rfl
  have hmains : ∀ p ∈ (es.foldl addEntry .new).profiles, p.subscription = .userConfigured := by
    intro p hp
    rw [hprofiles] at hp
    obtain ⟨e, he, rfl⟩ := List.mem_map.1 hp
    exact (hparsed e he).1.status.1
  have hkeys : ∀ e ∈ (es.foldl addEntry .new).fallbackMap, e.1 ∈ (es.foldl addEntry .new).profiles := by
    intro e he
    rw [hprofiles]
    exact List.mem_map.2 ⟨_, mem_fallbackMap he, rfl⟩
  obtain ⟨h₁, hw, hmap⟩ := createAll_entries _ h hmains hkeys (.nil : List.Forall₂ (Entry w) [] [])
  rw [List.append_nil] at hw hmap
  obtain ⟨hlinks, h₂⟩ := linkAll_resolve ((es.foldl addEntry .new).profiles.foldl hand w).table.rows h₁
    (hmap.imp fun e l hel => ⟨hel.2.2.1, hel.2.2.2⟩)
  refine ⟨?_, h₂⟩
  rw [parseJson_ok create hes, ← hprofiles]
  unfold finalize
  rw [hw]
  exact hlinks

/-- **Reading documents is running their contents.** -/
theorem readDocuments_run (H : HashOrder) (feature : Option Profile) (ds : List Document) :
    ∀ {w : World Sync} {toasts : List Fault}, Inv t profileId w →
      (ds.foldl (readDocument H feature) (w, toasts)).1 =
        (Content.ofDocuments H feature ds).foldl run w := by
  induction ds with
  | nil => exact fun _ => rfl
  | cons d ds ih =>
    intro w toasts h
    rw [List.foldl_cons, Content.ofDocuments, List.filterMap_cons]
    cases hd : d.single with
    | error f =>
      simp only [readDocument, Content.ofDocument, hd]
      exact ih h
    | ok json =>
      cases hes : entries H feature json with
      | error f =>
        have hthrow : parseJson create H feature json w = (w, some f) := by
          exact parseJson_error create hes w
        simp only [readDocument, Content.ofDocument, hd, hes, hthrow]
        exact ih h
      | ok es =>
        obtain ⟨hrun, h'⟩ := parseJson_run H feature hes h
        simp only [readDocument, Content.ofDocument, hd, hes, hrun, List.foldl_cons]
        exact ih h'

end Sync

end BlackButton
