import BlackButton.Database.Entries

/-!
# UDP fallbacks of imported profiles (`JsonParser.finalize` in `database/Profile.kt`)

When every entry has its row, the fallbacks that were kept are resolved: to a stored
profile with the server of the fallback and no plugin, or else to a new row.

* `linkAll_spec`: what the fallbacks are resolved to.
* `parseJson_spec`: the rows of a document, each with what is kept for it.
* `fallbacks_iff`: **every entry has its own fallback** if and only if no entry with a
  fallback comes after an entry with the same settings, and no fallback with a plugin
  has to be created.
-/

namespace BlackButton

namespace JsonParser

open Json

/-! ## Resolving the fallbacks -/

/-- The objects of this run are the last rows of the table, after those of `t`. -/
structure Mirrored (t : Table) (w : World Unit) : Prop where
  rows : w.table.rows = t.rows ++ w.objects
  new : ∀ o ∈ w.objects, t.seq < o.id
  seq : t.seq ≤ w.table.seq

/-- The rows of `t` are still there, with their settings. -/
def Kept (t t' : Table) : Prop :=
  ∀ id r, t.get id = some r → ∃ r', t'.get id = some r' ∧ Backup.settings r' = Backup.settings r

/-- The server of `x` is the one of `f`. -/
structure SameServer (f x : Profile) : Prop where
  host : x.host = f.host
  remotePort : x.remotePort = f.remotePort
  password : x.password = f.password
  method : x.method = f.method

/-- What a fallback is resolved to: the server of `f`, without a plugin if there was such a profile. -/
structure Answers (profiles : List Profile) (f x : Profile) : Prop where
  server : SameServer f x
  noPlugin : x.noPlugin ↔ profiles.any (matching f) ∨ f.noPlugin

theorem matching_iff {f r : Profile} : matching f r ↔ SameServer f r ∧ r.noPlugin := by
  unfold matching
  simp only [Bool.and_eq_true, decide_eq_true_eq]
  constructor
  · rintro ⟨⟨⟨⟨h₁, h₂⟩, h₃⟩, h₄⟩, h₅⟩
    exact ⟨⟨h₁.symm, h₂.symm, h₃.symm, h₄.symm⟩, h₅⟩
  · rintro ⟨⟨h₁, h₂, h₃, h₄⟩, h₅⟩
    exact ⟨⟨⟨⟨h₁.symm, h₂.symm⟩, h₃.symm⟩, h₄.symm⟩, h₅⟩

theorem noPlugin_eq {p q : Profile} (h : Backup.settings p = Backup.settings q) : p.noPlugin = q.noPlugin := by
  have hplugin : (Backup.settings p).noPlugin = (Backup.settings q).noPlugin := by rw [h]
  exact hplugin

theorem SameServer.of_settings {f x y : Profile} (h : SameServer f x) (hs : Backup.settings y = Backup.settings x) :
    SameServer f y where
  host := (congrArg Profile.host hs).trans h.host
  remotePort := (congrArg Profile.remotePort hs).trans h.remotePort
  password := (congrArg Profile.password hs).trans h.password
  method := (congrArg Profile.method hs).trans h.method

theorem matching_congr {f p q : Profile} (h : Backup.settings p = Backup.settings q) :
    matching f p ↔ matching f q := by
  rw [matching_iff, matching_iff, noPlugin_eq h]
  exact and_congr_left fun _ => ⟨fun hp => hp.of_settings h.symm, fun hq => hq.of_settings h⟩

theorem Answers.of_settings {profiles : List Profile} {f x y : Profile} (h : Answers profiles f x)
    (hs : Backup.settings y = Backup.settings x) : Answers profiles f y where
  server := h.server.of_settings hs
  noPlugin := by rw [noPlugin_eq hs]; exact h.noPlugin

theorem Kept.refl (t : Table) : Kept t t := fun _ r hr => ⟨r, hr, rfl⟩

theorem Kept.trans {t t' t'' : Table} (h : Kept t t') (h' : Kept t' t'') : Kept t t'' := by
  intro id r hr
  obtain ⟨r', hr', hs'⟩ := h id r hr
  obtain ⟨r'', hr'', hs''⟩ := h' id r' hr'
  exact ⟨r'', hr'', hs''.trans hs'⟩

section Link

variable {t : Table} {w : World Unit}

theorem Mirrored.nodup (h : Mirrored t w) : (w.objects.map Profile.id).Nodup := by
  have := w.table.nodup
  rw [h.rows, List.map_append] at this
  exact (List.nodup_append.1 this).2.1

/-- The rows that this run has added are its objects. -/
theorem Mirrored.get_object (h : Mirrored t w) {id : ℤ} {o : Profile} (hid : t.seq < id)
    (ho : w.table.get id = some o) : w.object id = some o := by
  obtain ⟨hmem, rfl⟩ := Table.get_eq_some_iff.1 ho
  rw [h.rows] at hmem
  rcases List.mem_append.1 hmem with hold | hnew
  · have := t.le_seq o hold
    omega
  · exact World.object_of_mem h.nodup hnew

theorem Mirrored.get_self (h : Mirrored t w) : ∀ o ∈ w.objects, w.table.get o.id = some o := by
  intro o ho
  refine Table.get_eq_some_iff.2 ⟨?_, rfl⟩
  rw [h.rows]
  exact List.mem_append_right _ ho

/-- What a fallback stands for is stored. -/
theorem target_spec (h : Mirrored t w) {profiles : List Profile}
    (hprofiles : ∀ m ∈ profiles, ∃ r, w.table.get m.id = some r ∧ Backup.settings r = Backup.settings m)
    (f : Profile) :
    ∃ x, Mirrored t (target World.createProfile profiles w f).1 ∧
      (∀ id r, w.table.get id = some r → (target World.createProfile profiles w f).1.table.get id = some r) ∧
      (target World.createProfile profiles w f).1.table.get (target World.createProfile profiles w f).2 = some x ∧
      Answers profiles f x := by
  unfold target
  cases hfind : profiles.find? (matching f) with
  | some m =>
    have hmatch := matching_iff.1 (List.find?_some hfind)
    have hmem := List.mem_of_find?_eq_some hfind
    obtain ⟨x, hx, hs⟩ := hprofiles m hmem
    have hany : profiles.any (matching f) := List.any_eq_true.2 ⟨m, hmem, List.find?_some hfind⟩
    refine ⟨x, h, fun id r hr => hr, hx, hmatch.1.of_settings hs, ?_⟩
    rw [noPlugin_eq hs]
    exact iff_of_true hmatch.2 (Or.inl hany)
  | none =>
    obtain ⟨o, hobjects, hrows, -, hid, hsettings, -⟩ := object_createProfile w (le_seq_of_rows h.rows) f
    have hself : SameServer f f := ⟨rfl, rfl, rfl, rfl⟩
    have hseq : (w.createProfile f).1.table.seq = w.table.seq + 1 := rfl
    have hle := h.seq
    refine ⟨o, ⟨?_, ?_, ?_⟩, fun id r hr => ?_, ?_, hself.of_settings hsettings, ?_⟩
    · rw [hrows, hobjects, h.rows, List.append_assoc]
    · rw [hobjects]
      refine List.forall_mem_append.2 ⟨h.new, ?_⟩
      intro x hx
      rw [List.mem_singleton.1 hx, hid]
      omega
    · rw [hseq]
      omega
    · obtain ⟨hr, hrid⟩ := Table.get_eq_some_iff.1 hr
      refine Table.get_eq_some_iff.2 ⟨?_, hrid⟩
      rw [hrows]
      exact List.mem_append_left _ hr
    · refine Table.get_eq_some_iff.2 ⟨?_, hid⟩
      rw [hrows]
      simp
    · have hany : ¬profiles.any (matching f) := by
        rw [List.any_eq_true]
        rintro ⟨m, hm, hmatch⟩
        exact List.find?_eq_none.1 hfind m hm hmatch
      rw [noPlugin_eq hsettings, or_iff_right hany]

theorem replace_append_new {l l' : List Profile} {p : Profile} (h : ∀ r ∈ l, r.id ≠ p.id) :
    replace (l ++ l') p = l ++ replace l' p := by
  unfold replace
  rw [List.map_append]
  have hself : l.map (fun r => if r.id = p.id then p else r) = l := by
    refine (List.map_congr_left ?_).trans (List.map_id l)
    exact fun r hr => if_neg (h r hr)
  rw [hself]

/-- **One fallback is resolved**: the row of its profile refers to it, and no other row has changed. -/
theorem link_spec (h : Mirrored t w) {profiles : List Profile}
    (hprofiles : ∀ m ∈ profiles, ∃ r, w.table.get m.id = some r ∧ Backup.settings r = Backup.settings m)
    {e : Profile × Profile} {o : Profile} (hnew : t.seq < e.1.id) (ho : w.table.get e.1.id = some o) :
    ∃ w' id x, link World.createProfile profiles w e = (w', none) ∧ Mirrored t w' ∧
      (∀ i r, i ≠ e.1.id → w.table.get i = some r → w'.table.get i = some r) ∧
      w'.table.get e.1.id = some (o.withFallback id) ∧ w'.table.get id = some x ∧ Answers profiles e.2 x := by
  obtain ⟨x, hm, hkept, hx, hanswers⟩ := target_spec h hprofiles e.2
  generalize hs : target World.createProfile profiles w e.2 = s at hm hkept hx
  have ho' := hkept _ o ho
  have hoid : o.id = e.1.id := (Table.get_eq_some_iff.1 ho).2
  have hget : s.1.table.get (o.withFallback s.2).id = some o := by
    rw [Profile.id_withFallback, hoid]
    exact ho'
  have hlink : link World.createProfile profiles w e =
      (⟨s.1.table.update (o.withFallback s.2), replace s.1.objects (o.withFallback s.2), ()⟩, none) := by
    have hid : (o.withFallback s.2).id ∈ s.1.table.ids := by
      obtain ⟨hmem, hid⟩ := Table.get_eq_some_iff.1 hget
      exact Table.mem_ids.2 ⟨o, hmem, hid⟩
    unfold link
    rw [hs]
    simp only [hm.get_object hnew ho', Option.getD_some]
    unfold World.updateProfile World.setObject
    rw [if_pos hid]
  have hself : (s.1.table.update (o.withFallback s.2)).get e.1.id = some (o.withFallback s.2) := by
    rw [← hoid]
    exact Table.get_update hget
  have hother : ∀ i, i ≠ e.1.id → (s.1.table.update (o.withFallback s.2)).get i = s.1.table.get i := by
    intro i hi
    refine Table.get_update_ne ?_
    rw [Profile.id_withFallback, hoid]
    exact hi
  refine ⟨_, s.2, if s.2 = e.1.id then o.withFallback s.2 else x, hlink, ⟨?_, ?_, hm.seq⟩, ?_, hself, ?_, ?_⟩
  · show replace s.1.table.rows _ = _
    rw [hm.rows]
    refine replace_append_new fun r hr => ?_
    rw [Profile.id_withFallback, hoid]
    have := t.le_seq r hr
    omega
  · intro q hq
    rcases mem_replace.1 hq with ⟨hq, -⟩ | ⟨rfl, -⟩
    · exact hm.new q hq
    · rw [Profile.id_withFallback, hoid]
      exact hnew
  · intro i r hi hr
    show (s.1.table.update _).get i = _
    rw [hother i hi]
    exact hkept i r hr
  · show (s.1.table.update _).get s.2 = _
    -- the profile that is found can be the one that gets the fallback
    split
    · rename_i hsame
      rw [hsame] at hself ⊢
      exact hself
    · rename_i hdiff
      rw [hother s.2 hdiff]
      exact hx
  · split
    · rename_i hsame
      rw [hsame, ho'] at hx
      rw [← Option.some.inj hx] at hanswers
      exact hanswers.of_settings rfl
    · exact hanswers

/-- **Every fallback of the map is resolved**, and no row without one has changed. -/
theorem linkAll_spec {profiles : List Profile} (es : List (Profile × Profile)) :
    ∀ {w : World Unit}, Mirrored t w →
      (∀ m ∈ profiles, ∃ r, w.table.get m.id = some r ∧ Backup.settings r = Backup.settings m) →
      (∀ e ∈ es, t.seq < e.1.id ∧ ∃ o, w.table.get e.1.id = some o) → (es.map (fun e => e.1.id)).Nodup →
      ∃ w', linkAll World.createProfile profiles es w = (w', none) ∧ Kept w.table w'.table ∧
        (∀ i r, i ∉ es.map (fun e => e.1.id) → w.table.get i = some r → w'.table.get i = some r) ∧
        ∀ e ∈ es, ∃ r id x, w'.table.get e.1.id = some r ∧ r.udpFallback = some id ∧ w'.table.get id = some x ∧
          Answers profiles e.2 x := by
  induction es with
  | nil =>
    intro w _ _ _ _
    exact ⟨w, rfl, Kept.refl _, fun i r _ hr => hr, by simp⟩
  | cons e es ih =>
    intro w h hprofiles hes hnodup
    rw [List.map_cons, List.nodup_cons] at hnodup
    obtain ⟨⟨hnew, o, ho⟩, hrest⟩ := List.forall_mem_cons.1 hes
    obtain ⟨w₁, id, x, hlink, h₁, hother, hself, hx, hanswers⟩ := link_spec h hprofiles hnew ho
    have hkept₁ : Kept w.table w₁.table := by
      intro i r hr
      by_cases hi : i = e.1.id
      · rw [hi, ho] at hr
        cases hr
        rw [hi]
        exact ⟨_, hself, rfl⟩
      · exact ⟨r, hother i r hi hr, rfl⟩
    have hprofiles₁ : ∀ m ∈ profiles, ∃ r, w₁.table.get m.id = some r ∧ Backup.settings r = Backup.settings m := by
      intro m hm
      obtain ⟨r, hr, hs⟩ := hprofiles m hm
      obtain ⟨r', hr', hs'⟩ := hkept₁ _ r hr
      exact ⟨r', hr', hs'.trans hs⟩
    have hrest₁ : ∀ e ∈ es, t.seq < e.1.id ∧ ∃ o, w₁.table.get e.1.id = some o := by
      intro e' he'
      obtain ⟨hnew', o', ho'⟩ := hrest e' he'
      obtain ⟨o'', ho'', -⟩ := hkept₁ _ o' ho'
      exact ⟨hnew', o'', ho''⟩
    obtain ⟨w', hall, hkept, hsame, hresolved⟩ := ih h₁ hprofiles₁ hrest₁ hnodup.2
    refine ⟨w', ?_, hkept₁.trans hkept, ?_, ?_⟩
    · rw [linkAll, hlink]
      exact hall
    · intro i r hi hr
      rw [List.map_cons, List.mem_cons, not_or] at hi
      exact hsame i r hi.2 (hother i r hi.1 hr)
    · refine List.forall_mem_cons.2 ⟨?_, hresolved⟩
      obtain ⟨x', hx', hs'⟩ := hkept _ x hx
      exact ⟨_, id, x', hsame _ _ hnodup.1 hself, rfl, hx', hanswers.of_settings hs'⟩

end Link

/-! ## The whole document -/

/-- The fallback that is kept for the entry at `i`. -/
def keptFor (es : List (Profile × Option Profile)) (i : ℕ) (p : Profile) : Option Profile :=
  if p ∈ (es.take i).map Prod.fst then none else Assoc.get (fallbacksOf es) p

/-- The row of a kept fallback, and of none. -/
def Resolved (t : Table) (profiles : List Profile) (r : Profile) : Option Profile → Prop
  | none => r.udpFallback = none
  | some f => ∃ id x, r.udpFallback = some id ∧ t.get id = some x ∧ Answers profiles f x

/-- The entries have the rows after `seq`, in their order, each with what is kept for it. -/
def RowsOf (seq : ℤ) (es : List (Profile × Option Profile)) (profiles : List Profile) (t : Table) : Prop :=
  ∀ (i : ℕ) (e : Profile × Option Profile), es[i]? = some e →
    ∃ r, t.get (seq + 1 + i) = some r ∧ Backup.settings r = Backup.settings e.1 ∧
      Resolved t profiles r (keptFor es i e.1)

/-- The profiles of entries, and their fallbacks, are new. -/
theorem new_entries {H : HashOrder} {feature : Option Profile} {json : Json} {es : List (Profile × Option Profile)}
    (h : entries H feature json = .ok es) : ∀ e ∈ es, New e.1 ∧ ∀ f, e.2 = some f → New f := by
  intro e he
  obtain ⟨members, hm⟩ := accepted_entries H feature json h e he
  exact new_tryParse hm

theorem fresh_entries {H : HashOrder} {feature : Option Profile} {json : Json} {es : List (Profile × Option Profile)}
    (h : entries H feature json = .ok es) : ∀ p ∈ es.map Prod.fst, Fresh p := by
  intro p hp
  obtain ⟨e, he, rfl⟩ := List.mem_map.1 hp
  exact (new_entries h e he).1.toFresh

theorem created_nil {es : List (Profile × Option Profile)} (hes : ∀ p ∈ es.map Prod.fst, Fresh p) (t : Table) :
    Created t (fallbacksOf es) [] ⟨t, [], ()⟩ (fallbacksOf es) where
  rows := (List.append_nil _).symm
  seq := (Int.add_zero _).symm
  length := rfl
  object := by simp
  nodup := nodup_fallbacksOf es
  keys := by
    intro k hk
    obtain ⟨x, hx, rfl⟩ := List.mem_map.1 hk
    exact Or.inl (hes _ (List.mem_map.2 ⟨_, mem_fallbackMap hx, rfl⟩)).id
  waiting := by simp
  kept := by simp

/-- When every profile has its row, the map has objects only. -/
theorem Created.objects {t : Table} {es : List (Profile × Option Profile)} {w : World Unit}
    {map : List (Profile × Profile)} (h : Created t (fallbacksOf es) (es.map Prod.fst) w map) :
    ∀ k ∈ Assoc.keys map, k ∈ w.objects := by
  intro k hk
  rcases h.keys k hk with hzero | hold
  · have hnone : Assoc.get map k = none := by
      rw [h.waiting k hzero]
      split
      · rfl
      · rename_i hdone
        rw [Assoc.get_eq_none]
        intro hkey
        obtain ⟨x, hx, rfl⟩ := List.mem_map.1 hkey
        exact hdone (List.mem_map.2 ⟨_, mem_fallbackMap hx, rfl⟩)
    exact absurd hk (Assoc.get_eq_none.1 hnone)
  · exact hold

theorem Created.mirrored {t : Table} {fallbacks map : List (Profile × Profile)} {done : List Profile}
    {w : World Unit} (h : Created t fallbacks done w map) : Mirrored t w where
  rows := h.rows
  new := h.new
  seq := by
    rw [h.seq]
    omega

/-- The profiles that a fallback can refer to: those of the table, and the entries. -/
theorem Created.any_rows {t : Table} {fallbacks map : List (Profile × Profile)}
    {es : List (Profile × Option Profile)} {w : World Unit} (h : Created t fallbacks (es.map Prod.fst) w map)
    (f : Profile) :
    w.table.rows.any (matching f) ↔ (∃ r ∈ t.rows, matching f r) ∨ ∃ e ∈ es, matching f e.1 := by
  rw [List.any_eq_true, h.rows]
  constructor
  · rintro ⟨x, hx, hmatch⟩
    rcases List.mem_append.1 hx with hold | hnew
    · exact Or.inl ⟨x, hold, hmatch⟩
    · obtain ⟨i, p, hp, hi⟩ := h.profile hnew
      obtain ⟨e, he, rfl⟩ := List.mem_map.1 (List.mem_of_getElem? hp)
      exact Or.inr ⟨e, he, (matching_congr (h.object i e.1 x hp hi).2.1).1 hmatch⟩
  · rintro (⟨r, hr, hmatch⟩ | ⟨e, he, hmatch⟩)
    · exact ⟨r, List.mem_append_left _ hr, hmatch⟩
    · have hp : e.1 ∈ es.map Prod.fst := List.mem_map_of_mem he
      obtain ⟨i, hp⟩ := List.mem_iff_getElem?.1 hp
      obtain ⟨o, ho⟩ := h.exists_object hp
      exact ⟨o, List.mem_append_right _ (List.mem_of_getElem? ho),
        (matching_congr (h.object i e.1 o hp ho).2.1).2 hmatch⟩

/-- **The entries have the next rows**, in their order, each with the fallback that is kept for it. -/
theorem Created.finalize {t : Table} {es : List (Profile × Option Profile)} {w : World Unit}
    {map : List (Profile × Profile)} (h : Created t (fallbacksOf es) (es.map Prod.fst) w map) :
    ∃ w', finalize World.createProfile map w = (w', none) ∧ RowsOf t.seq es w.table.rows w'.table := by
  have hm := h.mirrored
  have hinj : ∀ o ∈ w.objects, ∀ o' ∈ w.objects, o.id = o'.id → o = o' :=
    fun o ho o' ho' => List.inj_on_of_nodup_map hm.nodup ho ho'
  have hget := hm.get_self
  have hrows : ∀ m ∈ w.table.rows, ∃ r, w.table.get m.id = some r ∧ Backup.settings r = Backup.settings m :=
    fun m hmem => ⟨m, Table.get_eq_some_iff.2 ⟨hmem, rfl⟩, rfl⟩
  have hkeys : ∀ e ∈ map, t.seq < e.1.id ∧ ∃ o, w.table.get e.1.id = some o := by
    intro e he
    have hobject := h.objects e.1 (List.mem_map_of_mem he)
    exact ⟨hm.new _ hobject, _, hget _ hobject⟩
  have hids : (map.map (fun e => e.1.id)).Nodup := by
    have hmap : map.map (fun e => e.1.id) = (Assoc.keys map).map Profile.id := by
      unfold Assoc.keys
      rw [List.map_map]
      rfl
    rw [hmap]
    refine List.Nodup.map_on ?_ h.nodup
    exact fun k hk k' hk' hid => hinj k (h.objects k hk) k' (h.objects k' hk') hid
  obtain ⟨w', hlink, hkept, hsame, hresolved⟩ := linkAll_spec map hm hrows hkeys hids
  refine ⟨w', hlink, ?_⟩
  intro i e he
  have hdone : (es.map Prod.fst)[i]? = some e.1 := by
    rw [List.getElem?_map, he]
    rfl
  obtain ⟨o, ho⟩ := h.exists_object hdone
  obtain ⟨hid, hsettings, hnone⟩ := h.object i e.1 o hdone ho
  have hmem := List.mem_of_getElem? ho
  have hmap : Assoc.get map o = keptFor es i e.1 := by
    rw [h.kept i e.1 o hdone ho, ← List.map_take]
    rfl
  rw [← hid, ← hmap]
  cases hf : Assoc.get map o with
  | none =>
    have hnot : o.id ∉ map.map (fun e => e.1.id) := by
      intro hin
      obtain ⟨x, hx, hxid⟩ := List.mem_map.1 hin
      have hkey : x.1 ∈ Assoc.keys map := List.mem_map_of_mem hx
      exact Assoc.get_eq_none.1 hf (hinj x.1 (h.objects x.1 hkey) o hmem hxid ▸ hkey)
    exact ⟨o, hsame _ o hnot (hget o hmem), hsettings, hnone⟩
  | some f =>
    obtain ⟨r, id, x, hr, hrid, hx, hanswers⟩ := hresolved (o, f) (Assoc.mem_of_get hf)
    obtain ⟨r', hr', hs'⟩ := hkept _ o (hget o hmem)
    rw [hr] at hr'
    cases hr'
    exact ⟨r, hr, hs'.trans hsettings, id, x, hrid, hx, hanswers⟩

/-- **What `parseJson` does** with the entries of a document. -/
theorem parseJson_spec {H : HashOrder} {feature : Option Profile} {json : Json} {t : Table}
    {es : List (Profile × Option Profile)} (ht : 0 ≤ t.seq) (hes : entries H feature json = .ok es) :
    ∃ w profiles, parseJson World.createProfile H feature json ⟨t, [], ()⟩ = (w, none) ∧
      (∀ f, profiles.any (matching f) ↔ (∃ r ∈ t.rows, matching f r) ∨ ∃ e ∈ es, matching f e.1) ∧
      RowsOf t.seq es profiles w.table := by
  have hfresh := fresh_entries hes
  have hcreated := createAll_spec ht (es.map Prod.fst) (created_nil hfresh t) hfresh
  rw [List.nil_append] at hcreated
  obtain ⟨w, hfinalize, hrow⟩ := hcreated.finalize
  refine ⟨w, _, ?_, hcreated.any_rows, hrow⟩
  rw [parseJson_ok World.createProfile hes]
  exact hfinalize

/-- **The row `id` is the one of the entry `e`**, and refers to a stored profile with the server of the fallback
of `e`, and no plugin, if `e` has a fallback. -/
def OwnFallback (t : Table) (id : ℤ) (e : Profile × Option Profile) : Prop :=
  ∃ r, t.get id = some r ∧ Backup.settings r = Backup.settings e.1 ∧
    match e.2 with
    | none => r.udpFallback = none
    | some f => ∃ fallback x, r.udpFallback = some fallback ∧ t.get fallback = some x ∧ SameServer f x ∧ x.noPlugin

/-- No fallback with a plugin has to be created. -/
def Plain (t : Table) (es : List (Profile × Option Profile)) : Prop :=
  ∀ e ∈ es, ∀ f, e.2 = some f → f.noPlugin ∨ (∃ r ∈ t.rows, matching f r) ∨ ∃ e' ∈ es, matching f e'.1

/-- The fallback that is kept for an entry is its own, if the entries are separate. -/
theorem Separate.keptFor {es : List (Profile × Option Profile)} (h : Separate es) {i : ℕ}
    {e : Profile × Option Profile} (he : es[i]? = some e) : keptFor es i e.1 = e.2 := by
  have hsplit : es = es.take i ++ e :: es.drop (i + 1) := by
    obtain ⟨hi, rfl⟩ := List.getElem?_eq_some_iff.1 he
    rw [List.getElem_cons_drop, List.take_append_drop]
  unfold JsonParser.keptFor
  split
  · rename_i hin
    exact (h _ e _ hsplit hin).symm
  · rename_i hfirst
    exact get_fallbacksOf h hsplit hfirst

theorem separate_of_nodup {es : List (Profile × Option Profile)} (h : (es.map Prod.fst).Nodup) : Separate es := by
  rintro before e after rfl hsame
  rw [List.map_append, List.map_cons, List.nodup_append] at h
  exact absurd rfl (h.2.2 e.1 hsame e.1 List.mem_cons_self)

section Own

variable {seq : ℤ} {es : List (Profile × Option Profile)} {profiles : List Profile} {t : Table}

/-- The row of an entry that has its own fallback: what is kept for it is that fallback. -/
theorem RowsOf.of_own (h : RowsOf seq es profiles t) {i : ℕ} {e : Profile × Option Profile} (he : es[i]? = some e)
    (hown : OwnFallback t (seq + 1 + i) e) :
    ∃ r, Resolved t profiles r (keptFor es i e.1) ∧
      match e.2 with
      | none => r.udpFallback = none
      | some f =>
        ∃ fallback x, r.udpFallback = some fallback ∧ t.get fallback = some x ∧ SameServer f x ∧ x.noPlugin := by
  obtain ⟨r, hr, -, hresolved⟩ := h i e he
  obtain ⟨r', hr', -, hfallback⟩ := hown
  rw [hr] at hr'
  cases hr'
  exact ⟨r, hresolved, hfallback⟩

/-- Nothing is left for an entry whose settings were seen before. -/
theorem RowsOf.separate (h : RowsOf seq es profiles t)
    (hown : ∀ (i : ℕ) (e : Profile × Option Profile), es[i]? = some e → OwnFallback t (seq + 1 + i) e) :
    Separate es := by
  intro before e after hsplit hsame
  have he : es[before.length]? = some e := by
    rw [hsplit]
    simp
  obtain ⟨r, hresolved, hfallback⟩ := h.of_own he (hown _ e he)
  have hkept : keptFor es before.length e.1 = none := by
    unfold keptFor
    rw [hsplit, List.take_left' rfl]
    exact if_pos hsame
  rw [hkept] at hresolved
  have hnone : r.udpFallback = none := hresolved
  cases h2 : e.2 with
  | none => rfl
  | some f =>
    rw [h2] at hfallback
    obtain ⟨id, x, hid, -⟩ := hfallback
    rw [hnone] at hid
    cases hid

/-- A fallback that is resolved to a profile without plugin has none, or found that profile. -/
theorem RowsOf.plain (h : RowsOf seq es profiles t)
    (hown : ∀ (i : ℕ) (e : Profile × Option Profile), es[i]? = some e → OwnFallback t (seq + 1 + i) e) :
    ∀ e ∈ es, ∀ f, e.2 = some f → profiles.any (matching f) ∨ f.noPlugin := by
  intro e hmem f hf
  obtain ⟨i, he⟩ := List.mem_iff_getElem?.1 hmem
  obtain ⟨r, hresolved, hfallback⟩ := h.of_own he (hown i e he)
  rw [(h.separate hown).keptFor he, hf] at hresolved
  rw [hf] at hfallback
  obtain ⟨id, x, hid, hx, hanswers⟩ := hresolved
  obtain ⟨id', x', hid', hx', -, hplain⟩ := hfallback
  rw [hid] at hid'
  cases hid'
  rw [hx] at hx'
  cases hx'
  exact hanswers.noPlugin.1 hplain

theorem RowsOf.own (h : RowsOf seq es profiles t) (hseparate : Separate es)
    (hplain : ∀ e ∈ es, ∀ f, e.2 = some f → profiles.any (matching f) ∨ f.noPlugin)
    {i : ℕ} {e : Profile × Option Profile} (he : es[i]? = some e) : OwnFallback t (seq + 1 + i) e := by
  obtain ⟨r, hr, hsettings, hresolved⟩ := h i e he
  rw [hseparate.keptFor he] at hresolved
  refine ⟨r, hr, hsettings, ?_⟩
  cases hf : e.2 with
  | none =>
    rw [hf] at hresolved
    exact hresolved
  | some f =>
    rw [hf] at hresolved
    obtain ⟨id, x, hid, hx, hanswers⟩ := hresolved
    exact ⟨id, x, hid, hx, hanswers.server, hanswers.noPlugin.2 (hplain e (List.mem_of_getElem? he) f hf)⟩

end Own

/-- **Every entry of a document has its own fallback** in the table afterwards, if and only if no entry with a
fallback comes after an entry with the same settings, and no fallback with a plugin has to be created. -/
theorem fallbacks_iff (H : HashOrder) (feature : Option Profile) (json : Json) (t : Table) (ht : 0 ≤ t.seq)
    (es : List (Profile × Option Profile)) (hes : entries H feature json = .ok es) :
    ∃ w, parseJson World.createProfile H feature json ⟨t, [], ()⟩ = (w, none) ∧
      ((∀ (i : ℕ) (e : Profile × Option Profile), es[i]? = some e → OwnFallback w.table (t.seq + 1 + i) e) ↔
        Separate es ∧ Plain t es) := by
  obtain ⟨w, profiles, hparse, hprofiles, hrows⟩ := parseJson_spec ht hes
  refine ⟨w, hparse, ?_⟩
  constructor
  · intro hown
    refine ⟨hrows.separate hown, ?_⟩
    intro e he f hf
    rcases hrows.plain hown e he f hf with hany | hplain
    · exact Or.inr ((hprofiles f).1 hany)
    · exact Or.inl hplain
  · rintro ⟨hseparate, hplain⟩ i e he
    refine hrows.own hseparate ?_ he
    intro e he f hf
    rcases hplain e he f hf with hown | hany
    · exact Or.inr hown
    · exact Or.inl ((hprofiles f).2 hany)

/-- The server of an entry, and what else it has. -/
def serverEntry (host : Str) (rest : Members) : Json :=
  .obj (("server".toList, .str host) :: ("server_port".toList, .num "8388".toList (some 8388)) ::
    ("password".toList, .str ['p']) :: ("method".toList, .str ['m']) :: rest)

/-- The profile of `serverEntry`. -/
def serverProfile (host : Str) : Profile :=
  { name := none, host := host, remotePort := 8388, password := ['p'], method := ['m'] }

theorem fallbacks_twoServers :
    ∃ w, parseJson World.createProfile .insertion none
        (.arr [serverEntry ['a'] [("udp_fallback".toList, serverEntry ['b'] [])], serverEntry ['c'] []])
        ⟨Table.empty, [], ()⟩ = (w, none) ∧
      OwnFallback w.table 1 (serverProfile ['a'], some (serverProfile ['b'])) ∧
      OwnFallback w.table 2 (serverProfile ['c'], none) := by
  have hentries : entries .insertion none
      (.arr [serverEntry ['a'] [("udp_fallback".toList, serverEntry ['b'] [])], serverEntry ['c'] []]) =
        .ok [(serverProfile ['a'], some (serverProfile ['b'])), (serverProfile ['c'], none)] := rfl
  obtain ⟨w, hparse, hiff⟩ := fallbacks_iff .insertion none _ Table.empty (Int.le_refl 0) _ hentries
  have hown := hiff.2 ⟨separate_of_nodup (by decide), by
    intro e he f hf
    left
    simp only [List.mem_cons, List.not_mem_nil, or_false] at he
    rcases he with rfl | rfl
    · cases hf
      rfl
    · cases hf⟩
  exact ⟨w, hparse, hown 0 _ rfl, hown 1 _ rfl⟩

/-- Of two equal entries, the fallback of the second goes to the first. -/
theorem fallbacks_equalServers :
    ∃ w, parseJson World.createProfile .insertion none
        (.arr [serverEntry ['a'] [], serverEntry ['a'] [("udp_fallback".toList, serverEntry ['b'] [])]])
        ⟨Table.empty, [], ()⟩ = (w, none) ∧
      entries .insertion none
        (.arr [serverEntry ['a'] [], serverEntry ['a'] [("udp_fallback".toList, serverEntry ['b'] [])]]) =
          .ok [(serverProfile ['a'], none), (serverProfile ['a'], some (serverProfile ['b']))] ∧
      ¬OwnFallback w.table 1 (serverProfile ['a'], none) ∧
      ¬OwnFallback w.table 2 (serverProfile ['a'], some (serverProfile ['b'])) := by
  refine ⟨_, rfl, rfl, ?_, ?_⟩
  · rintro ⟨r, hr, -, hnone⟩
    cases hr
    cases hnone
  · rintro ⟨r, hr, -, id, x, hid, -⟩
    cases hr
    cases hid

end JsonParser

end BlackButton
