import BlackButton.Subscription.Sync

/-!
# What a sync leaves as it was

A sync of a table whose subscription rows have distinct pairs is compared with what the
documents ask of this table (`Lasting`). While every active object keeps the credentials
of its row (`Steady`), fallbacks find what they find in the table of the beginning.

* `hands_done`, `resolves_done`: the objects are as the profiles and links so far ask
  (`Done`).
* `sync_rows_iff`: **a sync leaves every row as it was exactly if the table is lasting.**
-/

namespace BlackButton

open JsonParser

namespace Sync

/-! ## What the documents ask of a table -/

/-- The row that the fallback finds. -/
def lookup (t : Table) (f : Profile) : Option ℤ := (t.rows.find? (matching f)).map Profile.id

/-- The row of a subscription with the pair. -/
def rowOf (t : Table) (k : Key) : Option ℤ := (t.rows.find? fun r => subscribed r && r.pair = k).map Profile.id

/-- What a document hands to the callback: its profiles, and its fallbacks that find no row. -/
def yields (t : Table) (c : Content) : List Profile :=
  c.mains ++ (c.links.map Prod.snd).filter fun f => (lookup t f).isNone

/-- The rows that its fallbacks stand for: those that they find, or else those with their pairs. -/
def targets (t : Table) (links : List (Key × Profile)) : List (Key × Option ℤ) :=
  links.map fun l => (l.1, (lookup t l.2).or (rowOf t l.2.pair))

/-- The last link of a pair. -/
def lastLink (ls : List (Key × Option ℤ)) (k : Key) : Option ℤ :=
  (ls.reverse.find? fun l => l.1 = k).bind Prod.snd

/-- The password, the method and the plugin are the same. -/
def sameCredentials (p q : Profile) : Prop := p.password = q.password ∧ p.method = q.method ∧ p.plugin = q.plugin

instance (p q : Profile) : Decidable (sameCredentials p q) := inferInstanceAs (Decidable (_ ∧ _))

/-- The rows are as the documents ask, if the fallbacks are looked up in these rows. -/
structure Lasting (t : Table) (cs : List Content) : Prop where
  known : ∀ x ∈ cs.flatMap (yields t), taken t.rows x.pair = true
  active : ∀ r ∈ t.rows, r.subscription ≠ .userConfigured →
    (r.subscription = .active ↔ ∃ x ∈ cs.flatMap (yields t), x.pair = r.pair)
  credentials : ∀ r ∈ t.rows, r.subscription = .active →
    ∀ x, (cs.flatMap (yields t)).find? (fun x => x.pair = r.pair) = some x → sameCredentials r x
  fallback : ∀ r ∈ t.rows, r.subscription = .active →
    r.udpFallback = lastLink (targets t (cs.flatMap Content.links)) r.pair

theorem lastLink_append (ls : List (Key × Option ℤ)) (k k' : Key) (id : Option ℤ) :
    lastLink (ls ++ [(k, id)]) k' = if k = k' then id else lastLink ls k' := by
  unfold lastLink
  rw [List.reverse_append, List.reverse_singleton, List.singleton_append, List.find?_cons]
  by_cases hk : k = k'
  · simp [hk]
  · simp [hk]

theorem lastLink_eq_none {ls : List (Key × Option ℤ)} {k : Key} (h : ∀ l ∈ ls, l.1 ≠ k) : lastLink ls k = none := by
  have hnone : ls.reverse.find? (fun l => decide (l.1 = k)) = none := by
    rw [List.find?_eq_none]
    intro l hl
    simpa using h l (List.mem_reverse.1 hl)
  rw [lastLink, hnone, Option.bind_none]

theorem find?_id_eq {p : Profile → Bool} : ∀ {l l' : List Profile}, l.map Profile.id = l'.map Profile.id →
    (∀ r ∈ l, ∀ r' ∈ l', r.id = r'.id → p r = p r') →
    (l.find? p).map Profile.id = (l'.find? p).map Profile.id
  | [], [], _, _ => rfl
  | [], _ :: _, hids, _ => by simp at hids
  | _ :: _, [], hids, _ => by simp at hids
  | r :: l, r' :: l', hids, h => by
    rw [List.map_cons, List.map_cons, List.cons.injEq] at hids
    have hp : p r = p r' := h r List.mem_cons_self r' List.mem_cons_self hids.1
    have hrest := find?_id_eq hids.2 fun q hq q' hq' => h q (List.mem_cons_of_mem r hq) q' (List.mem_cons_of_mem r' hq')
    rw [List.find?_cons, List.find?_cons, ← hp]
    cases p r with
    | true => exact congrArg some hids.1
    | false => exact hrest

/-! ## Steady worlds -/

/-- No row was added, and the active objects have the credentials of their rows. -/
structure Steady (t : Table) (w : World Sync) : Prop where
  ids : w.table.ids = t.ids
  objects : ∀ o ∈ w.objects, o.subscription = .active → Assoc.get w.extra.subscriptions o.pair = some o.id →
    ∃ r ∈ t.rows, o.unlinked = r.unlinked

variable {t : Table} {profileId : ℤ} {w wf : World Sync}

/-- A world on its way to a steady one is steady. -/
theorem Steady.of_grows (h : Steady t wf) (hkept : kept t.rows = t.rows) (hs : Shape t w) (hg : Grows w wf) :
    Steady t w := by
  constructor
  · obtain ⟨new, hnew, -⟩ := hs.ids
    obtain ⟨more, hmore⟩ := hg.ids
    rw [h.ids, hnew, hkept, List.append_assoc] at hmore
    have hnil : new ++ more = [] := List.self_eq_append_right.1 hmore
    rw [hnew, (List.append_eq_nil_iff.1 hnil).1, List.append_nil, hkept]
    rfl
  · intro o ho ha hget
    obtain ⟨o', ho', heq⟩ := hg.objects o ho ha
    have ha' : o'.subscription = .active := by rw [Profile.status_eq_of_unlinked heq, ha]
    have hget' : Assoc.get wf.extra.subscriptions o'.pair = some o'.id := by
      rw [Profile.pair_eq_of_unlinked heq, Profile.id_eq_of_unlinked heq]
      exact hg.subs _ _ hget
    obtain ⟨r, hr, hor⟩ := h.objects o' ho' ha' hget'
    exact ⟨r, hr, heq.symm.trans hor⟩

/-- **In a steady world a fallback finds what it finds in the table of the beginning.** -/
theorem Steady.lookup_eq (h : Steady t w) (hinv : Inv t profileId w) (hs : Shape t w) (f : Profile) :
    (w.table.rows.find? (matching f)).map Profile.id = lookup t f := by
  refine find?_id_eq h.ids ?_
  intro r hr r' hr' hid
  obtain ⟨q, hq, hqr⟩ : ∃ q ∈ t.rows, r.unlinked = q.unlinked := by
    rcases hs.stale r hr with hr | ⟨o, ho, ha, hor⟩
    · exact ⟨r, hr, rfl⟩
    · have hra : r.subscription = .active := by rw [← Profile.status_eq_of_unlinked hor, ha]
      have hget := hinv.row_subs r hr (by rw [hra]; simp)
      rw [← Profile.pair_eq_of_unlinked hor, ← Profile.id_eq_of_unlinked hor] at hget
      obtain ⟨q, hq, hoq⟩ := h.objects o ho ha hget
      exact ⟨q, hq, hor.symm.trans hoq⟩
  have hqr' : q = r' := Table.eq_of_id hq hr' ((Profile.id_eq_of_unlinked hqr).symm.trans hid)
  rw [Profile.matching_eq_of_unlinked hqr, hqr']

theorem Steady.relink (h : Steady t w) {o : Profile} (ho : o ∈ w.objects) (ha : o.subscription = .active)
    (hget : Assoc.get w.extra.subscriptions o.pair = some o.id) (id : ℤ) : Steady t (relink w o id) := by
  refine ⟨(Table.ids_update _ _).trans h.ids, ?_⟩
  intro q hq hqa hqget
  rcases mem_replace.1 hq with ⟨hq, -⟩ | ⟨rfl, -⟩
  · exact h.objects q hq hqa hqget
  · exact h.objects o ho ha hget

/-- An object under a pair is that of a row with the pair. -/
theorem Steady.row (h : Steady t w) (hinv : Inv t profileId w) (hs : Shape t w) {k : Key} {id : ℤ}
    (hget : Assoc.get w.extra.subscriptions k = some id) :
    ∃ r ∈ t.rows, r.subscription ≠ .userConfigured ∧ r.pair = k := by
  obtain ⟨-, o, ho, hoid, hop, hos⟩ := hinv.subs_object k id hget
  by_cases ha : o.subscription = .active
  · obtain ⟨r, hr, hor⟩ := h.objects o ho ha (by rw [hop, hoid]; exact hget)
    exact ⟨r, hr, by rwa [← Profile.status_eq_of_unlinked hor], (Profile.pair_eq_of_unlinked hor).symm.trans hop⟩
  · obtain ⟨r, hr, hor⟩ := hs.idle o ho ha
    refine ⟨r, hr, ?_, by rw [← hop, hor, pair_marked]⟩
    intro hu
    rw [hor, marked_of_not_active (by rw [hu]; simp)] at hos
    exact hos hu

theorem rowOf_eq (h : Steady t w) (hkept : kept t.rows = t.rows) (hinv : Inv t profileId w) (hs : Shape t w) {k : Key}
    {id : ℤ} (hget : Assoc.get w.extra.subscriptions k = some id) : rowOf t k = some id := by
  obtain ⟨r, hr, hrs, hrk⟩ := h.row hinv hs hget
  obtain ⟨q, hq⟩ : ∃ q, t.rows.find? (fun r => subscribed r && decide (r.pair = k)) = some q := by
    rw [← Option.isSome_iff_exists, List.find?_isSome]
    exact ⟨r, hr, by simp [hrs, hrk]⟩
  have hqk := List.find?_some hq
  simp only [Bool.and_eq_true, subscribed_iff, decide_eq_true_eq] at hqk
  have hqget := hs.subs q (by rw [hkept]; exact List.mem_of_find?_eq_some hq) hqk.1
  rw [hqk.2, hget] at hqget
  rw [rowOf, hq, Option.map_some, hqget]

/-- The pair of an obsolete object was not handed over. -/
theorem not_handed (h : Inv t profileId w) {o : Profile} {k : Key} (ho : o ∈ w.objects)
    (hget : Assoc.get w.extra.subscriptions k = some o.id) (hob : o.subscription = .obsolete) :
    k ∉ w.extra.handed := by
  have hop := (h.pair_of_get ho hget).1
  rw [← hop, ← h.active o ho (by rw [hop]; exact hget), hob]
  simp

/-! ## The objects, so far -/

/-- The objects are as the profiles `hs` that were handed over and the links `ls` ask. -/
structure Done (hs : List Profile) (ls : List (Key × Option ℤ)) (w : World Sync) : Prop where
  handed : ∀ k, k ∈ w.extra.handed ↔ ∃ x ∈ hs, x.pair = k
  keys : ∀ l ∈ ls, l.1 ∈ w.extra.handed
  credentials : ∀ o ∈ w.objects, o.subscription = .active → Assoc.get w.extra.subscriptions o.pair = some o.id →
    ∃ x, hs.find? (fun x => x.pair = o.pair) = some x ∧ sameCredentials o x
  fallback : ∀ o ∈ w.objects, o.subscription = .active → Assoc.get w.extra.subscriptions o.pair = some o.id →
    o.udpFallback = lastLink ls o.pair

variable {hs : List Profile} {ls : List (Key × Option ℤ)}

/-- **A profile is handed over**, and no row is added. -/
theorem Done.hand (hd : Done hs ls w) (h : Inv t profileId w) (hst : Steady t w) {p : Profile} (hp : Parsed p)
    (hst' : Steady t (hand w p)) : Done (hs ++ [p]) ls (hand w p) := by
  have hhanded : ∀ k, k ∈ (Sync.hand w p).extra.handed ↔ ∃ x ∈ hs ++ [p], x.pair = k := by
    intro k
    rw [handed_hand h, List.mem_cons, hd.handed, eq_comm]
    simp only [List.mem_append, List.mem_singleton, or_and_right, exists_or, exists_eq_left]
    exact or_comm
  have hkeys : ∀ l ∈ ls, l.1 ∈ (Sync.hand w p).extra.handed := by
    intro l hl
    rw [handed_hand h]
    exact List.mem_cons_of_mem _ (hd.keys l hl)
  -- what was found before is still found first
  have hfirst : ∀ {o x : Profile}, hs.find? (fun x => decide (x.pair = o.pair)) = some x →
      (hs ++ [p]).find? (fun x => decide (x.pair = o.pair)) = some x := by
    intro o x hx
    rw [List.find?_append, hx, Option.some_or]
  unfold Sync.hand at hst' hhanded hkeys ⊢
  rcases create_cases h p with ⟨-, hc⟩ | ⟨o, ho, hget, ha, hc⟩ | ⟨o, ho, hget, hob, hc⟩
  · -- a new row
    have hids := hst'.ids
    rw [hc] at hids
    rw [Table.ids_create, hst.ids] at hids
    exact absurd hids (by simp)
  · rw [hc] at hhanded hkeys ⊢
    refine ⟨hhanded, hkeys, ?_, hd.fallback⟩
    intro q hq hqa hqget
    obtain ⟨x, hx, hqx⟩ := hd.credentials q hq hqa hqget
    exact ⟨x, hfirst hx, hqx⟩
  · have hop := (h.pair_of_get ho hget).1
    have hnot := not_handed h ho hget hob
    rw [hc] at hhanded hkeys ⊢
    refine ⟨hhanded, hkeys, ?_, ?_⟩
    · intro q hq hqa hqget
      rcases mem_replace.1 hq with ⟨hq, -⟩ | ⟨rfl, -⟩
      · obtain ⟨x, hx, hqx⟩ := hd.credentials q hq hqa hqget
        exact ⟨x, hfirst hx, hqx⟩
      · refine ⟨p, ?_, rfl, rfl, rfl⟩
        have hnone : hs.find? (fun x => decide (x.pair = (o.refresh p).pair)) = none := by
          rw [List.find?_eq_none]
          intro x hx hxp
          refine hnot ((hd.handed p.pair).2 ⟨x, hx, ?_⟩)
          simpa [hop] using hxp
        rw [List.find?_append, hnone, Option.none_or]
        simp [hop]
    · intro q hq hqa hqget
      rcases mem_replace.1 hq with ⟨hq, -⟩ | ⟨rfl, -⟩
      · exact hd.fallback q hq hqa hqget
      · have hnone : lastLink ls (o.refresh p).pair = none := by
          refine lastLink_eq_none ?_
          intro l hl hlp
          refine hnot ?_
          rw [← hop, ← Profile.pair_refresh o p, ← hlp]
          exact hd.keys l hl
        rw [hnone]
        exact hp.fallback.1

/-- **An object is linked.** -/
theorem Done.relink (hd : Done hs ls w) (h : Inv t profileId w) {o : Profile} (ho : o ∈ w.objects)
    (ha : o.subscription = .active) (hget : Assoc.get w.extra.subscriptions o.pair = some o.id) (id : ℤ) :
    Done hs (ls ++ [(o.pair, some id)]) (relink w o id) := by
  refine ⟨hd.handed, ?_, ?_, ?_⟩
  · intro l hl
    rcases List.mem_append.1 hl with hl | hl
    · exact hd.keys l hl
    · rw [List.mem_singleton.1 hl]
      exact (h.active o ho hget).1 ha
  · intro q hq hqa hqget
    rcases mem_replace.1 hq with ⟨hq, -⟩ | ⟨rfl, -⟩
    · exact hd.credentials q hq hqa hqget
    · exact hd.credentials o ho ha hget
  · intro q hq hqa hqget
    rw [lastLink_append]
    rcases mem_replace.1 hq with ⟨hq, hne⟩ | ⟨rfl, -⟩
    · have hpair : o.pair ≠ q.pair := by
        intro hpair
        have hqget' : Assoc.get w.extra.subscriptions q.pair = some q.id := hqget
        rw [← hpair, hget, Option.some_inj] at hqget'
        exact hne hqget'.symm
      rw [if_neg hpair]
      exact hd.fallback q hq hqa hqget
    · exact (if_pos rfl).symm

/-! ## The run -/

/-- No step on the way to `wf` that hands over the next one of `all` adds a row or changes credentials. -/
def Keeps (t : Table) (profileId : ℤ) (all : List Profile) (wf : World Sync) : Prop :=
  ∀ {hs : List Profile} {p : Profile} {rest : List Profile} {ls : List (Key × Option ℤ)} {w : World Sync},
    all = hs ++ p :: rest → Inv t profileId w → Shape t w → Done hs ls w → Steady t w → Grows (hand w p) wf →
      Steady t (hand w p)

section Runs

variable {all : List Profile} (hkept : kept t.rows = t.rows) (hkeep : Keeps t profileId all wf)

include hkeep

theorem hands_done (ps : List Profile) : ∀ {hs rest : List Profile} {w : World Sync}, all = hs ++ (ps ++ rest) →
    (∀ p ∈ ps, Parsed p) → Inv t profileId w → Shape t w → Done hs ls w → Steady t w → Grows (ps.foldl hand w) wf →
    Done (hs ++ ps) ls (ps.foldl hand w) ∧ Steady t (ps.foldl hand w) := by
  induction ps with
  | nil =>
    intro hs rest w _ _ _ _ hd hst _
    rw [List.append_nil]
    exact ⟨hd, hst⟩
  | cons p ps ih =>
    intro hs rest w hall hparsed h hshape hd hst hg
    have hmove : Move (fun _ => True) w (hand w p) := .call p (fun _ => trivial)
    have hrest := mains_moves (hmove.inv h) ps
    have hst' := hkeep hall h hshape hd hst ((hrest.grows (hmove.inv h)).trans hg)
    have hd' := hd.hand h hst (hparsed p List.mem_cons_self) hst'
    have hall' : all = (hs ++ [p]) ++ (ps ++ rest) := by simp [hall]
    have hdone := ih hall' (fun q hq => hparsed q (List.mem_cons_of_mem p hq)) (hmove.inv h)
      (hmove.shape h hshape) hd' hst' hg
    rwa [List.append_assoc, List.singleton_append] at hdone

include hkept

/-- **A fallback is resolved**: it finds a row, or it is handed over. -/
theorem resolve_done {rows : List Profile} {l : Key × Profile} {rest : List Profile}
    (hall : all = hs ++ ([l.2].filter (fun f => (lookup t f).isNone) ++ rest)) (hparsed : Parsed l.2)
    (hlook : (rows.find? (matching l.2)).map Profile.id = lookup t l.2) (hk : l.1 ∈ w.extra.handed)
    (h : Inv t profileId w) (hshape : Shape t w) (hd : Done hs ls w) (hst : Steady t w)
    (hg : Grows (resolve rows w l) wf) :
    Done (hs ++ [l.2].filter fun f => (lookup t f).isNone) (ls ++ targets t [l]) (resolve rows w l) ∧
      Steady t (resolve rows w l) := by
  have hms : Moves (fun _ => True) w (target create rows w l.2).1 :=
    target_moves rows w l.2 (fun _ _ => trivial)
  obtain ⟨o, ho, ha, hp, hget, hres⟩ := resolve_write h hshape rows hk
  rw [← hp] at hget
  have hmove : Move (fun _ => True) (target create rows w l.2).1 (resolve rows w l) := by
    rw [hres]
    exact .write o _ ho ha hget
  have hgt := (hmove.grows (hms.inv h)).trans hg
  -- the target
  obtain ⟨hd', hst', hid⟩ : Done (hs ++ [l.2].filter fun f => (lookup t f).isNone) ls (target create rows w l.2).1 ∧
      Steady t (target create rows w l.2).1 ∧
        some (target create rows w l.2).2 = (lookup t l.2).or (rowOf t l.2.pair) := by
    unfold target at hgt ⊢
    cases hfind : rows.find? (matching l.2) with
    | some m =>
      rw [hfind, Option.map_some] at hlook
      rw [List.filter_singleton, ← hlook]
      rw [Option.isNone_some, cond_false, List.append_nil, Option.some_or]
      exact ⟨hd, hst, rfl⟩
    | none =>
      rw [hfind, Option.map_none] at hlook
      rw [hfind] at hgt
      rw [List.filter_singleton, ← hlook] at hall
      rw [List.filter_singleton, ← hlook]
      simp only [Option.isNone_none, cond_true, Option.none_or] at hall ⊢
      have hst' := hkeep hall h hshape hd hst hgt
      have hinv' : Inv t profileId (hand w l.2) := (create_inv h l.2).1
      have hcall : Move (fun _ => True) w (hand w l.2) := .call l.2 (fun _ => trivial)
      have hshape' : Shape t (hand w l.2) := hcall.shape h hshape
      obtain ⟨⟨q, -, hqid, -, -, hqget, -⟩, -⟩ := create_object h l.2
      refine ⟨hd.hand h hst hparsed hst', hst', ?_⟩
      rw [rowOf_eq hst' hkept hinv' hshape' hqget, hqid]
  have htargets : targets t [l] = [(o.pair, some (target create rows w l.2).2)] := by
    rw [hp, hid]
    rfl
  rw [htargets, hres]
  exact ⟨hd'.relink (hms.inv h) ho ha hget _, hst'.relink ho ha hget _⟩

theorem resolves_done {rows : List Profile} (links : List (Key × Profile)) : ∀ {hs rest : List Profile}
    {ls : List (Key × Option ℤ)} {w : World Sync},
    all = hs ++ ((links.map Prod.snd).filter (fun f => (lookup t f).isNone) ++ rest) → (∀ l ∈ links, Parsed l.2) →
    (∀ l ∈ links, (rows.find? (matching l.2)).map Profile.id = lookup t l.2) → (∀ l ∈ links, l.1 ∈ w.extra.handed) →
    Inv t profileId w → Shape t w → Done hs ls w → Steady t w → Grows (links.foldl (resolve rows) w) wf →
    Done (hs ++ (links.map Prod.snd).filter fun f => (lookup t f).isNone) (ls ++ targets t links)
      (links.foldl (resolve rows) w) ∧ Steady t (links.foldl (resolve rows) w) := by
  induction links with
  | nil =>
    intro hs rest ls w _ _ _ _ _ _ hd hst _
    simp only [List.map_nil, List.filter_nil, List.append_nil, targets, List.foldl_nil]
    exact ⟨hd, hst⟩
  | cons l links ih =>
    intro hs rest ls w hall hparsed hlook hkeys h hshape hd hst hg
    have hms : Moves (fun _ => True) w (resolve rows w l) :=
      resolve_moves h hshape rows (hkeys l List.mem_cons_self) (fun _ _ => trivial)
    have hkeys' : ∀ x ∈ links, x.1 ∈ (resolve rows w l).extra.handed :=
      fun x hx => (hms.grows h).handed _ (hkeys x (List.mem_cons_of_mem l hx))
    have hrest : Moves (fun _ => True) (resolve rows w l) (links.foldl (resolve rows) (resolve rows w l)) :=
      resolves_moves rows links (hms.inv h) (hms.shape h hshape) hkeys' (fun _ _ _ _ => trivial)
    have hcons : ((l :: links).map Prod.snd).filter (fun f => (lookup t f).isNone) =
        [l.2].filter (fun f => (lookup t f).isNone) ++ (links.map Prod.snd).filter fun f => (lookup t f).isNone := by
      rw [List.map_cons, ← List.singleton_append, List.filter_append]
    rw [hcons, List.append_assoc] at hall
    obtain ⟨hd', hst'⟩ := resolve_done hkept hkeep hall (hparsed l List.mem_cons_self) (hlook l List.mem_cons_self)
      (hkeys l List.mem_cons_self) h hshape hd hst ((hrest.grows (hms.inv h)).trans hg)
    rw [← List.append_assoc] at hall
    have hdone := ih hall (fun x hx => hparsed x (List.mem_cons_of_mem l hx))
      (fun x hx => hlook x (List.mem_cons_of_mem l hx)) hkeys' (hms.inv h) (hms.shape h hshape) hd' hst' hg
    have htargets : targets t (l :: links) = targets t [l] ++ targets t links := rfl
    rw [hcons, htargets, ← List.append_assoc, ← List.append_assoc]
    exact hdone

theorem run_done {c : Content} (hc : c.WellFormed) {rest : List Profile} (hall : all = hs ++ (yields t c ++ rest))
    (h : Inv t profileId w) (hshape : Shape t w) (hd : Done hs ls w) (hst : Steady t w) (hg : Grows (run w c) wf) :
    Done (hs ++ yields t c) (ls ++ targets t c.links) (run w c) ∧ Steady t (run w c) := by
  have hms := mains_moves h c.mains
  have hlinks : Moves (fun _ => True) (c.mains.foldl hand w) (run w c) :=
    links_moves h hshape hc (fun _ _ _ _ => trivial)
  rw [yields, List.append_assoc] at hall
  obtain ⟨hd', hst'⟩ := hands_done hkeep c.mains hall hc.mains h hshape hd hst ((hlinks.grows (hms.inv h)).trans hg)
  rw [← List.append_assoc] at hall
  have hdone := resolves_done hkept hkeep c.links hall (fun l hl => (hc.links l hl).1)
    (fun l _ => hst'.lookup_eq (hms.inv h) (hms.shape h hshape) l.2) (links_handed h hc) (hms.inv h)
    (hms.shape h hshape) hd' hst' hg
  rw [yields, ← List.append_assoc]
  exact hdone

/-- **The documents are run**: at the end the objects are as all that was handed over and linked asks. -/
theorem runs_done (cs : List Content) : ∀ {hs : List Profile} {ls : List (Key × Option ℤ)} {w : World Sync},
    (∀ c ∈ cs, c.WellFormed) → all = hs ++ cs.flatMap (yields t) → Inv t profileId w → Shape t w → Done hs ls w →
    Steady t w → cs.foldl run w = wf →
    Done all (ls ++ targets t (cs.flatMap Content.links)) wf ∧ Steady t wf := by
  induction cs with
  | nil =>
    intro hs ls w _ hall _ _ hd hst hend
    have hend : w = wf := hend
    rw [hall, ← hend]
    simpa [targets] using And.intro hd hst
  | cons c cs ih =>
    intro hs ls w hwf hall h hshape hd hst hend
    have hc := hwf c List.mem_cons_self
    have hms := run_moves h hshape hc
    have hrest := runs_moves cs (fun x hx => hwf x (List.mem_cons_of_mem c hx)) (hms.inv h) (hms.shape h hshape)
    have hg : Grows (run w c) wf := by
      rw [← hend]
      exact hrest.grows (hms.inv h)
    rw [List.flatMap_cons] at hall
    obtain ⟨hd', hst'⟩ := run_done hkept hkeep hc hall h hshape hd hst hg
    rw [← List.append_assoc] at hall
    have hdone := ih (fun x hx => hwf x (List.mem_cons_of_mem c hx)) hall (hms.inv h) (hms.shape h hshape) hd' hst' hend
    have htargets : targets t ((c :: cs).flatMap Content.links) =
        targets t c.links ++ targets t (cs.flatMap Content.links) := by
      rw [List.flatMap_cons, targets, List.map_append]
      rfl
    rw [htargets, ← List.append_assoc]
    exact hdone

end Runs

/-! ## A sync of a table -/

/-- The table that is left when the documents ended with `wf`: every row is its object. -/
structure Left (wf : World Sync) (t₁ : Table) : Prop where
  ids : t₁.ids = wf.table.ids
  rows : ∀ r ∈ t₁.rows, r ∈ wf.objects
  subs : ∀ r ∈ t₁.rows, r.subscription ≠ .userConfigured →
    Assoc.get wf.extra.subscriptions r.pair = some r.id

theorem rows_eq_of_ids {l l' : List Profile} (hids : l.map Profile.id = l'.map Profile.id)
    (h : ∀ r ∈ l, ∀ r' ∈ l', r.id = r'.id → r = r') : l = l' := by
  induction l generalizing l' with
  | nil =>
    cases l' with
    | nil => rfl
    | cons r' l' => simp at hids
  | cons r l ih =>
    cases l' with
    | nil => simp at hids
    | cons r' l' =>
      simp only [List.map_cons, List.cons.injEq] at hids
      rw [h r List.mem_cons_self r' List.mem_cons_self hids.1,
        ih hids.2 fun q hq q' hq' => h q (List.mem_cons_of_mem r hq) q' (List.mem_cons_of_mem r' hq')]

theorem Ends.left {H : HashOrder} {ds : List Document} {w₀ : World Sync} {toasts : List Fault}
    (h : Ends H t profileId ds w₀ w₁ w₂ toasts) (hs : Shape t w₁) : Left w₁ w₂.table := by
  refine ⟨h.ids, ?_, ?_⟩
  · intro r hr
    rcases h.rows r hr with hr' | hr'
    · rcases hs.row r hr' with hr' | hu
      · exact hr'
      · exact h.written r hr hu
    · exact hr'
  · intro r hr hu
    rw [← h.extra]
    exact h.inv_end.row_subs r hr hu

section Ends

variable {H : HashOrder} {ds : List Document} {w₀ w₁ w₂ : World Sync} {toasts : List Fault}

theorem Ends.shape (h : Ends H t profileId ds w₀ w₁ w₂ toasts) : Shape t w₁ := by
  have hms := runs_moves (Content.ofDocuments H (featureOf t profileId) ds) Content.wellFormed_ofDocuments
    h.preprocessed.inv h.preprocessed.shape
  rw [h.run] at hms
  exact hms.shape h.preprocessed.inv h.preprocessed.shape

/-- The documents of a sync that keeps what it hands over. -/
theorem Ends.done (h : Ends H t profileId ds w₀ w₁ w₂ toasts) (hkept : kept t.rows = t.rows)
    (hkeep : Keeps t profileId ((Content.ofDocuments H (featureOf t profileId) ds).flatMap (yields t)) w₁) :
    Done ((Content.ofDocuments H (featureOf t profileId) ds).flatMap (yields t))
      (targets t ((Content.ofDocuments H (featureOf t profileId) ds).flatMap Content.links)) w₁ ∧ Steady t w₁ := by
  have h₀ := h.preprocessed.inv
  have hs₀ := h.preprocessed.shape
  -- nothing is active in the beginning
  have hidle : ∀ o ∈ w₀.objects, o.subscription ≠ .active := by
    intro o ho ha
    obtain ⟨r, hr, hor⟩ := h.preprocessed.exists_row ho
    have hra : r.subscription = .active := by
      by_contra hra
      rw [hor, marked_of_not_active hra] at ha
      exact hra ha
    rw [hor, marked, if_pos ⟨hra, by rw [hkept]; exact hr⟩] at ha
    cases ha
  have hd₀ : Done [] [] w₀ := by
    refine ⟨?_, by simp, fun o ho ha => absurd ha (hidle o ho), fun o ho ha => absurd ha (hidle o ho)⟩
    intro k
    rw [h.preprocessed.handed]
    simp
  have hst₀ : Steady t w₀ := by
    refine ⟨?_, fun o ho ha => absurd ha (hidle o ho)⟩
    rw [Table.ids, h.preprocessed.kept_rows, hkept]
    rfl
  exact runs_done hkept hkeep _ Content.wellFormed_ofDocuments (List.nil_append _).symm h₀ hs₀ hd₀ hst₀ h.run

theorem Ends.lasting (h : Ends H t profileId ds w₀ w₁ w₂ toasts) (hkept : kept t.rows = t.rows)
    (hrows : w₂.table.rows = t.rows) : Lasting t (Content.ofDocuments H (featureOf t profileId) ds) := by
  have hl := h.left h.shape
  have hids : w₁.table.ids = t.ids := by
    rw [← hl.ids, Table.ids, hrows]
    rfl
  have hst : Steady t w₁ := by
    refine ⟨hids, ?_⟩
    intro o ho ha hget
    obtain ⟨hid, -⟩ := h.inv.subs_object _ _ hget
    rw [← hl.ids] at hid
    obtain ⟨r, hr, hrid⟩ := Table.mem_ids.1 hid
    have hro : r = o := h.inv.object_eq (hl.rows r hr) ho hrid
    rw [hrows] at hr
    exact ⟨r, hr, by rw [hro]⟩
  have hkeep : Keeps t profileId ((Content.ofDocuments H (featureOf t profileId) ds).flatMap (yields t)) w₁ := by
    intro hs p rest ls w _ hinv hshape _ _ hg
    have hcall : Move (fun _ => True) w (hand w p) := .call p (fun _ => trivial)
    exact hst.of_grows hkept (hcall.shape hinv hshape) hg
  obtain ⟨hd, -⟩ := h.done hkept hkeep
  have hrow : ∀ r ∈ t.rows, r ∈ w₁.objects ∧ (r.subscription ≠ .userConfigured →
      Assoc.get w₁.extra.subscriptions r.pair = some r.id) := by
    intro r hr
    rw [← hrows] at hr
    exact ⟨hl.rows r hr, hl.subs r hr⟩
  have hsubscribed : ∀ {r : Profile}, r.subscription = .active → r.subscription ≠ .userConfigured := by
    intro r ha
    rw [ha]
    simp
  refine ⟨?_, ?_, ?_, ?_⟩
  · intro x hx
    obtain ⟨id, hid⟩ := h.shape.known x.pair ((hd.handed x.pair).2 ⟨x, hx, rfl⟩)
    exact taken_iff.2 (hst.row h.inv h.shape hid)
  · intro r hr hs
    rw [← hd.handed]
    exact h.inv.active r (hrow r hr).1 ((hrow r hr).2 hs)
  · intro r hr ha x hx
    obtain ⟨y, hy, hry⟩ := hd.credentials r (hrow r hr).1 ha ((hrow r hr).2 (hsubscribed ha))
    rw [hx, Option.some_inj] at hy
    exact hy ▸ hry
  · intro r hr ha
    exact hd.fallback r (hrow r hr).1 ha ((hrow r hr).2 (hsubscribed ha))

/-- A profile that is handed to the callback refreshes its row to what it was. -/
theorem Lasting.keeps {cs : List Content} (hlast : Lasting t cs) (hkept : kept t.rows = t.rows) (wf : World Sync) :
    Keeps t profileId (cs.flatMap (yields t)) wf := by
  intro hs p rest ls w hall h hshape hd hst _
  have hmem : p ∈ cs.flatMap (yields t) := by rw [hall]; simp
  obtain ⟨r, hr, hrs, hrp⟩ := taken_iff.1 (hlast.known p hmem)
  have hrget := hshape.subs r (by rw [hkept]; exact hr) hrs
  have hra : r.subscription = .active := (hlast.active r hr hrs).2 ⟨p, hmem, hrp.symm⟩
  unfold hand
  rcases create_cases h p with ⟨hget, -⟩ | ⟨o, ho, hget, ha, hc⟩ | ⟨o, ho, hget, hob, hc⟩
  · rw [← hrp, hrget] at hget
    cases hget
  · rw [hc]
    exact ⟨hst.ids, hst.objects⟩
  · have hnot := not_handed h ho hget hob
    have hid : r.id = o.id := by
      rw [← hrp, hrget, Option.some_inj] at hget
      exact hget
    -- the first profile with its pair
    have hfirst : (cs.flatMap (yields t)).find? (fun x => decide (x.pair = r.pair)) = some p := by
      have hnone : hs.find? (fun x => decide (x.pair = r.pair)) = none := by
        rw [List.find?_eq_none]
        intro x hx hxr
        exact hnot ((hd.handed p.pair).2 ⟨x, hx, by simpa [hrp] using hxr⟩)
      rw [hall, List.find?_append, hnone, Option.none_or, List.find?_cons_of_pos (by simp [hrp])]
    obtain ⟨hpassword, hmethod, hplugin⟩ := hlast.credentials r hr hra p hfirst
    have hrefresh : (o.refresh p).unlinked = r.unlinked := by
      obtain ⟨q, hq, hoq⟩ := hshape.idle o ho (by rw [hob]; simp)
      have hqr : q = r := Table.eq_of_id hq hr (by rw [hid, hoq, id_marked])
      rw [hoq, hqr]
      unfold marked Profile.refresh Profile.unlinked
      rw [← hpassword, ← hmethod, ← hplugin]
      split <;> simp [Profile.withStatus, ← hra]
    rw [hc]
    refine ⟨hst.ids, ?_⟩
    intro q hq hqa hqget
    rcases mem_replace.1 hq with ⟨hq, -⟩ | ⟨rfl, -⟩
    · exact hst.objects q hq hqa hqget
    · exact ⟨r, hr, hrefresh⟩

theorem Lasting.rows_eq (h : Ends H t profileId ds w₀ w₁ w₂ toasts) (hkept : kept t.rows = t.rows)
    (hlast : Lasting t (Content.ofDocuments H (featureOf t profileId) ds)) : w₂.table.rows = t.rows := by
  obtain ⟨hd, hst⟩ := h.done hkept (hlast.keeps hkept w₁)
  have hl := h.left h.shape
  refine rows_eq_of_ids (hl.ids.trans hst.ids) ?_
  intro r hr q hq hid
  have hobj := hl.rows r hr
  by_cases ha : r.subscription = .active
  · have hget := hl.subs r hr (by rw [ha]; simp)
    obtain ⟨q', hq', hrq⟩ := hst.objects r hobj ha hget
    obtain rfl : q' = q := Table.eq_of_id hq' hq ((Profile.id_eq_of_unlinked hrq).symm.trans hid)
    have hqa : q'.subscription = .active := by rw [← Profile.status_eq_of_unlinked hrq, ha]
    have hfallback : r.udpFallback = q'.udpFallback := by
      rw [hd.fallback r hobj ha hget, hlast.fallback q' hq hqa, Profile.pair_eq_of_unlinked hrq]
    exact Profile.eq_of_unlinked hrq hfallback
  · obtain ⟨q', hq', hrq⟩ := h.shape.idle r hobj ha
    obtain rfl : q' = q := Table.eq_of_id hq' hq (by rw [← hid, hrq, id_marked])
    rw [hrq]
    refine marked_of_not_active ?_
    -- an active row was handed over, and its object is active again
    intro hqa
    have hstatus : r.subscription ≠ .userConfigured := by
      rw [hrq, marked, if_pos ⟨hqa, by rw [hkept]; exact hq⟩]
      simp
    have hhanded := (hlast.active q' hq (by rw [hqa]; simp)).1 hqa
    rw [← hd.handed, ← pair_marked t.rows q', ← hrq] at hhanded
    exact ha ((h.inv.active r hobj (hl.subs r hr hstatus)).2 hhanded)

end Ends

/-- **When a sync leaves every row as it was.** -/
theorem sync_rows_iff (H : HashOrder) (t : Table) (profileId : ℤ) (ds : List Document) (hkept : kept t.rows = t.rows) :
    (createProfilesFromSubscription H t profileId ds).world.table.rows = t.rows ↔
      Lasting t (Content.ofDocuments H (featureOf t profileId) ds) := by
  obtain ⟨w₀, w₁, w₂, toasts, hend⟩ := sync_ends H t profileId ds
  rw [hend.result]
  exact ⟨hend.lasting hkept, fun hlast => hlast.rows_eq hend hkept⟩

/-- A sync leaves no two rows of subscriptions with the same pair. -/
theorem kept_sync (H : HashOrder) (t : Table) (profileId : ℤ) (ds : List Document) :
    kept (createProfilesFromSubscription H t profileId ds).world.table.rows =
      (createProfilesFromSubscription H t profileId ds).world.table.rows :=
  kept_eq_self (List.Nodup.of_map _ (createProfilesFromSubscription H t profileId ds).world.table.nodup)
    (sync_spec H t profileId ds).unique

end Sync

end BlackButton
