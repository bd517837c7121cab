import BlackButton.Subscription.Resync
import BlackButton.Subscription.Settled

/-!
# Syncing twice

`sync_idempotent_iff`: **the second of two syncs of the same documents leaves every row as
the first one did exactly if that left a lasting table.**

A condition on the table before both is `Stable`. The second sync is then compared with the
first, move by move (`Sim`): the objects that are active in both are the same. It finds every
row that the first one left, so it creates nothing.

* `sim_hand`, `sim_resolve`: one move.
* `sync_settled`: if all fallbacks are settled, the second sync leaves every row as the
  first one did.
* `sync_obsolete`: a fallback that was created by the first sync is marked obsolete by
  the second one.
-/

namespace BlackButton

open JsonParser

namespace Sync

/-- The first sync, on its way to `wf`, and the second one, which started with `t₁`. -/
structure Sim (wf : World Sync) (t₁ : Table) (w₁ w₂ : World Sync) : Prop where
  handed : w₂.extra.handed = w₁.extra.handed
  ids : w₂.table.ids = t₁.ids
  subs : ∀ k id, Assoc.get wf.extra.subscriptions k = some id → Assoc.get w₂.extra.subscriptions k = some id
  objects : ∀ o ∈ w₂.objects, o.subscription = .active → o ∈ w₁.objects

variable {t t₁ : Table} {profileId profileId₁ : ℤ} {wf w₁ w₂ : World Sync}

/-- A row of `t₁` and the object of the first sync that it comes from. -/
theorem row_of_active (hf : Inv t profileId wf) (hl : Left wf t₁) {w : World Sync} (hg : Grows w wf) {o r : Profile}
    (ho : o ∈ w.objects) (ha : o.subscription = .active) (hr : r ∈ t₁.rows) (hid : r.id = o.id) :
    r.unlinked = o.unlinked := by
  obtain ⟨o', ho', heq⟩ := hg.objects o ho ha
  have hro : r = o' := hf.object_eq (hl.rows r hr) ho' (hid.trans (Profile.id_eq_of_unlinked heq).symm)
  rw [hro]
  exact heq

theorem refresh_of_unlinked {r o p p' : Profile} (h : r.unlinked = o.unlinked) (hp : Alike p p')
    (rows : List Profile) : (marked rows r).refresh p' = o.refresh p := by
  have h₁ : (marked rows r).refresh p' = r.unlinked.refresh p := by
    unfold marked Profile.refresh Profile.unlinked
    rw [hp.password, hp.method, hp.plugin, hp.fallback.1, hp.fallback.2]
    split <;> rfl
  rw [h₁, h]
  rfl

/-- **A profile is handed to both.** -/
theorem sim_hand (h₁ : Inv t profileId w₁) (h₂ : Inv t₁ profileId₁ w₂) (hs₂ : Shape t₁ w₂)
    (hf : Inv t profileId wf) (hl : Left wf t₁) (hsim : Sim wf t₁ w₁ w₂) {p p' : Profile} (hp : Alike p p')
    (hg : Grows (hand w₁ p) wf) :
    Sim wf t₁ (hand w₁ p) (hand w₂ p') ∧ (create w₂ p').2 = (create w₁ p).2 := by
  obtain ⟨⟨o, ho, hid, hop, ha, hget, hfresh⟩, hkeep⟩ := create_object h₁ p
  have hget₂ : Assoc.get w₂.extra.subscriptions p'.pair = some o.id := by
    rw [hp.pair]
    exact hsim.subs _ _ (hg.subs _ _ hget)
  have hhanded : (hand w₂ p').extra.handed = (hand w₁ p).extra.handed := by
    rw [handed_hand h₁, handed_hand h₂, hp.pair, hsim.handed]
  have hold : ∀ q ∈ w₂.objects, q.subscription = .active → q ∈ (hand w₁ p).objects :=
    fun q hq hqa => hkeep q (hsim.objects q hq hqa) hqa
  rcases create_cases h₂ p' with ⟨hnone, -⟩ | ⟨q, hq, hq', hqa, hc⟩ | ⟨q, hq, hq', hst, hc⟩
  · rw [hnone] at hget₂
    cases hget₂
  · rw [hq', Option.some.injEq] at hget₂
    unfold hand at hhanded ⊢
    rw [hc] at hhanded ⊢
    exact ⟨⟨hhanded, hsim.ids, hsim.subs, hold⟩, hget₂.trans hid⟩
  · rw [hq', Option.some.injEq] at hget₂
    have hnot : p.pair ∉ w₁.extra.handed := by
      have hqp := (h₂.pair_of_get hq hq').1
      rw [← hsim.handed, ← hp.pair, ← hqp, ← h₂.active q hq (by rw [hqp]; exact hq'), hst]
      simp
    -- the object of the second sync is the row that the first one left
    have hqo : q.refresh p' = o := by
      obtain ⟨r, hr, hqr⟩ := hs₂.idle q hq (by rw [hst]; simp)
      have hrid : r.id = o.id := by rw [← hget₂, hqr, id_marked]
      rw [hqr, refresh_of_unlinked (row_of_active hf hl hg ho ha hr hrid) hp, hfresh hnot]
    unfold hand at hhanded ⊢
    rw [hc] at hhanded ⊢
    refine ⟨⟨hhanded, hsim.ids, hsim.subs, ?_⟩, hget₂.trans hid⟩
    intro x hx hxa
    rcases mem_replace.1 hx with ⟨hx, -⟩ | ⟨rfl, -⟩
    · exact hold x hx hxa
    · rw [hqo]
      exact ho

/-- An object of both is linked to the same fallback. -/
theorem sim_relink (hsim : Sim wf t₁ w₁ w₂) {o : Profile} (ho : o ∈ w₁.objects) (id : ℤ) :
    Sim wf t₁ (relink w₁ o id) (relink w₂ o id) := by
  refine ⟨hsim.handed, (Table.ids_update _ _).trans hsim.ids, hsim.subs, ?_⟩
  intro q hq hqa
  have hmem : o.id ∈ w₁.objects.map Profile.id := List.mem_map_of_mem ho
  rcases mem_replace.1 hq with ⟨hq, hne⟩ | ⟨rfl, -⟩
  · exact mem_replace.2 (Or.inl ⟨hsim.objects q hq hqa, hne⟩)
  · exact mem_replace.2 (Or.inr ⟨rfl, hmem⟩)

section Links

variable (h₁ : Inv t profileId w₁) (hs₁ : Shape t w₁) (h₂ : Inv t₁ profileId₁ w₂) (hs₂ : Shape t₁ w₂)
  (hf : Inv t profileId wf) (hl : Left wf t₁) (hsim : Sim wf t₁ w₁ w₂)

include h₁ hs₁ h₂ hs₂ hf hl hsim

/-- **A fallback of both is resolved in the same way.** -/
theorem sim_resolve {rows₁ rows₂ : List Profile} {l l' : Key × Profile} (hkey : l'.1 = l.1)
    (hal : Alike l.2 l'.2) (hk : l.1 ∈ w₁.extra.handed)
    (hlook : (rows₂.find? (matching l.2)).map Profile.id = (rows₁.find? (matching l.2)).map Profile.id)
    (hg : Grows (resolve rows₁ w₁ l) wf) : Sim wf t₁ (resolve rows₁ w₁ l) (resolve rows₂ w₂ l') := by
  have hmatch : matching l'.2 = matching l.2 := funext hal.matching
  have hms : Moves (fun _ => True) w₁ (target create rows₁ w₁ l.2).1 :=
    target_moves rows₁ w₁ l.2 (fun _ _ => trivial)
  obtain ⟨o, ho, ha, hp, hget, hres⟩ := resolve_write h₁ hs₁ rows₁ hk
  have hk₂ : l'.1 ∈ w₂.extra.handed := by rw [hkey, hsim.handed]; exact hk
  obtain ⟨o₂, ho₂, ha₂, -, hget₂, hres₂⟩ := resolve_write h₂ hs₂ rows₂ hk₂
  -- the target is on its way to `wf`, too
  have hgt : Grows (target create rows₁ w₁ l.2).1 wf := by
    have hmove : Move (fun _ => True) (target create rows₁ w₁ l.2).1 (resolve rows₁ w₁ l) := by
      rw [hres]
      exact .write o _ ho ha (by rw [hp]; exact hget)
    exact (hmove.grows (hms.inv h₁)).trans hg
  have htarget : Sim wf t₁ (target create rows₁ w₁ l.2).1 (target create rows₂ w₂ l'.2).1 ∧
      (target create rows₂ w₂ l'.2).2 = (target create rows₁ w₁ l.2).2 := by
    unfold target at hgt ⊢
    rw [hmatch]
    cases hfind : rows₁.find? (matching l.2) with
    | some m =>
      rw [hfind, Option.map_some, Option.map_eq_some_iff] at hlook
      obtain ⟨m₂, hm₂, hmid⟩ := hlook
      rw [hm₂]
      exact ⟨hsim, hmid⟩
    | none =>
      rw [hfind, Option.map_none, Option.map_eq_none_iff] at hlook
      rw [hlook]
      rw [hfind] at hgt
      exact sim_hand h₁ h₂ hs₂ hf hl hsim hal hgt
  have hoo : o₂ = o := by
    refine (hms.inv h₁).object_eq (htarget.1.objects o₂ ho₂ ha₂) ho ?_
    have hget' := htarget.1.subs _ _ (hgt.subs _ _ hget)
    rw [← hkey, hget₂, Option.some.injEq] at hget'
    exact hget'
  rw [hres, hres₂, hoo, htarget.2]
  exact sim_relink htarget.1 ho _

end Links

theorem sim_hands (hf : Inv t profileId wf) (hl : Left wf t₁) {ps ps' : List Profile}
    (hps : List.Forall₂ Alike ps ps') : ∀ {w₁ w₂ : World Sync}, Inv t profileId w₁ → Inv t₁ profileId₁ w₂ →
    Shape t₁ w₂ → Sim wf t₁ w₁ w₂ → Grows (ps.foldl hand w₁) wf →
    Sim wf t₁ (ps.foldl hand w₁) (ps'.foldl hand w₂) := by
  induction hps with
  | nil => exact fun _ _ _ hsim _ => hsim
  | @cons p p' ps ps' hp _ ih =>
    intro w₁ w₂ h₁ h₂ hs₂ hsim hg
    have hm₁ : Move (fun _ => True) w₁ (hand w₁ p) := .call p (fun _ => trivial)
    have hm₂ : Move (fun _ => True) w₂ (hand w₂ p') := .call p' (fun _ => trivial)
    have hrest := mains_moves (hm₁.inv h₁) ps
    obtain ⟨hsim', -⟩ := sim_hand h₁ h₂ hs₂ hf hl hsim hp ((hrest.grows (hm₁.inv h₁)).trans hg)
    exact ih (hm₁.inv h₁) (hm₂.inv h₂) (hm₂.shape h₂ hs₂) hsim' hg

/-- A fallback of a pair, with other feature settings. -/
def AlikeLink (l l' : Key × Profile) : Prop := l'.1 = l.1 ∧ Alike l.2 l'.2

theorem sim_links (hf : Inv t profileId wf) (hl : Left wf t₁) (rows₁ rows₂ : List Profile)
    {ls ls' : List (Key × Profile)} (hls : List.Forall₂ AlikeLink ls ls') : ∀ {w₁ w₂ : World Sync},
    Inv t profileId w₁ → Shape t w₁ → Inv t₁ profileId₁ w₂ → Shape t₁ w₂ → Sim wf t₁ w₁ w₂ →
    (∀ l ∈ ls, l.1 ∈ w₁.extra.handed) →
    (∀ l ∈ ls, (rows₂.find? (matching l.2)).map Profile.id = (rows₁.find? (matching l.2)).map Profile.id) →
    Grows (ls.foldl (resolve rows₁) w₁) wf →
    Sim wf t₁ (ls.foldl (resolve rows₁) w₁) (ls'.foldl (resolve rows₂) w₂) := by
  induction hls with
  | nil => exact fun _ _ _ _ hsim _ _ _ => hsim
  | @cons l l' ls ls' hll _ ih =>
    intro w₁ w₂ h₁ hs₁ h₂ hs₂ hsim hkeys hlook hg
    have hk := hkeys l List.mem_cons_self
    have hk₂ : l'.1 ∈ w₂.extra.handed := by rw [hll.1, hsim.handed]; exact hk
    have hm₁ : Moves (fun _ => True) w₁ (resolve rows₁ w₁ l) := resolve_moves h₁ hs₁ rows₁ hk (fun _ _ => trivial)
    have hm₂ : Moves (fun _ => True) w₂ (resolve rows₂ w₂ l') := resolve_moves h₂ hs₂ rows₂ hk₂ (fun _ _ => trivial)
    have hkeys' : ∀ x ∈ ls, x.1 ∈ (resolve rows₁ w₁ l).extra.handed :=
      fun x hx => (hm₁.grows h₁).handed _ (hkeys x (List.mem_cons_of_mem l hx))
    have hrest : Moves (fun _ => True) (resolve rows₁ w₁ l) (ls.foldl (resolve rows₁) (resolve rows₁ w₁ l)) :=
      resolves_moves rows₁ ls (hm₁.inv h₁) (hm₁.shape h₁ hs₁) hkeys' (fun _ _ _ _ => trivial)
    have hsim' := sim_resolve h₁ hs₁ h₂ hs₂ hf hl hsim hll.1 hll.2 hk (hlook l List.mem_cons_self)
      ((hrest.grows (hm₁.inv h₁)).trans hg)
    exact ih (hm₁.inv h₁) (hm₁.shape h₁ hs₁) (hm₂.inv h₂) (hm₂.shape h₂ hs₂) hsim' hkeys'
      (fun x hx => hlook x (List.mem_cons_of_mem l hx)) hg

/-! ## The documents -/

/-- The rows that the first sync left stem from rows and entries. -/
theorem Left.stems {cs : List Content} (hl : Left wf t₁) (hf : Inv t profileId wf) (hs : Shape t wf)
    (hsrc : Sourced cs t wf) : ∀ r ∈ t₁.rows, Stems cs t r := by
  intro r hr
  have hmem := hl.rows r hr
  by_cases ha : r.subscription = .active
  · exact hsrc r hmem ha (hl.subs r hr (by rw [ha]; simp))
  · obtain ⟨q, hq, hrq⟩ := hs.idle r hmem ha
    have hid : q.id = r.id := by rw [hrq, id_marked]
    have hkept : q ∈ kept t.rows := by
      rw [← hf.kept q hq, hid, ← hl.ids]
      exact Table.mem_ids.2 ⟨r, hr, rfl⟩
    refine .row q hkept hid ?_
    intro f
    rw [hrq]
    exact matching_marked t.rows q f

/-- The rows of the second sync are those that the first one left, up to the fallback. -/
theorem row_left (hf : Inv t profileId wf) (hl : Left wf t₁) (hs₂ : Shape t₁ w₂) (hsim : Sim wf t₁ w₁ w₂)
    (hg : Grows w₁ wf) : ∀ r ∈ w₂.table.rows, ∃ q ∈ t₁.rows, q.unlinked = r.unlinked := by
  intro r hr
  rcases hs₂.stale r hr with hr' | ⟨o, ho, ha, heq⟩
  · exact ⟨r, hr', rfl⟩
  · have hid : r.id ∈ t₁.ids := by
      rw [← hsim.ids]
      exact Table.mem_ids.2 ⟨r, hr, rfl⟩
    obtain ⟨q, hq, hqid⟩ := Table.mem_ids.1 hid
    refine ⟨q, hq, ?_⟩
    rw [← heq]
    exact row_of_active hf hl hg (hsim.objects o ho ha) ha hq
      (hqid.trans (Profile.id_eq_of_unlinked heq).symm)

/-- **A settled fallback finds the same row in both syncs**, or none. -/
theorem lookup_eq {cs pre post : List Content} {c : Content} (hset : settled t cs = true)
    (hcs : cs = pre ++ c :: post) {l : Key × Profile} (hlc : l ∈ c.links) (h₁ : Inv t profileId w₁)
    (hs₁ : Shape t w₁) (hsrc : Sourced cs t w₁) (hmains : ∀ m ∈ mains (pre ++ [c]), m.pair ∈ w₁.extra.handed)
    (hf : Inv t profileId wf) (hl : Left wf t₁) (hstems : ∀ r ∈ t₁.rows, Stems cs t r) (hs₂ : Shape t₁ w₂)
    (hsim : Sim wf t₁ w₁ w₂) (hg : Grows w₁ wf) :
    (w₂.table.rows.find? (matching l.2)).map Profile.id =
      (w₁.table.rows.find? (matching l.2)).map Profile.id := by
  have hst₁ := hsrc.rows h₁ hs₁
  have hleft := row_left hf hl hs₂ hsim hg
  have hst₂ : ∀ r ∈ w₂.table.rows, Stems cs t r := by
    intro r hr
    obtain ⟨q, hq, heq⟩ := hleft r hr
    exact (hstems q hq).of_unlinked heq
  obtain ⟨new, hnew, hlt⟩ := hs₁.ids
  obtain ⟨more, hmore⟩ := hg.ids
  have hids₂ : w₂.table.rows.map Profile.id = w₁.table.rows.map Profile.id ++ more := by
    have := hsim.ids
    rw [hl.ids, hmore] at this
    exact this
  rcases settledFrom_iff hset pre c post hcs l hlc with hrow | hentry | hnothing
  · obtain ⟨i, hi⟩ := lookup_findsRow hrow
    rw [hi w₁.table.rows new hnew hst₁]
    refine hi w₂.table.rows (new ++ more) ?_ hst₂
    have hnew' : w₁.table.rows.map Profile.id = (kept t.rows).map Profile.id ++ new := hnew
    rw [hids₂, hnew', List.append_assoc]
  · rw [List.nil_append] at hentry
    refine lookup_findsEntry hentry (mem_mains_of_split hcs) hnew hlt hids₂ hst₁ hst₂ ?_
      (entry_found h₁ hs₁ hsrc hentry (mem_mains_of_split hcs) hmains)
    -- a new row is an active object of the first sync
    intro r hr r' hr' hid hseq
    obtain ⟨q, hq, heq⟩ := hleft r' hr'
    rw [← Profile.matching_eq_of_unlinked heq]
    rcases hs₁.stale r hr with hrt | ⟨o, ho, ha, hor⟩
    · have := t.le_seq r hrt
      omega
    · have hqo : q.id = o.id := by
        rw [Profile.id_eq_of_unlinked heq, ← hid, Profile.id_eq_of_unlinked hor]
      have hunl := row_of_active hf hl hg ho ha hq hqo
      exact Profile.matching_eq_of_unlinked (hunl.trans hor) l.2
  · rw [lookup_findsNothing hnothing hst₁, lookup_findsNothing hnothing hst₂]

/-- The same content, with other feature settings. -/
structure AlikeContent (c c' : Content) : Prop where
  mains : List.Forall₂ Alike c.mains c'.mains
  links : List.Forall₂ AlikeLink c.links c'.links

/-- **Both syncs run the same documents.** -/
theorem sim_runs {cs : List Content} (hset : settled t cs = true) (hwf : ∀ c ∈ cs, c.WellFormed)
    (hf : Inv t profileId wf) (hl : Left wf t₁) (hstems : ∀ r ∈ t₁.rows, Stems cs t r) {post post' : List Content}
    (hpost : List.Forall₂ AlikeContent post post') : ∀ {pre : List Content} {w₁ w₂ : World Sync},
    (∀ c ∈ post', c.WellFormed) → cs = pre ++ post → Inv t profileId w₁ → Shape t w₁ → Sourced cs t w₁ →
    (∀ m ∈ mains pre, m.pair ∈ w₁.extra.handed) → Inv t₁ profileId₁ w₂ → Shape t₁ w₂ → Sim wf t₁ w₁ w₂ →
    post.foldl run w₁ = wf → Sim wf t₁ wf (post'.foldl run w₂) := by
  induction hpost with
  | nil =>
    intro pre w₁ w₂ _ _ _ _ _ _ _ _ hsim hend
    obtain rfl : w₁ = wf := hend
    exact hsim
  | @cons c c' post post' hc hpost ih =>
    intro pre w₁ w₂ hwf' hcs h₁ hs₁ hsrc hhanded h₂ hs₂ hsim hend
    have hcwf : c.WellFormed := hwf c (by rw [hcs]; simp)
    have hcwf' : c'.WellFormed := hwf' c' List.mem_cons_self
    -- the main entries
    have hm₁ := hands_origin hcs h₁ hhanded
    have hm₂ := mains_moves h₂ c'.mains
    have hr₁ := run_origin hset hcs hcwf h₁ hs₁ hsrc hhanded
    have hr₂ := run_moves h₂ hs₂ hcwf'
    have hhanded' := handed_run hcwf h₁ hs₁ hhanded
    have hgrun : Grows (run w₁ c) wf := by
      rw [← hend]
      exact (runs_origin hset hwf post (by rw [hcs]; simp) (hr₁.inv h₁) (hr₁.shape h₁ hs₁)
        (hr₁.sourced h₁ hs₁ hsrc) hhanded').grows (hr₁.inv h₁)
    have hlinks : Moves (fun _ => True) (c.mains.foldl hand w₁) (run w₁ c) :=
      links_moves h₁ hs₁ hcwf (fun _ _ _ _ => trivial)
    have hghands : Grows (c.mains.foldl hand w₁) wf := (hlinks.grows (hm₁.inv h₁)).trans hgrun
    have hsim' := sim_hands hf hl hc.mains h₁ h₂ hs₂ hsim hghands
    -- the fallbacks
    have hlook : ∀ l ∈ c.links, _ := fun l hlc =>
      lookup_eq hset hcs hlc (hm₁.inv h₁) (hm₁.shape h₁ hs₁) (hm₁.sourced h₁ hs₁ hsrc)
        (handed_mains h₁ hhanded) hf hl hstems (hm₂.shape h₂ hs₂) hsim' hghands
    have hsim'' := sim_links hf hl _ _ hc.links (hm₁.inv h₁) (hm₁.shape h₁ hs₁) (hm₂.inv h₂)
      (hm₂.shape h₂ hs₂) hsim' (links_handed h₁ hcwf) hlook hgrun
    exact ih (fun x hx => hwf' x (List.mem_cons_of_mem c' hx)) (by rw [hcs]; simp) (hr₁.inv h₁)
      (hr₁.shape h₁ hs₁) (hr₁.sourced h₁ hs₁ hsrc) hhanded' (hr₂.inv h₂) (hr₂.shape h₂ hs₂) hsim'' hend

/-! ## Two syncs -/

/-- The table and the documents for which the second sync does what the first one did. -/
structure Stable (H : HashOrder) (t : Table) (profileId : ℤ) (ds : List Document) : Prop where
  fallbacks : settled t (Content.ofDocuments H (featureOf t profileId) ds) = true
  -- the current profile is not deleted and none is created for it, or which fallback a profile gets
  -- does not depend on the feature settings
  features : (¬Drops t.rows profileId ∧ profileId ≤ t.seq) ∨
    ∀ f, List.Forall₂ (fun c c' => List.Forall₂ AlikeLink c.links c'.links)
      (Content.ofDocuments H (featureOf t profileId) ds) (Content.ofDocuments H f ds)

theorem mains_alike (H : HashOrder) (f f' : Option Profile) (ds : List Document) :
    List.Forall₂ (fun c c' => List.Forall₂ Alike c.mains c'.mains) (Content.ofDocuments H f ds)
      (Content.ofDocuments H f' ds) := by
  refine List.rel_filterMap (R := Eq) ?_ (by rw [List.forall₂_eq_eq_eq])
  rintro d _ rfl
  unfold Content.ofDocument
  cases d.single with
  | error g => exact .none
  | ok json =>
    have hes := entries_alike H f f' json
    cases hj : entries H f json with
    | error g =>
      cases hj' : entries H f' json with
      | error g' => simp only [hj, hj']; exact .none
      | ok es' => rw [hj, hj'] at hes; exact hes.elim
    | ok es =>
      cases hj' : entries H f' json with
      | error g' => rw [hj, hj'] at hes; exact hes.elim
      | ok es' =>
        rw [hj, hj'] at hes
        simp only [hj, hj']
        refine .some ?_
        have hall : List.Forall₂ AlikeEntry es es' := hes
        simp only [Content.ofEntries, profiles_foldl]
        show List.Forall₂ Alike (es.map Prod.fst) (es'.map Prod.fst)
        rw [List.forall₂_map_left_iff, List.forall₂_map_right_iff]
        exact hall.imp fun _ _ he => he.1

theorem forall₂_and {α β : Type} {R S : α → β → Prop} {l : List α} {l' : List β} (h : List.Forall₂ R l l')
    (h' : List.Forall₂ S l l') : List.Forall₂ (fun a b => R a b ∧ S a b) l l' := by
  induction h with
  | nil => exact .nil
  | cons hab _ ih =>
    cases h' with
    | cons hab' h' => exact .cons ⟨hab, hab'⟩ (ih h')

/-- The feature settings of the current profile are not changed. -/
theorem sameFeatures_left (hf : Inv t profileId wf) (hs : Shape t wf) (hl : Left wf t₁)
    (hd : ¬Drops t.rows profileId) (hseq : profileId ≤ t.seq) :
    SameFeatures (featureOf t profileId) (featureOf t₁ profileId) := by
  have hmem : ∀ (t : Table) r, r ∈ t.rows → r.id = profileId → featureOf t profileId = some r := by
    intro t r hr hid
    have hsome : (featureOf t profileId).isSome := by
      unfold featureOf
      rw [List.find?_isSome]
      exact ⟨r, hr, by simpa using hid⟩
    obtain ⟨q, hq⟩ := Option.isSome_iff_exists.1 hsome
    have hqid : q.id = profileId := by simpa using List.find?_some hq
    rw [hq, Table.eq_of_id (List.mem_of_find?_eq_some hq) hr (hqid.trans hid.symm)]
  have hnone : ∀ t : Table, profileId ∉ t.ids → featureOf t profileId = none := by
    intro t hid
    unfold featureOf
    rw [List.find?_eq_none]
    intro r hr hrid
    exact hid (Table.mem_ids.2 ⟨r, hr, by simpa using hrid⟩)
  by_cases hid : profileId ∈ t.ids
  · obtain ⟨r, hr, hrid⟩ := Table.mem_ids.1 hid
    have hkept : r ∈ kept t.rows := by
      by_contra hk
      exact hd ⟨r, hr, hrid, hk⟩
    have hid₁ : r.id ∈ t₁.ids := by
      rw [hl.ids]
      exact (hf.kept r hr).2 hkept
    obtain ⟨q, hq, hqid⟩ := Table.mem_ids.1 hid₁
    rw [hmem t r hr hrid, hmem t₁ q hq (hqid.trans hrid)]
    unfold SameFeatures
    rw [Option.map_some, Option.map_some, hs.features q (hl.rows q hq) r hr hqid.symm]
  · have hid₁ : profileId ∉ t₁.ids := by
      obtain ⟨new, hnew, hlt⟩ := hs.ids
      rw [hl.ids, hnew, List.mem_append, not_or]
      constructor
      · intro hk
        obtain ⟨r, hr, hrid⟩ := List.mem_map.1 hk
        exact hid (Table.mem_ids.2 ⟨r, mem_of_mem_kept hr, hrid⟩)
      · intro hn
        have := hlt _ hn
        omega
    rw [hnone t hid, hnone t₁ hid₁]
    rfl

theorem ofDocuments_eq {H : HashOrder} {f f' : Option Profile} (h : SameFeatures f f') (ds : List Document) :
    Content.ofDocuments H f ds = Content.ofDocuments H f' ds := by
  have hdoc : Content.ofDocument H f = Content.ofDocument H f' := by
    funext d
    unfold Content.ofDocument
    simp only [entries_eq H h]
  unfold Content.ofDocuments
  rw [hdoc]

theorem alikeContent_refl {c : Content} (hc : c.WellFormed) : AlikeContent c c :=
  ⟨List.forall₂_same.2 hc.mains, List.forall₂_same.2 fun l hl => ⟨rfl, (hc.links l hl).1⟩⟩

/-- Where the second sync starts. -/
theorem sim_start (hf : Inv t profileId wf) (hl : Left wf t₁) (hkept : kept t₁.rows = t₁.rows)
    (h₁ : Preprocessed t profileId t.rows [] w₁) (h₂ : Preprocessed t₁ profileId₁ t₁.rows [] w₂) :
    Sim wf t₁ w₁ w₂ := by
  have hrows : w₂.table.rows = t₁.rows := by rw [h₂.rows, List.append_nil, hkept]
  have hinv := h₂.inv
  refine ⟨by rw [h₁.handed, h₂.handed], ?_, ?_, ?_⟩
  · unfold Table.ids
    rw [hrows]
  · intro k id hk
    obtain ⟨hid, o, ho, hoid, hop, hos⟩ := hf.subs_object k id hk
    rw [← hl.ids] at hid
    obtain ⟨r, hr, hrid⟩ := Table.mem_ids.1 hid
    have hro : r = o := hf.object_eq (hl.rows r hr) ho (hrid.trans hoid.symm)
    rw [h₂.subs, hkept]
    exact ⟨r, hr, by rw [hro]; exact hos, by rw [hro]; exact hop, hrid⟩
  · -- no object is active
    intro o ho ha
    have hid : o.id ∈ t₁.ids := by rw [← h₂.ids]; exact List.mem_map_of_mem ho
    obtain ⟨r, hr, hrid⟩ := Table.mem_ids.1 hid
    rw [← hrows] at hr
    obtain ⟨q, hq, hqid, hqp, hqs⟩ := hinv.object r hr
    have hqo : q = o := hinv.object_eq hq ho (hqid.trans hrid)
    rw [hqo] at hqp hqs
    have hru : r.subscription ≠ .userConfigured := by
      intro hu
      have := hqs.2 hu
      rw [ha] at this
      cases this
    have hget := hinv.row_subs r hr hru
    rw [← hqp, hrid] at hget
    have hhanded := (hinv.active o ho hget).1 ha
    rw [h₂.handed] at hhanded
    cases hhanded

section Ends

variable {H : HashOrder} {ds : List Document} {w₀ : World Sync} {toasts : List Fault}

/-- Nothing is active when the documents are first read. -/
theorem Ends.sourced (h : Ends H t profileId ds w₀ w₁ w₂ toasts) (cs : List Content) : Sourced cs t w₀ := by
  intro o ho ha hget
  have hhanded := (h.preprocessed.inv.active o ho hget).1 ha
  rw [h.preprocessed.handed] at hhanded
  cases hhanded

/-- **The documents ask for the same in both syncs.** -/
theorem Ends.alike (h : Ends H t profileId ds w₀ w₁ w₂ toasts) (hst : Stable H t profileId ds) :
    List.Forall₂ AlikeContent (Content.ofDocuments H (featureOf t profileId) ds)
      (Content.ofDocuments H (featureOf w₂.table w₂.extra.profileId) ds) := by
  rcases hst.features with ⟨hd, hseq⟩ | hlinks
  · have hcur : w₂.extra.profileId = profileId := by
      rw [h.extra]
      exact h.inv.other hd
    rw [hcur, ← ofDocuments_eq (sameFeatures_left h.inv h.shape (h.left h.shape) hd hseq)]
    exact List.forall₂_same.2 fun c hc => alikeContent_refl (Content.wellFormed_ofDocuments c hc)
  · exact (forall₂_and (mains_alike H _ _ ds) (hlinks _)).imp fun _ _ hc => ⟨hc.1, hc.2⟩

/-- The second sync is the first one, in every active object. -/
theorem Ends.sim (h : Ends H t profileId ds w₀ w₁ w₂ toasts) (hst : Stable H t profileId ds)
    (hkept : kept w₂.table.rows = w₂.table.rows) {v₀ v₁ v₂ : World Sync} {toasts' : List Fault}
    (h' : Ends H w₂.table w₂.extra.profileId ds v₀ v₁ v₂ toasts') : Sim w₁ w₂.table w₁ v₁ := by
  have h₀ := h.preprocessed.inv
  have hs₀ := h.preprocessed.shape
  have hsrc₀ := h.sourced (Content.ofDocuments H (featureOf t profileId) ds)
  have hl := h.left h.shape
  have hms := runs_origin hst.fallbacks Content.wellFormed_ofDocuments _ (List.nil_append _).symm h₀ hs₀ hsrc₀
    (by simp [mains])
  rw [h.run] at hms
  have hstems := hl.stems h.inv h.shape (hms.sourced h₀ hs₀ hsrc₀)
  rw [← h'.run]
  exact sim_runs hst.fallbacks Content.wellFormed_ofDocuments h.inv hl hstems (h.alike hst)
    Content.wellFormed_ofDocuments (List.nil_append _).symm h₀ hs₀ hsrc₀ (by simp [mains])
    h'.preprocessed.inv h'.preprocessed.shape (sim_start h.inv hl hkept h.preprocessed h'.preprocessed) h.run

end Ends

/-- A row that was not touched by the second sync: it is not active after the first one. -/
theorem row_eq_of_idle (hf : Inv t profileId wf) (hl : Left wf t₁) (h₂ : Inv t₁ profileId₁ w₂) (hs₂ : Shape t₁ w₂)
    (hsim : Sim wf t₁ wf w₂) {r q : Profile} (hr : r ∈ w₂.objects) (hra : r.subscription ≠ .active)
    (hq : q ∈ t₁.rows) (hid : r.id = q.id) : r = q := by
  obtain ⟨p, hp, hrp⟩ := hs₂.idle r hr hra
  have hpq : p = q := Table.eq_of_id hp hq (by rw [← hid, hrp, id_marked])
  rw [hpq] at hrp
  have hqa : q.subscription ≠ .active := by
    intro ha
    have hget : Assoc.get wf.extra.subscriptions q.pair = some q.id := hl.subs q hq (by rw [ha]; simp)
    have hhanded := (hf.active q (hl.rows q hq) hget).1 ha
    have hrq : r.pair = q.pair := by rw [hrp, pair_marked]
    have hget₂ : Assoc.get w₂.extra.subscriptions r.pair = some r.id := by
      rw [hrq, hid]
      exact hsim.subs _ _ hget
    rw [← hsim.handed, ← hrq] at hhanded
    exact hra ((h₂.active r hr hget₂).2 hhanded)
  rw [hrp]
  unfold marked
  rw [if_neg (by simp [hqa])]

/-- If all fallbacks are settled, syncing twice is syncing once. -/
theorem sync_settled (H : HashOrder) (t : Table) (profileId : ℤ) (ds : List Document)
    (h : Stable H t profileId ds) :
    (createProfilesFromSubscription H (createProfilesFromSubscription H t profileId ds).world.table
      (createProfilesFromSubscription H t profileId ds).world.extra.profileId ds).world.table.rows =
    (createProfilesFromSubscription H t profileId ds).world.table.rows := by
  have hkept := kept_sync H t profileId ds
  obtain ⟨w₀, wf, w₁, toasts, hend⟩ := sync_ends H t profileId ds
  rw [hend.result] at hkept ⊢
  obtain ⟨v₀, vf, v₁, toasts', hend'⟩ := sync_ends H w₁.table w₁.extra.profileId ds
  have hrows : (createProfilesFromSubscription H w₁.table w₁.extra.profileId ds).world.table.rows =
      v₁.table.rows := by rw [hend'.result]
  rw [hrows]
  have hl := hend.left hend.shape
  have hl' := hend'.left hend'.shape
  have hsim := hend.sim h hkept hend'
  have hids : v₁.table.ids = w₁.table.ids := hl'.ids.trans hsim.ids
  refine rows_eq_of_ids hids ?_
  intro r hr q hq hid
  by_cases ha : r.subscription = .active
  · exact hend.inv.object_eq (hsim.objects r (hl'.rows r hr) ha) (hl.rows q hq) hid
  · exact row_eq_of_idle hend.inv hl hend'.inv hend'.shape hsim (hl'.rows r hr) ha hq hid

/-- **When syncing twice is syncing once**: exactly if the first sync left a lasting table. It does so if all
fallbacks are settled. -/
theorem sync_idempotent_iff (H : HashOrder) (t : Table) (profileId : ℤ) (ds : List Document) :
    ((createProfilesFromSubscription H (createProfilesFromSubscription H t profileId ds).world.table
        (createProfilesFromSubscription H t profileId ds).world.extra.profileId ds).world.table.rows =
      (createProfilesFromSubscription H t profileId ds).world.table.rows ↔
        Lasting (createProfilesFromSubscription H t profileId ds).world.table
          (Content.ofDocuments H (featureOf (createProfilesFromSubscription H t profileId ds).world.table
            (createProfilesFromSubscription H t profileId ds).world.extra.profileId) ds)) ∧
      (Stable H t profileId ds → Lasting (createProfilesFromSubscription H t profileId ds).world.table
        (Content.ofDocuments H (featureOf (createProfilesFromSubscription H t profileId ds).world.table
          (createProfilesFromSubscription H t profileId ds).world.extra.profileId) ds)) := by
  have hiff := sync_rows_iff H (createProfilesFromSubscription H t profileId ds).world.table
    (createProfilesFromSubscription H t profileId ds).world.extra.profileId ds (kept_sync H t profileId ds)
  exact ⟨hiff, fun hstable => hiff.1 (sync_settled H t profileId ds hstable)⟩

/-! ## Examples -/

/-- The members of an object with these credentials. -/
def sampleServer (host : Str) (rest : Members) : Members :=
  ("server".toList, .str host) :: ("server_port".toList, .num ['1'] (some 1)) ::
    ("password".toList, .str ['p']) :: ("method".toList, .str ['m']) :: rest

/-- The fallback is one of the profiles. -/
def listedFallback : List Document :=
  [⟨[.arr [.obj (sampleServer ['a'] [("udp_fallback".toList, .obj (sampleServer ['b'] []))]),
    .obj (sampleServer ['b'] [])]], true⟩]

/-- A fallback with a plugin has the name and the address of a later profile. -/
def pluggedFallback : List Document :=
  [⟨[.obj (sampleServer ['b']
      [("udp_fallback".toList, .obj (("plugin".toList, .str ['v']) :: sampleServer ['c'] []))])], true⟩,
    ⟨[.arr [.obj (sampleServer ['c'] []),
      .obj (sampleServer ['a'] [("udp_fallback".toList, .obj (sampleServer ['c'] []))])]], true⟩]

theorem sync_idempotent_listed :
    Lasting (createProfilesFromSubscription .insertion .empty 0 listedFallback).world.table
      (Content.ofDocuments .insertion (featureOf (createProfilesFromSubscription .insertion .empty 0
        listedFallback).world.table (createProfilesFromSubscription .insertion .empty 0
        listedFallback).world.extra.profileId) listedFallback) ∧
    Lasting (createProfilesFromSubscription .insertion .empty 0 pluggedFallback).world.table
      (Content.ofDocuments .insertion (featureOf (createProfilesFromSubscription .insertion .empty 0
        pluggedFallback).world.table (createProfilesFromSubscription .insertion .empty 0
        pluggedFallback).world.extra.profileId) pluggedFallback) := by
  have hstable : Stable .insertion .empty 0 listedFallback := by
    refine ⟨by decide +kernel, Or.inl ⟨?_, by decide⟩⟩
    rintro ⟨r, hr, -⟩
    cases hr
  exact ⟨(sync_idempotent_iff .insertion .empty 0 listedFallback).2 hstable,
    (sync_idempotent_iff .insertion .empty 0 pluggedFallback).1.1 (by decide +kernel)⟩

/-- The fallback is not one of the profiles. -/
def unlistedFallback : List Document :=
  [⟨[.obj (sampleServer ['a'] [("udp_fallback".toList, .obj (sampleServer ['b'] []))])], true⟩]

/-- The fallback that the first sync created is marked obsolete by the second one. -/
theorem sync_obsolete :
    (createProfilesFromSubscription .insertion .empty 0 unlistedFallback).world.table.rows.map
      (fun p => (p.id, p.host, p.udpFallback, p.subscription)) =
        [(1, ['a'], some 2, .active), (2, ['b'], none, .active)] ∧
    (createProfilesFromSubscription .insertion (createProfilesFromSubscription .insertion .empty 0
      unlistedFallback).world.table (createProfilesFromSubscription .insertion .empty 0
      unlistedFallback).world.extra.profileId unlistedFallback).world.table.rows.map
      (fun p => (p.id, p.host, p.udpFallback, p.subscription)) =
        [(1, ['a'], some 2, .active), (2, ['b'], none, .obsolete)] := by
  decide +kernel

end Sync

end BlackButton
