import BlackButton.Subscription.Moves

/-!
# Fallbacks that are resolved for good

A fallback is resolved against the rows as they are stored at that time, and not
against the objects that the sync is about to write. `settled` says of the table and
of the documents that this makes no difference: whatever the entries of the documents
write, a fallback finds the same row, or it never finds one.

* `Stems`: where the credentials of a row come from.
* `lookup_eq`: **a settled fallback is resolved in the same way** against the rows when
  its document is read, and against the rows that the sync leaves.
-/

namespace BlackButton

open JsonParser

namespace Sync

/-! ## The condition -/

/-- The main entries of the documents. -/
def mains (cs : List Content) : List Profile := cs.flatMap Content.mains

/-- The main entries whose pair no main entry before them has. -/
def firstMains (cs : List Content) : List Profile :=
  (mains cs).filter fun x => (mains cs).find? (fun y => y.pair = x.pair) = some x

/-- The fallbacks whose pair no main entry of their or of an earlier document has. -/
def looseFallbacks : List Profile → List Content → List Profile
  | _, [] => []
  | before, c :: cs =>
    (c.links.map Prod.snd).filter (fun x => (before ++ c.mains).all fun y => y.pair ≠ x.pair) ++
      looseFallbacks (before ++ c.mains) cs

/-- The same server and credentials: such fallbacks match the same profiles. -/
def sameServer (p q : Profile) : Bool :=
  p.host = q.host && p.remotePort = q.remotePort && p.password = q.password && p.method = q.method

/-- What can give a profile its credentials. -/
def sources (cs : List Content) : List Profile := firstMains cs ++ looseFallbacks [] cs

/-- The same without the fallback itself. -/
def rivals (cs : List Content) (f : Profile) : List Profile :=
  firstMains cs ++ (looseFallbacks [] cs).filter fun x => !sameServer f x

/-- The row matches the fallback, as it is or with the credentials of an entry with its pair. -/
def mayMatch (xs : List Profile) (f r : Profile) : Bool :=
  matching f r || (subscribed r && xs.any fun x => x.pair = r.pair && matching f (r.refresh x))

/-- The row matches the fallback, as it is and with the credentials of every entry with its pair. -/
def mustMatch (xs : List Profile) (f r : Profile) : Bool :=
  matching f r && (!subscribed r || xs.all fun x => x.pair ≠ r.pair || matching f (r.refresh x))

/-- The first row that may match the fallback does. -/
def findsRow (cs : List Content) (t : Table) (f : Profile) : Bool :=
  match (kept t.rows).find? (mayMatch (rivals cs f) f) with
  | some r => mustMatch (rivals cs f) f r
  | none => false

/-- No row may match the fallback, and a new profile of a main entry before it does. -/
def findsEntry (cs : List Content) (t : Table) (before : List Profile) (f : Profile) : Bool :=
  (kept t.rows).all (fun r => !mayMatch (rivals cs f) f r) &&
    before.any fun m => !taken (kept t.rows) m.pair &&
      (rivals cs f).all fun x => x.pair ≠ m.pair || matching f x

/-- Neither a row nor an entry may match the fallback. -/
def findsNothing (cs : List Content) (t : Table) (f : Profile) : Bool :=
  (kept t.rows).all (fun r => !mayMatch (sources cs) f r) &&
    (sources cs).all fun x => taken (kept t.rows) x.pair || !matching f x

/-- Every fallback of the documents `rest`, which follow the main entries `before`, is settled. -/
def settledFrom (cs : List Content) (t : Table) : List Profile → List Content → Bool
  | _, [] => true
  | before, c :: rest =>
    c.links.all (fun l => findsRow cs t l.2 || findsEntry cs t (before ++ c.mains) l.2 ||
      findsNothing cs t l.2) && settledFrom cs t (before ++ c.mains) rest

def settled (t : Table) (cs : List Content) : Bool := settledFrom cs t [] cs

theorem settledFrom_iff {all : List Content} {t : Table} {cs : List Content} : ∀ {before : List Profile},
    settledFrom all t before cs = true → ∀ pre c post, cs = pre ++ c :: post → ∀ l ∈ c.links,
      findsRow all t l.2 = true ∨ findsEntry all t (before ++ mains (pre ++ [c])) l.2 = true ∨
        findsNothing all t l.2 = true := by
  induction cs with
  | nil =>
    intro before _ pre c post hsplit
    simp at hsplit
  | cons d cs ih =>
    intro before h pre c post hsplit l hl
    rw [settledFrom, Bool.and_eq_true] at h
    cases pre with
    | nil =>
      rw [List.nil_append, List.cons.injEq] at hsplit
      obtain ⟨rfl, rfl⟩ := hsplit
      have hd := List.all_eq_true.1 h.1 l hl
      simpa [mains, or_assoc] using hd
    | cons e pre =>
      rw [List.cons_append, List.cons.injEq] at hsplit
      obtain ⟨rfl, rfl⟩ := hsplit
      have hrest := ih h.2 pre c post rfl l hl
      simpa [mains] using hrest

theorem mem_firstMains {cs pre post : List Content} {c : Content} {a b : List Profile} {p : Profile}
    (hcs : cs = pre ++ c :: post) (hc : c.mains = a ++ p :: b) (ha : ∀ q ∈ mains pre ++ a, q.pair ≠ p.pair) :
    p ∈ firstMains cs := by
  have hsplit : mains cs = (mains pre ++ a) ++ p :: (b ++ mains post) := by
    rw [hcs]
    simp [mains, hc]
  have hnone : (mains pre ++ a).find? (fun y => decide (y.pair = p.pair)) = none := by
    rw [List.find?_eq_none]
    intro q hq
    simpa using ha q hq
  unfold firstMains
  rw [List.mem_filter]
  refine ⟨by rw [hsplit]; simp, ?_⟩
  rw [decide_eq_true_iff, hsplit, List.find?_append, hnone]
  simp

theorem mem_looseFallbacks {cs : List Content} : ∀ {before : List Profile} {pre post : List Content}
    {c : Content} {l : Key × Profile}, cs = pre ++ c :: post → l ∈ c.links →
    (∀ q ∈ before ++ mains (pre ++ [c]), q.pair ≠ l.2.pair) → l.2 ∈ looseFallbacks before cs := by
  induction cs with
  | nil =>
    intro before pre post c l hcs
    simp at hcs
  | cons d cs ih =>
    intro before pre post c l hcs hl hq
    rw [looseFallbacks, List.mem_append]
    cases pre with
    | nil =>
      rw [List.nil_append, List.cons.injEq] at hcs
      obtain ⟨rfl, rfl⟩ := hcs
      left
      rw [List.mem_filter]
      refine ⟨List.mem_map_of_mem hl, ?_⟩
      rw [List.all_eq_true]
      intro y hy
      have hne := hq y (by simpa [mains] using hy)
      simpa using hne
    | cons e pre =>
      rw [List.cons_append, List.cons.injEq] at hcs
      obtain ⟨rfl, rfl⟩ := hcs
      right
      refine ih rfl hl ?_
      intro q hq'
      exact hq q (by simpa [mains] using hq')

theorem matching_eq_of_sameServer {p q : Profile} (h : sameServer p q = true) (r : Profile) :
    matching p r = matching q r := by
  simp only [sameServer, Bool.and_eq_true, decide_eq_true_eq] at h
  obtain ⟨⟨⟨h₁, h₂⟩, h₃⟩, h₄⟩ := h
  unfold matching
  rw [h₁, h₂, h₃, h₄]

theorem first_of_mains {cs : List Content} {m : Profile} (h : m ∈ mains cs) :
    ∃ x ∈ firstMains cs, x.pair = m.pair := by
  have hsome : ((mains cs).find? (fun y => decide (y.pair = m.pair))).isSome := by
    rw [List.find?_isSome]
    exact ⟨m, h, by simp⟩
  obtain ⟨x, hx⟩ := Option.isSome_iff_exists.1 hsome
  have hp : x.pair = m.pair := by simpa using List.find?_some hx
  refine ⟨x, ?_, hp⟩
  unfold firstMains
  rw [List.mem_filter]
  refine ⟨List.mem_of_find?_eq_some hx, ?_⟩
  rw [decide_eq_true_iff, hp]
  exact hx

section

variable {xs : List Profile} {f r : Profile}

theorem not_mayMatch (h : mayMatch xs f r = false) : matching f r = false ∧
    (r.subscription ≠ .userConfigured → ∀ x ∈ xs, x.pair = r.pair → matching f (r.refresh x) = false) := by
  rw [mayMatch, Bool.or_eq_false_iff, Bool.and_eq_false_iff] at h
  refine ⟨h.1, ?_⟩
  intro hs x hx hp
  have hany := h.2.resolve_left (by simp [hs])
  simpa [hp] using List.any_eq_false.1 hany x hx

theorem of_mustMatch (h : mustMatch xs f r = true) : matching f r = true ∧
    (r.subscription ≠ .userConfigured → ∀ x ∈ xs, x.pair = r.pair → matching f (r.refresh x) = true) := by
  rw [mustMatch, Bool.and_eq_true, Bool.or_eq_true] at h
  refine ⟨h.1, ?_⟩
  intro hs x hx hp
  have hall := h.2.resolve_left (by simp [hs])
  simpa [hp] using List.all_eq_true.1 hall x hx

end

section Classes

variable {cs : List Content} {t : Table} {f : Profile}

theorem findsNothing_row (h : findsNothing cs t f = true) {r : Profile} (hr : r ∈ kept t.rows) :
    mayMatch (sources cs) f r = false := by
  rw [findsNothing, Bool.and_eq_true] at h
  simpa using List.all_eq_true.1 h.1 r hr

theorem findsNothing_entry (h : findsNothing cs t f = true) {x : Profile} (hx : x ∈ sources cs)
    (ht : taken (kept t.rows) x.pair = false) : matching f x = false := by
  rw [findsNothing, Bool.and_eq_true] at h
  simpa [ht] using List.all_eq_true.1 h.2 x hx

/-- The row that the fallback finds. -/
theorem of_findsRow (h : findsRow cs t f = true) :
    ∃ as r bs, kept t.rows = as ++ r :: bs ∧ mustMatch (rivals cs f) f r = true ∧
      ∀ a ∈ as, mayMatch (rivals cs f) f a = false := by
  unfold findsRow at h
  cases hfind : (kept t.rows).find? (mayMatch (rivals cs f) f) with
  | none => rw [hfind] at h; cases h
  | some r =>
    rw [hfind] at h
    obtain ⟨-, as, bs, hsplit, has⟩ := List.find?_eq_some_iff_append.1 hfind
    exact ⟨as, r, bs, hsplit, h, fun a ha => by simpa using has a ha⟩

/-- The main entry that the fallback finds. -/
theorem of_findsEntry {before : List Profile} (h : findsEntry cs t before f = true) :
    (∀ r ∈ kept t.rows, mayMatch (rivals cs f) f r = false) ∧
    ∃ m ∈ before, taken (kept t.rows) m.pair = false ∧ ∀ x ∈ rivals cs f, x.pair = m.pair → matching f x = true := by
  rw [findsEntry, Bool.and_eq_true] at h
  refine ⟨fun r hr => by simpa using List.all_eq_true.1 h.1 r hr, ?_⟩
  obtain ⟨m, hm, hm'⟩ := List.any_eq_true.1 h.2
  rw [Bool.and_eq_true, Bool.not_eq_true'] at hm'
  refine ⟨m, hm, hm'.1, ?_⟩
  intro x hx hp
  simpa [hp] using List.all_eq_true.1 hm'.2 x hx

/-- What gives a profile its credentials, if all fallbacks are settled: a fallback does only if it finds
nothing. -/
def Origin (cs : List Content) (t : Table) (x : Profile) : Prop :=
  x ∈ firstMains cs ∨ (x ∈ looseFallbacks [] cs ∧ findsNothing cs t x = true)

theorem Origin.source {x : Profile} (h : Origin cs t x) : x ∈ sources cs := by
  unfold sources
  rw [List.mem_append]
  exact h.imp id And.left

/-- The fallback finds a row or a main entry. -/
def Finds (cs : List Content) (t : Table) (before : List Profile) (f : Profile) : Prop :=
  findsRow cs t f = true ∨ findsEntry cs t before f = true

/-- A fallback that finds something is not what gives credentials. -/
theorem Origin.rival {x : Profile} (h : Origin cs t x) {before : List Profile}
    (hbefore : ∀ m ∈ before, m ∈ mains cs) (hf : Finds cs t before f) : x ∈ rivals cs f := by
  unfold rivals
  rw [List.mem_append]
  rcases h with hx | ⟨hx, hnothing⟩
  · exact Or.inl hx
  · right
    rw [List.mem_filter, Bool.not_eq_true']
    refine ⟨hx, ?_⟩
    by_contra hsame
    have hsame' : sameServer f x = true := by simpa using hsame
    rcases hf with hrow | hentry
    · obtain ⟨as, r, bs, hsplit, hr, -⟩ := of_findsRow hrow
      have hmiss := (not_mayMatch (findsNothing_row hnothing (by rw [hsplit]; simp : r ∈ kept t.rows))).1
      rw [← matching_eq_of_sameServer hsame', (of_mustMatch hr).1] at hmiss
      cases hmiss
    · obtain ⟨-, m, hm, ht, hall⟩ := of_findsEntry hentry
      obtain ⟨y, hy, hp⟩ := first_of_mains (hbefore m hm)
      have hmiss := findsNothing_entry hnothing (Origin.source (t := t) (Or.inl hy)) (by rw [hp]; exact ht)
      rw [← matching_eq_of_sameServer hsame', hall y (List.mem_append_left _ hy) hp] at hmiss
      cases hmiss

end Classes

/-! ## Where credentials come from -/

/-- The row `r` matches fallbacks as a row that stays does, or as such a row with the credentials of
an entry, or it was created for an entry. -/
inductive Stems (cs : List Content) (t : Table) (r : Profile) : Prop
  | row (q : Profile) : q ∈ kept t.rows → q.id = r.id → (∀ f, matching f r = matching f q) → Stems cs t r
  | refreshed (q x : Profile) : q ∈ kept t.rows → q.subscription ≠ .userConfigured → q.id = r.id →
      Origin cs t x → x.pair = q.pair → (∀ f, matching f r = matching f (q.refresh x)) → Stems cs t r
  | created (x : Profile) : Origin cs t x → taken (kept t.rows) x.pair = false → t.seq < r.id →
      x.pair = r.pair → (∀ f, matching f r = matching f x) → Stems cs t r

section Lookup

variable {cs : List Content} {t : Table} {f r : Profile}

/-- A row that stays, as it was or with the credentials of an entry. -/
theorem Stems.version (h : Stems cs t r) {q : Profile} (hq : q ∈ kept t.rows) (hid : q.id = r.id) (f : Profile) :
    matching f r = matching f q ∨ ∃ x, Origin cs t x ∧ q.subscription ≠ .userConfigured ∧ x.pair = q.pair ∧
      matching f r = matching f (q.refresh x) := by
  have huniq : ∀ p ∈ kept t.rows, p.id = r.id → p = q :=
    fun p hp hpid => Table.eq_of_id (mem_of_mem_kept hp) (mem_of_mem_kept hq) (hpid.trans hid.symm)
  cases h with
  | row p hp hpid hm =>
    rw [huniq p hp hpid] at hm
    exact Or.inl (hm f)
  | refreshed p x hp hs hpid hx hpair hm =>
    rw [huniq p hp hpid] at hs hpair hm
    exact Or.inr ⟨x, hx, hs, hpair, hm f⟩
  | created x hx ht hseq hpair hm =>
    have := t.le_seq q (mem_of_mem_kept hq)
    omega

theorem Stems.miss (h : Stems cs t r) {xs : List Profile} (hxs : ∀ x, Origin cs t x → x ∈ xs) {q : Profile}
    (hq : q ∈ kept t.rows) (hid : q.id = r.id) (hmiss : mayMatch xs f q = false) : matching f r = false := by
  obtain ⟨h₁, h₂⟩ := not_mayMatch hmiss
  rcases h.version hq hid f with hm | ⟨x, hx, hs, hpair, hm⟩
  · rw [hm]
    exact h₁
  · rw [hm]
    exact h₂ hs x (hxs x hx) hpair

theorem Stems.hit (h : Stems cs t r) {xs : List Profile} (hxs : ∀ x, Origin cs t x → x ∈ xs) {q : Profile}
    (hq : q ∈ kept t.rows) (hid : q.id = r.id) (hhit : mustMatch xs f q = true) : matching f r = true := by
  obtain ⟨h₁, h₂⟩ := of_mustMatch hhit
  rcases h.version hq hid f with hm | ⟨x, hx, hs, hpair, hm⟩
  · rw [hm]
    exact h₁
  · rw [hm]
    exact h₂ hs x (hxs x hx) hpair

theorem Stems.of_unlinked {r' : Profile} (h : Stems cs t r) (heq : r.unlinked = r'.unlinked) : Stems cs t r' := by
  have hm : ∀ f, matching f r' = matching f r := fun f => (Profile.matching_eq_of_unlinked heq f).symm
  have hid := Profile.id_eq_of_unlinked heq
  cases h with
  | row q hq hqid hq' => exact .row q hq (hqid.trans hid) (fun f => (hm f).trans (hq' f))
  | refreshed q x hq hs hqid hx hp hq' =>
    exact .refreshed q x hq hs (hqid.trans hid) hx hp (fun f => (hm f).trans (hq' f))
  | created x hx ht hseq hp hx' =>
    exact .created x hx ht (by rw [← hid]; exact hseq) (hp.trans (Profile.pair_eq_of_unlinked heq))
      (fun f => (hm f).trans (hx' f))

end Lookup

/-- The active objects stem from rows and entries. -/
def Sourced (cs : List Content) (t : Table) (w : World Sync) : Prop :=
  ∀ o ∈ w.objects, o.subscription = .active → Assoc.get w.extra.subscriptions o.pair = some o.id → Stems cs t o

variable {cs : List Content} {t : Table} {profileId : ℤ} {w w' : World Sync}

theorem matching_marked (rows : List Profile) (r f : Profile) : matching f (marked rows r) = matching f r := by
  unfold marked
  split <;> rfl

/-- A new profile stems from what was handed. -/
theorem Sourced.append_stored (hsrc : Sourced cs t w) (h : Inv t profileId w) (hs : Shape t w) {p : Profile}
    (hget : Assoc.get w.extra.subscriptions p.pair = none) (hok : Origin cs t p) {sync : Sync}
    (hput : sync.subscriptions = Assoc.put w.extra.subscriptions p.pair (w.table.seq + 1)) :
    Sourced cs t ⟨w.table.create (stored w p), w.objects ++ [stored w p], sync⟩ := by
  have htaken : taken (kept t.rows) p.pair = false := by
    rw [Bool.eq_false_iff, ne_eq, taken_iff]
    rintro ⟨q, hq, hqs, hqp⟩
    have hsub := hs.subs q hq hqs
    rw [hqp, hget] at hsub
    cases hsub
  intro o ho ha hk
  rcases List.mem_append.1 ho with ho | ho
  · have hle := h.le_seq o ho
    rw [show (⟨_, _, sync⟩ : World Sync).extra.subscriptions = _ from hput, Assoc.get_put_eq_some hget] at hk
    rcases hk with hk | ⟨-, hid⟩
    · exact hsrc o ho ha hk
    · omega
  · rw [List.mem_singleton] at ho
    subst ho
    have hseq : t.seq < (stored w p).id := by
      have hid : (stored w p).id = w.table.seq + 1 := rfl
      have hle := h.seq_le
      omega
    exact .created p hok htaken hseq rfl (fun _ => rfl)

/-- An object that is refreshed is the one of a row that stays. -/
theorem Sourced.refresh (hsrc : Sourced cs t w) (h : Inv t profileId w) (hs : Shape t w) {o p : Profile}
    (ho : o ∈ w.objects) (hget : Assoc.get w.extra.subscriptions p.pair = some o.id)
    (hst : o.subscription = .obsolete) (hok : Origin cs t p) {sync : Sync}
    (hsame : sync.subscriptions = w.extra.subscriptions) :
    Sourced cs t ⟨w.table, replace w.objects (o.refresh p), sync⟩ := by
  obtain ⟨hop, -⟩ := h.pair_of_get ho hget
  intro q hq ha hk
  rw [show (⟨_, _, sync⟩ : World Sync).extra.subscriptions = _ from hsame] at hk
  rcases mem_replace.1 hq with ⟨hq, -⟩ | ⟨rfl, -⟩
  · exact hsrc q hq ha hk
  · obtain ⟨r, hr, hor⟩ := hs.idle o ho (by rw [hst]; simp)
    have hid : r.id = o.id := by rw [hor, id_marked]
    have hkept : r ∈ kept t.rows := by
      rw [← h.kept r hr, hid]
      exact (h.subs_object _ _ hget).1
    have hrs : r.subscription ≠ .userConfigured := by
      intro hu
      rw [hor, user_marked_iff.2 hu] at hst
      cases hst
    refine .refreshed r p hkept hrs hid hok (by rw [← hop, hor, pair_marked]) ?_
    intro f
    rw [hor]
    unfold marked
    split <;> rfl

theorem Move.sourced (h : Inv t profileId w) (hs : Shape t w) (hsrc : Sourced cs t w)
    (hm : Move (Origin cs t) w w') : Sourced cs t w' := by
  cases hm with
  | call p hok =>
    unfold hand
    rcases create_cases h p with ⟨hget, hc⟩ | ⟨o, ho, hget, ha, hc⟩ | ⟨o, ho, hget, hst, hc⟩
    · rw [hc]
      have hfresh : p.pair ∉ w.extra.handed := by
        intro hk
        obtain ⟨id, hid⟩ := hs.known _ hk
        rw [hget] at hid
        cases hid
      exact hsrc.append_stored h hs hget (hok hfresh) rfl
    · rw [hc]
      exact hsrc
    · rw [hc]
      have hfresh : p.pair ∉ w.extra.handed := by
        obtain ⟨hop, -⟩ := h.pair_of_get ho hget
        rw [← hop, ← h.active o ho (by rw [hop]; exact hget), hst]
        simp
      exact hsrc.refresh h hs ho hget hst (hok hfresh) rfl
  | write o id ho ha hget =>
    intro q hq hqa hk
    rcases mem_replace.1 hq with ⟨hq, -⟩ | ⟨rfl, -⟩
    · exact hsrc q hq hqa hk
    · exact (hsrc o ho ha hget).of_unlinked rfl

theorem Moves.sourced (h : Inv t profileId w) (hs : Shape t w) (hsrc : Sourced cs t w)
    (hm : Moves (Origin cs t) w w') : Sourced cs t w' := by
  induction hm with
  | refl => exact hsrc
  | tail hms hstep ih => exact hstep.sourced (Moves.inv h hms) (Moves.shape h hs hms) ih

/-- So do the rows. -/
theorem Sourced.rows (h : Inv t profileId w) (hs : Shape t w) (hsrc : Sourced cs t w) :
    ∀ r ∈ w.table.rows, Stems cs t r := by
  intro r hr
  rcases hs.stale r hr with hr' | ⟨o, ho, ha, heq⟩
  · have hkept : r ∈ kept t.rows := (h.kept r hr').1 (Table.mem_ids.2 ⟨r, hr, rfl⟩)
    exact .row r hkept rfl (fun _ => rfl)
  · have hru : r.subscription ≠ .userConfigured := by
      rw [← Profile.status_eq_of_unlinked heq, ha]
      simp
    have hget : Assoc.get w.extra.subscriptions o.pair = some o.id := by
      rw [Profile.pair_eq_of_unlinked heq, Profile.id_eq_of_unlinked heq]
      exact h.row_subs r hr hru
    exact (hsrc o ho ha hget).of_unlinked heq

/-! ## Lookups -/

theorem find_row {p : Profile → Bool} {i : ℤ} {b : List ℤ} : ∀ {a : List ℤ} {rows : List Profile},
    rows.map Profile.id = a ++ i :: b → (∀ r ∈ rows, r.id ∈ a → p r = false) →
    (∀ r ∈ rows, r.id = i → p r = true) → (rows.find? p).map Profile.id = some i
  | [], r :: rows, hids, _, hat => by
    simp only [List.map_cons, List.nil_append, List.cons.injEq] at hids
    rw [List.find?_cons_of_pos (hat r List.mem_cons_self hids.1), Option.map_some, hids.1]
  | j :: a, r :: rows, hids, hbefore, hat => by
    simp only [List.map_cons, List.cons_append, List.cons.injEq] at hids
    have hr : p r = false := hbefore r List.mem_cons_self (by rw [hids.1]; exact List.mem_cons_self)
    rw [List.find?_cons_of_neg (by simp [hr])]
    refine find_row hids.2 ?_ ?_
    · exact fun q hq hqa => hbefore q (List.mem_cons_of_mem r hq) (List.mem_cons_of_mem j hqa)
    · exact fun q hq hqi => hat q (List.mem_cons_of_mem r hq) hqi
  | [], [], hids, _, _ => by simp at hids
  | _ :: _, [], hids, _, _ => by simp at hids

variable {f : Profile}

theorem lookup_findsRow (hf : findsRow cs t f = true) : ∃ i, ∀ (rows : List Profile) (new : List ℤ),
    rows.map Profile.id = (kept t.rows).map Profile.id ++ new → (∀ r ∈ rows, Stems cs t r) →
    (rows.find? (matching f)).map Profile.id = some i := by
  have hxs : ∀ x, Origin cs t x → x ∈ rivals cs f :=
    fun x hx => hx.rival (fun m hm => absurd hm List.not_mem_nil) (Or.inl hf : Finds cs t [] f)
  obtain ⟨as, q, bs, hsplit, hq, has⟩ := of_findsRow hf
  have hmem : ∀ a ∈ as, a ∈ kept t.rows := fun a ha => by rw [hsplit]; exact List.mem_append_left _ ha
  refine ⟨q.id, ?_⟩
  intro rows new hids hst
  have hids' : rows.map Profile.id = as.map Profile.id ++ q.id :: (bs.map Profile.id ++ new) := by
    rw [hids, hsplit]
    simp
  refine find_row hids' ?_ ?_
  · intro r hr hra
    obtain ⟨a, ha, hid⟩ := List.mem_map.1 hra
    exact (hst r hr).miss hxs (hmem a ha) hid (has a ha)
  · intro r hr hrq
    exact (hst r hr).hit hxs (by rw [hsplit]; simp) hrq.symm hq

theorem lookup_findsNothing (hf : findsNothing cs t f = true) {rows : List Profile}
    (hst : ∀ r ∈ rows, Stems cs t r) : rows.find? (matching f) = none := by
  have hxs : ∀ x, Origin cs t x → x ∈ sources cs := fun x hx => hx.source
  rw [List.find?_eq_none]
  intro r hr hm
  have hmiss : matching f r = false := by
    have hr' := hst r hr
    cases hr' with
    | row q hq hid _ => exact (hst r hr).miss hxs hq hid (findsNothing_row hf hq)
    | refreshed q x hq _ hid _ _ _ => exact (hst r hr).miss hxs hq hid (findsNothing_row hf hq)
    | created x hx ht _ _ hx' =>
      rw [hx']
      exact findsNothing_entry hf hx.source ht
  rw [hmiss] at hm
  cases hm

/-- A new row that matches is found, also if more rows follow. -/
theorem lookup_findsEntry {before : List Profile} (hf : findsEntry cs t before f = true)
    (hbefore : ∀ m ∈ before, m ∈ mains cs) {rows rows' : List Profile} {new more : List ℤ}
    (hids : rows.map Profile.id = (kept t.rows).map Profile.id ++ new) (hnew : ∀ i ∈ new, t.seq < i)
    (hids' : rows'.map Profile.id = rows.map Profile.id ++ more) (hst : ∀ r ∈ rows, Stems cs t r)
    (hst' : ∀ r ∈ rows', Stems cs t r)
    (hsame : ∀ r ∈ rows, ∀ r' ∈ rows', r.id = r'.id → t.seq < r.id → matching f r' = matching f r)
    (hsome : ∃ r ∈ rows, matching f r = true) :
    (rows'.find? (matching f)).map Profile.id = (rows.find? (matching f)).map Profile.id := by
  have hxs : ∀ x, Origin cs t x → x ∈ rivals cs f := fun x hx => hx.rival hbefore (Or.inr hf)
  obtain ⟨hrows, -⟩ := of_findsEntry hf
  -- a row that stays is matched in neither list
  have hkept : ∀ r, Stems cs t r → r.id ∈ (kept t.rows).map Profile.id → matching f r = false := by
    intro r hr hid
    obtain ⟨q, hq, hqid⟩ := List.mem_map.1 hid
    exact hr.miss hxs hq hqid (hrows q hq)
  have hagree : ∀ r ∈ rows, ∀ r' ∈ rows', r.id = r'.id → matching f r' = matching f r := by
    intro r hr r' hr' hid
    have hmem : r.id ∈ (kept t.rows).map Profile.id ++ new := by
      rw [← hids]
      exact List.mem_map_of_mem hr
    rcases List.mem_append.1 hmem with hk | hn
    · rw [hkept r (hst r hr) hk, hkept r' (hst' r' hr') (by rw [← hid]; exact hk)]
    · exact hsame r hr r' hr' hid (hnew _ hn)
  obtain ⟨r, hr⟩ := Option.isSome_iff_exists.1 (List.find?_isSome.2 hsome)
  obtain ⟨hm, as, bs, hsplit, has⟩ := List.find?_eq_some_iff_append.1 hr
  rw [hr, Option.map_some]
  have hids'' : rows'.map Profile.id = as.map Profile.id ++ r.id :: (bs.map Profile.id ++ more) := by
    rw [hids', hsplit]
    simp
  refine find_row hids'' ?_ ?_
  · intro r' hr' hra
    obtain ⟨a, ha, hid⟩ := List.mem_map.1 hra
    rw [hagree a (by rw [hsplit]; exact List.mem_append_left _ ha) r' hr' hid]
    simpa using has a ha
  · intro r' hr' hid
    rw [hagree r (by rw [hsplit]; simp) r' hr' hid.symm]
    exact hm

/-- The object of a row that stays has its pair. -/
theorem pair_of_kept (h : Inv t profileId w) (hs : Shape t w) {q o : Profile} (hq : q ∈ kept t.rows)
    (ho : o ∈ w.objects) (hid : q.id = o.id) (hget : Assoc.get w.extra.subscriptions o.pair = some o.id) :
    q.pair = o.pair ∧ q.subscription ≠ .userConfigured := by
  have hqs : q.subscription ≠ .userConfigured := by
    intro hu
    obtain ⟨o', ho', hid', -, hiff⟩ := h.object q ((h.user q hu).2 (mem_of_mem_kept hq))
    have hou := hiff.2 hu
    rw [h.object_eq ho' ho (hid'.trans hid)] at hou
    exact (h.pair_of_get ho hget).2 hou
  have hget' := hs.subs q hq hqs
  rw [hid] at hget'
  exact ⟨((h.pair_of_get ho hget').1).symm, hqs⟩

/-- The profile of a main entry that matches is there. -/
theorem entry_found (h : Inv t profileId w) (hs : Shape t w) (hsrc : Sourced cs t w) {before : List Profile}
    (hf : findsEntry cs t before f = true) (hbefore : ∀ m ∈ before, m ∈ mains cs)
    (hhanded : ∀ m ∈ before, m.pair ∈ w.extra.handed) : ∃ r ∈ w.table.rows, matching f r = true := by
  obtain ⟨-, m, hm, ht, hall⟩ := of_findsEntry hf
  obtain ⟨id, hid⟩ := hs.known _ (hhanded m hm)
  obtain ⟨o, -, ho, hoid, hids, hget⟩ := linked_object h ⟨m.pair, hid⟩
  have hpair : o.pair = m.pair := (h.pair_of_get ho (by rw [hoid]; exact hid)).1
  have ha : o.subscription = .active := by
    rw [h.active o ho hget, hpair]
    exact hhanded m hm
  have hnot : ∀ q ∈ kept t.rows, q.id ≠ o.id := by
    intro q hq hqid
    obtain ⟨hp, hqs⟩ := pair_of_kept h hs hq ho hqid hget
    have htaken : taken (kept t.rows) m.pair = true := taken_iff.2 ⟨q, hq, hqs, hp.trans hpair⟩
    rw [ht] at htaken
    cases htaken
  have hstem := hsrc o ho ha hget
  cases hstem with
  | row q hq hqid _ => exact absurd hqid (hnot q hq)
  | refreshed q x hq _ hqid _ _ _ => exact absurd hqid (hnot q hq)
  | created x hx _ hseq hp hx' =>
    obtain ⟨r, hr, hrid⟩ := Table.mem_ids.1 hids
    refine ⟨r, hr, ?_⟩
    rcases hs.stale r hr with hr' | ⟨q, hq, -, heq⟩
    · have := t.le_seq r hr'
      omega
    · have hqo : q = o := h.object_eq hq ho (by rw [Profile.id_eq_of_unlinked heq, hrid, hoid])
      rw [hqo] at heq
      rw [← Profile.matching_eq_of_unlinked heq f, hx']
      exact hall x (hx.rival hbefore (Or.inr hf)) (hp.trans hpair)

/-! ## A whole run -/

variable {pre post : List Content} {c : Content}

theorem mem_mains_of_split (hcs : cs = pre ++ c :: post) : ∀ m ∈ mains (pre ++ [c]), m ∈ mains cs := by
  intro m hm
  rw [hcs]
  simp only [mains, List.flatMap_append, List.flatMap_cons, List.flatMap_nil, List.append_nil,
    List.mem_append] at hm ⊢
  tauto

/-- The main entries of a document are handed over. -/
theorem hands_origin (hcs : cs = pre ++ c :: post) (h : Inv t profileId w)
    (hhanded : ∀ m ∈ mains pre, m.pair ∈ w.extra.handed) : Moves (Origin cs t) w (c.mains.foldl hand w) := by
  refine hands_moves c.mains h ?_
  intro a p b hc hne hp
  refine Or.inl (mem_firstMains hcs hc ?_)
  intro q hq
  rcases List.mem_append.1 hq with hq | hq
  · intro hqp
    exact hp (hqp ▸ hhanded q hq)
  · exact hne q hq

theorem handed_mains (h : Inv t profileId w) (hhanded : ∀ m ∈ mains pre, m.pair ∈ w.extra.handed) :
    ∀ m ∈ mains (pre ++ [c]), m.pair ∈ (c.mains.foldl hand w).extra.handed := by
  intro m hm
  simp only [mains, List.flatMap_append, List.flatMap_cons, List.flatMap_nil, List.append_nil,
    List.mem_append] at hm
  rw [handed_hands c.mains h]
  rcases hm with hm | hm
  · exact Or.inl (hhanded m hm)
  · exact Or.inr ⟨m, hm, rfl⟩

/-- **If all fallbacks are settled, only those that find nothing are handed over.** -/
theorem run_origin (hset : settled t cs = true) (hcs : cs = pre ++ c :: post) (hc : c.WellFormed)
    (h : Inv t profileId w) (hs : Shape t w) (hsrc : Sourced cs t w)
    (hhanded : ∀ m ∈ mains pre, m.pair ∈ w.extra.handed) : Moves (Origin cs t) w (run w c) := by
  have hms := hands_origin hcs h hhanded
  have hmains := handed_mains (c := c) h hhanded
  have h' := hms.inv h
  have hs' := hms.shape h hs
  have hsrc' := hms.sourced h hs hsrc
  obtain ⟨new, hnew, -⟩ := hs'.ids
  refine hms.trans (links_moves h hs hc ?_)
  intro l hl hnone hfresh
  have hloose : l.2 ∈ looseFallbacks [] cs := by
    refine mem_looseFallbacks hcs hl ?_
    intro q hq hqp
    exact hfresh (hqp ▸ hmains q (by simpa using hq))
  rcases settledFrom_iff hset pre c post hcs l hl with hrow | hentry | hnothing
  · obtain ⟨i, hi⟩ := lookup_findsRow hrow
    have hfound := hi _ new hnew (hsrc'.rows h' hs')
    rw [hnone] at hfound
    cases hfound
  · rw [List.nil_append] at hentry
    obtain ⟨r, hr, hm⟩ := entry_found h' hs' hsrc' hentry (mem_mains_of_split hcs) hmains
    exact absurd hm (by simpa using List.find?_eq_none.1 hnone r hr)
  · exact Or.inr ⟨hloose, hnothing⟩

theorem handed_run (hc : c.WellFormed) (h : Inv t profileId w) (hs : Shape t w)
    (hhanded : ∀ m ∈ mains pre, m.pair ∈ w.extra.handed) :
    ∀ m ∈ mains (pre ++ [c]), m.pair ∈ (run w c).extra.handed := by
  intro m hm
  have hms := mains_moves h c.mains
  have hlinks : Moves (fun _ => True) (c.mains.foldl hand w) (run w c) :=
    links_moves h hs hc (fun _ _ _ _ => trivial)
  exact (hlinks.grows (hms.inv h)).handed _ (handed_mains h hhanded m hm)

theorem runs_origin (hset : settled t cs = true) (hwf : ∀ c ∈ cs, c.WellFormed) : ∀ (post : List Content)
    {pre : List Content} {w : World Sync}, cs = pre ++ post → Inv t profileId w → Shape t w → Sourced cs t w →
    (∀ m ∈ mains pre, m.pair ∈ w.extra.handed) → Moves (Origin cs t) w (post.foldl run w)
  | [], _, _, _, _, _, _, _ => .refl
  | c :: post, pre, w, hcs, h, hs, hsrc, hhanded => by
    have hc : c.WellFormed := hwf c (by rw [hcs]; simp)
    have hms := run_origin hset hcs hc h hs hsrc hhanded
    refine hms.trans (runs_origin hset hwf post (by rw [hcs]; simp) (hms.inv h) (hms.shape h hs)
      (hms.sourced h hs hsrc) (handed_run hc h hs hhanded))

end Sync

end BlackButton
