import Mathlib.Data.List.Nodup

/-!
# Insertion-ordered maps

`java.util.LinkedHashMap` as the list of its entries, in the order of iteration.
A key that is put again keeps its place (and its first key object); a removed key
is put again at the end. `get_put`, `get_remove` are the map laws, `keys_put` says
which keys there are afterwards.
-/

namespace BlackButton

namespace Assoc

variable {κ ν : Type} [DecidableEq κ]

/-- The keys, in order. -/
def keys (m : List (κ × ν)) : List κ := m.map Prod.fst

omit [DecidableEq κ] in
theorem keys_append (m m' : List (κ × ν)) : keys (m ++ m') = keys m ++ keys m' := List.map_append

/-- `get`. -/
def get : List (κ × ν) → κ → Option ν
  | [], _ => none
  | e :: m, k => if e.1 = k then some e.2 else get m k

/-- `put`. -/
def put : List (κ × ν) → κ → ν → List (κ × ν)
  | [], k, v => [(k, v)]
  | e :: m, k, v => if e.1 = k then (e.1, v) :: m else e :: put m k v

/-- `remove`. -/
def remove (m : List (κ × ν)) (k : κ) : List (κ × ν) := m.filter (fun e => e.1 ≠ k)

@[simp] theorem get_nil (k : κ) : get ([] : List (κ × ν)) k = none := rfl

theorem get_cons (e : κ × ν) (m : List (κ × ν)) (k : κ) :
    get (e :: m) k = if e.1 = k then some e.2 else get m k := rfl

theorem get_put (m : List (κ × ν)) (k k' : κ) (v : ν) :
    get (put m k v) k' = if k = k' then some v else get m k' := by
  induction m with
  | nil => rfl
  | cons e m ih =>
    by_cases hk : e.1 = k
    · by_cases hk' : k = k'
      · simp [put, get_cons, hk, hk']
      · have he : ¬e.1 = k' := by rw [hk]; exact hk'
        simp [put, get_cons, hk, hk']
    · rw [put, if_neg hk, get_cons, get_cons, ih]
      by_cases hk' : k = k'
      · have he : ¬e.1 = k' := by rw [← hk']; exact hk
        simp [hk', he]
      · simp [hk']

/-- What a map has after a new key was put. -/
theorem get_put_eq_some {m : List (κ × ν)} {k : κ} (hk : get m k = none) {v : ν} {k' : κ} {v' : ν} :
    get (put m k v) k' = some v' ↔ get m k' = some v' ∨ k' = k ∧ v' = v := by
  rw [get_put]
  by_cases h : k = k'
  · rw [if_pos h, ← h, hk, Option.some.injEq]
    constructor
    · exact fun hv => Or.inr ⟨rfl, hv.symm⟩
    · rintro (hv | ⟨-, hv⟩)
      · cases hv
      · exact hv.symm
  · rw [if_neg h]
    constructor
    · exact Or.inl
    · rintro (hv | ⟨hk', -⟩)
      · exact hv
      · exact absurd hk'.symm h

theorem get_remove (m : List (κ × ν)) (k k' : κ) :
    get (remove m k) k' = if k = k' then none else get m k' := by
  induction m with
  | nil => simp [remove]
  | cons e m ih =>
    by_cases hk : e.1 = k
    · have hr : remove (e :: m) k = remove m k := by simp [remove, hk]
      rw [hr, ih, get_cons, hk]
      by_cases hk' : k = k'
      · simp [hk']
      · simp [hk']
    · have hr : remove (e :: m) k = e :: remove m k := by simp [remove, hk]
      rw [hr, get_cons, ih, get_cons]
      by_cases hk' : k = k'
      · have he : ¬e.1 = k' := by rw [← hk']; exact hk
        simp [hk', he]
      · simp [hk']

theorem mem_of_get {m : List (κ × ν)} {k : κ} {v : ν} (h : get m k = some v) : (k, v) ∈ m := by
  induction m with
  | nil => cases h
  | cons e m ih =>
    rw [get_cons] at h
    by_cases hk : e.1 = k
    · rw [if_pos hk] at h
      cases h
      rw [← hk]
      exact List.mem_cons_self
    · rw [if_neg hk] at h
      exact List.mem_cons_of_mem e (ih h)

theorem get_of_mem {m : List (κ × ν)} (hm : (keys m).Nodup) {k : κ} {v : ν} (h : (k, v) ∈ m) :
    get m k = some v := by
  induction m with
  | nil => cases h
  | cons e m ih =>
    rw [keys, List.map_cons, List.nodup_cons] at hm
    rw [get_cons]
    rcases List.mem_cons.1 h with rfl | h
    · rw [if_pos rfl]
    · have hne : e.1 ≠ k := by
        intro he
        exact hm.1 (he ▸ List.mem_map_of_mem h)
      rw [if_neg hne]
      exact ih hm.2 h

theorem get_eq_none {m : List (κ × ν)} {k : κ} : get m k = none ↔ k ∉ keys m := by
  induction m with
  | nil => simp [keys]
  | cons e m ih =>
    rw [get_cons, keys, List.map_cons, List.mem_cons, not_or]
    by_cases hk : e.1 = k
    · simp [hk]
    · rw [if_neg hk, ih]
      exact ⟨fun h => ⟨fun he => hk he.symm, h⟩, fun h => h.2⟩

/-- A new key goes to the end, another one keeps its place. -/
theorem keys_put (m : List (κ × ν)) (k : κ) (v : ν) :
    keys (put m k v) = if k ∈ keys m then keys m else keys m ++ [k] := by
  induction m with
  | nil => simp [keys, put]
  | cons e m ih =>
    by_cases hk : e.1 = k
    · simp [keys, put, hk]
    · have hk' : ¬k = e.1 := fun h => hk h.symm
      rw [put, if_neg hk, keys, List.map_cons, ← keys, ih]
      by_cases hm : k ∈ keys m
      · have hm' : k ∈ keys (e :: m) := List.mem_cons_of_mem e.1 hm
        rw [if_pos hm, if_pos hm']
        rfl
      · have hm' : k ∉ keys (e :: m) := by
          rw [keys, List.map_cons, List.mem_cons, not_or]
          exact ⟨hk', hm⟩
        rw [if_neg hm, if_neg hm']
        rfl

theorem mem_put {m : List (κ × ν)} {k : κ} {v : ν} {e : κ × ν} (h : e ∈ put m k v) : e ∈ m ∨ e = (k, v) := by
  induction m with
  | nil => exact Or.inr (List.mem_singleton.1 h)
  | cons d m ih =>
    by_cases hk : d.1 = k
    · rw [put, if_pos hk, List.mem_cons, hk] at h
      rcases h with h | h
      · exact Or.inr h
      · exact Or.inl (List.mem_cons_of_mem d h)
    · rw [put, if_neg hk, List.mem_cons] at h
      rcases h with h | h
      · exact Or.inl (h ▸ List.mem_cons_self)
      · rcases ih h with h | h
        · exact Or.inl (List.mem_cons_of_mem d h)
        · exact Or.inr h

theorem nodup_put {m : List (κ × ν)} (hm : (keys m).Nodup) (k : κ) (v : ν) : (keys (put m k v)).Nodup := by
  rw [keys_put]
  split
  · exact hm
  · rename_i hk
    rw [List.nodup_append]
    refine ⟨hm, List.nodup_singleton k, ?_⟩
    intro a ha b hb hab
    rw [List.mem_singleton] at hb
    exact hk (hb ▸ hab ▸ ha)

theorem nodup_remove {m : List (κ × ν)} (hm : (keys m).Nodup) (k : κ) : (keys (remove m k)).Nodup :=
  hm.sublist (List.filter_sublist.map Prod.fst)

theorem put_ne_nil (m : List (κ × ν)) (k : κ) (v : ν) : put m k v ≠ [] := by
  intro hnil
  have hget := get_put m k k v
  rw [hnil] at hget
  simp at hget

/-- A removal empties a map only if it removes its last key. -/
theorem remove_eq_nil {m : List (κ × ν)} {k : κ} (hnot : ¬((get m k).isSome ∧ remove m k = [])) :
    remove m k = [] ↔ m = [] := by
  constructor
  · intro hnil
    have hget : get m k = none := by
      cases hg : get m k with
      | none => rfl
      | some l => exact absurd ⟨by rw [hg]; rfl, hnil⟩ hnot
    have hkey := get_eq_none.1 hget
    have hself : remove m k = m := by
      apply List.filter_eq_self.2
      intro e he
      have hne : e.1 ≠ k := by
        rintro rfl
        exact hkey (List.mem_map_of_mem he)
      simpa using hne
    rw [← hself, hnil]
  · intro hnil
    rw [hnil]
    rfl

/-- A put of a new key appends an entry. -/
theorem put_of_not_mem {m : List (κ × ν)} {k : κ} (h : k ∉ keys m) (v : ν) : put m k v = m ++ [(k, v)] := by
  induction m with
  | nil => rfl
  | cons e m ih =>
    rw [keys, List.map_cons, List.mem_cons, not_or] at h
    rw [put, if_neg (fun he => h.1 he.symm), ih h.2]
    rfl

theorem get_append {m m' : List (κ × ν)} {k : κ} (h : k ∉ keys m') : get (m ++ m') k = get m k := by
  induction m with
  | nil => exact get_eq_none.2 h
  | cons e m ih => rw [List.cons_append, get_cons, get_cons, ih]

theorem put_append {m m' : List (κ × ν)} {k : κ} (h : k ∉ keys m) (v : ν) :
    put (m ++ m') k v = m ++ put m' k v := by
  induction m with
  | nil => rfl
  | cons e m ih =>
    simp only [keys, List.map_cons, List.mem_cons, not_or] at h
    rw [List.cons_append, put, if_neg (Ne.symm h.1), ih h.2, List.cons_append]

theorem remove_append {m m' : List (κ × ν)} {k : κ} (h : k ∉ keys m') : remove (m ++ m') k = remove m k ++ m' := by
  have hself : m'.filter (fun e => e.1 ≠ k) = m' := by
    rw [List.filter_eq_self]
    intro e he
    have hne : e.1 ≠ k := by
      rintro rfl
      exact h (List.mem_map_of_mem he)
    simpa using hne
  unfold remove
  rw [List.filter_append, hself]

/-- Two permutations of a map are the same map. -/
theorem get_perm {m m' : List (κ × ν)} (hp : m.Perm m') (hm : (keys m).Nodup) (k : κ) :
    get m k = get m' k := by
  have hm' : (keys m').Nodup := (hp.map Prod.fst).nodup_iff.1 hm
  cases hg : get m k with
  | none =>
    rw [get_eq_none] at hg
    symm
    rw [get_eq_none]
    intro hk
    exact hg ((hp.map Prod.fst).mem_iff.2 hk)
  | some v => exact (get_of_mem hm' (hp.mem_iff.1 (mem_of_get hg))).symm

/-- `associateBy`: later elements replace earlier ones with their key. -/
def associateBy (key : ν → κ) (l : List ν) : List (κ × ν) := l.foldl (fun m x => put m (key x) x) []

theorem mem_associateBy {key : ν → κ} {l : List ν} {k : κ} {x : ν} (h : (k, x) ∈ associateBy key l) :
    k = key x ∧ x ∈ l := by
  have hfold : ∀ (l : List ν) (m : List (κ × ν)), (k, x) ∈ l.foldl (fun m x => put m (key x) x) m →
      (k, x) ∈ m ∨ (k = key x ∧ x ∈ l) := by
    intro l
    induction l with
    | nil => exact fun m h => Or.inl h
    | cons y l ih =>
      intro m h
      rcases ih _ h with h | ⟨hk, hx⟩
      · rcases mem_put h with h | h
        · exact Or.inl h
        · obtain ⟨rfl, rfl⟩ := Prod.mk.inj h
          exact Or.inr ⟨rfl, List.mem_cons_self⟩
      · exact Or.inr ⟨hk, List.mem_cons_of_mem y hx⟩
  rcases hfold l [] h with h | h
  · cases h
  · exact h

theorem get_associateBy {key : ν → κ} {l : List ν} {x : ν} (h : x ∈ l) :
    (get (associateBy key l) (key x)).isSome := by
  have hfold : ∀ (l : List ν) (m : List (κ × ν)), (get m (key x)).isSome ∨ x ∈ l →
      (get (l.foldl (fun m x => put m (key x) x) m) (key x)).isSome := by
    intro l
    induction l with
    | nil =>
      rintro m (h | h)
      · exact h
      · cases h
    | cons y l ih =>
      intro m h
      refine ih _ ?_
      rw [get_put]
      rcases h with h | h
      · left
        split
        · rfl
        · exact h
      · rcases List.mem_cons.1 h with rfl | h
        · left
          rw [if_pos rfl]
          rfl
        · exact Or.inr h
  exact hfold l [] (Or.inr h)

theorem nodup_associateBy (key : ν → κ) (l : List ν) : (keys (associateBy key l)).Nodup := by
  have hfold : ∀ (l : List ν) (m : List (κ × ν)), (keys m).Nodup →
      (keys (l.foldl (fun m x => put m (key x) x) m)).Nodup := by
    intro l
    induction l with
    | nil => exact fun m hm => hm
    | cons x l ih => exact fun m hm => ih _ (nodup_put hm _ _)
  exact hfold l [] List.nodup_nil

theorem get_foldl_put {key : ν → κ} {k : κ} (l : List ν) (m : List (κ × ν)) :
    get (l.foldl (fun m x => put m (key x) x) m) k = (l.reverse.find? (fun y => key y = k)).or (get m k) := by
  induction l generalizing m with
  | nil => rfl
  | cons y l ih =>
    rw [List.foldl_cons, ih, get_put, List.reverse_cons, List.find?_append, Option.or_assoc]
    by_cases hy : key y = k
    · simp [hy]
    · simp [hy]

/-- `associateBy` keeps the last element with a key. -/
theorem get_associateBy_eq {key : ν → κ} (l : List ν) (k : κ) :
    get (associateBy key l) k = (l.filter fun y => key y = k).getLast? := by
  unfold associateBy
  rw [get_foldl_put, get_nil, Option.or_none, List.getLast?_eq_head?_reverse, ← List.filter_reverse,
    List.head?_filter]

/-- What `associateBy` keeps for a key is the last element with it. -/
theorem get_associateBy_filter {key : ν → κ} {p : ν → Bool} {l : List ν} {k : κ} {x : ν} :
    get (associateBy key (l.filter p)) k = some x ↔
      (p x = true ∧ key x = k) ∧
        ∃ before after, l = before ++ x :: after ∧ ∀ y ∈ after, p y = true → key y ≠ k := by
  have hget : get (associateBy key (l.filter p)) k = l.reverse.find? (fun y => p y ∧ key y = k) := by
    unfold associateBy
    rw [get_foldl_put, get_nil, Option.or_none, ← List.filter_reverse, List.find?_filter]
    simp
  rw [hget, List.find?_eq_some_iff_append, decide_eq_true_eq]
  refine and_congr_right fun _ => ?_
  constructor
  · rintro ⟨as, bs, hl, has⟩
    refine ⟨bs.reverse, as.reverse, ?_, fun y hy => ?_⟩
    · rw [← List.reverse_reverse l, hl]
      simp
    · have := has y (List.mem_reverse.1 hy)
      rw [Bool.not_eq_true', decide_eq_false_iff_not, not_and] at this
      exact this
  · rintro ⟨before, after, rfl, hafter⟩
    refine ⟨after.reverse, before.reverse, by simp, fun y hy => ?_⟩
    rw [Bool.not_eq_true', decide_eq_false_iff_not, not_and]
    exact hafter y (List.mem_reverse.1 hy)

end Assoc

/-- A map that can fail, element by element. -/
theorem mapM_eq_some_iff {α β : Type} {f : α → Option β} {l : List α} {l' : List β} :
    l.mapM f = some l' ↔ List.Forall₂ (fun x y => f x = some y) l l' := by
  induction l generalizing l' with
  | nil =>
    rw [List.forall₂_nil_left_iff, List.mapM_nil]
    exact ⟨fun h => (Option.some.inj h).symm, fun h => by rw [h]; rfl⟩
  | cons x l ih =>
    simp only [List.mapM_cons, Option.bind_eq_bind, Option.bind_eq_some_iff, Option.pure_def,
      Option.some.injEq]
    rw [List.forall₂_cons_left_iff]
    constructor
    · rintro ⟨y, hy, ys, hys, rfl⟩
      exact ⟨y, ys, hy, ih.1 hys, rfl⟩
    · rintro ⟨y, ys, hy, hys, rfl⟩
      exact ⟨y, hy, ys, ih.2 hys, rfl⟩

theorem exists_of_forall₂ {α β : Type} {R : α → β → Prop} {as : List α} {bs : List β}
    (h : List.Forall₂ R as bs) : (∀ a ∈ as, ∃ b ∈ bs, R a b) ∧ ∀ b ∈ bs, ∃ a ∈ as, R a b := by
  induction h with
  | nil => simp
  | cons hab _ ih =>
    obtain ⟨ih1, ih2⟩ := ih
    constructor
    · intro a ha
      rcases List.mem_cons.1 ha with rfl | ha
      · exact ⟨_, List.mem_cons_self, hab⟩
      · obtain ⟨b, hb, hR⟩ := ih1 a ha
        exact ⟨b, List.mem_cons_of_mem _ hb, hR⟩
    · intro b hb
      rcases List.mem_cons.1 hb with rfl | hb
      · exact ⟨_, List.mem_cons_self, hab⟩
      · obtain ⟨a, ha, hR⟩ := ih2 b hb
        exact ⟨a, List.mem_cons_of_mem _ ha, hR⟩

theorem exists_forall₂ {α β : Type} {R : α → β → Prop} {as : List α} (h : ∀ a ∈ as, ∃ b, R a b) :
    ∃ bs, List.Forall₂ R as bs := by
  induction as with
  | nil => exact ⟨[], List.Forall₂.nil⟩
  | cons a as ih =>
    rw [List.forall_mem_cons] at h
    obtain ⟨b, hb⟩ := h.1
    obtain ⟨bs, hbs⟩ := ih h.2
    exact ⟨b :: bs, List.Forall₂.cons hb hbs⟩

/-- The place of an element in one list is that of its partner in the other. -/
theorem split_of_forall₂ {α β : Type} {R : α → β → Prop} {as before after : List α} {bs : List β} {x : α}
    (h : List.Forall₂ R as bs) (hs : as = before ++ x :: after) :
    ∃ before' y after', bs = before' ++ y :: after' ∧ R x y ∧ List.Forall₂ R after after' := by
  subst hs
  induction before generalizing bs with
  | nil =>
    obtain ⟨y, after', hxy, hafter, rfl⟩ := List.forall₂_cons_left_iff.1 h
    exact ⟨[], y, after', rfl, hxy, hafter⟩
  | cons a before ih =>
    obtain ⟨b, bs', -, hrest, rfl⟩ := List.forall₂_cons_left_iff.1 h
    obtain ⟨before', y, after', rfl, hxy, hafter⟩ := ih hrest
    exact ⟨b :: before', y, after', rfl, hxy, hafter⟩

/-- What is related to some of the list in order is some of the other list in order. -/
theorem sublist_of_forall₂ {α β : Type} {R : α → β → Prop} {as as' : List α} (hsub : as'.Sublist as) :
    ∀ {bs : List β}, List.Forall₂ R as bs → ∃ bs', bs'.Sublist bs ∧ List.Forall₂ R as' bs' := by
  induction hsub with
  | slnil =>
    intro bs h
    exact ⟨[], List.nil_sublist bs, .nil⟩
  | cons a _ ih =>
    intro bs h
    obtain ⟨b, tail, -, htail, rfl⟩ := List.forall₂_cons_left_iff.1 h
    obtain ⟨bs', hbs, hall⟩ := ih htail
    exact ⟨bs', hbs.cons b, hall⟩
  | cons_cons a _ ih =>
    intro bs h
    obtain ⟨b, tail, hab, htail, rfl⟩ := List.forall₂_cons_left_iff.1 h
    obtain ⟨bs', hbs, hall⟩ := ih htail
    exact ⟨b :: bs', hbs.cons_cons b, .cons hab hall⟩

theorem comp_of_forall₂ {α β γ : Type} {R : α → β → Prop} {S : β → γ → Prop} {as : List α} {bs : List β}
    (h : List.Forall₂ R as bs) :
    ∀ {cs : List γ}, List.Forall₂ S bs cs → List.Forall₂ (fun a c => ∃ b, S b c ∧ R a b) as cs := by
  induction h with
  | nil =>
    intro cs hcs
    rw [List.forall₂_nil_left_iff.1 hcs]
    exact .nil
  | cons hab _ ih =>
    intro cs hcs
    obtain ⟨c, tail, hbc, htail, rfl⟩ := List.forall₂_cons_left_iff.1 hcs
    exact .cons ⟨_, hbc, hab⟩ (ih htail)

/-- What a map that can fail returns comes from the list. -/
theorem mem_of_mapM {α β : Type} {f : α → Option β} {l : List α} {l' : List β} (h : l.mapM f = some l')
    {y : β} (hy : y ∈ l') : ∃ x ∈ l, f x = some y :=
  (exists_of_forall₂ (mapM_eq_some_iff.1 h)).2 y hy

/-- A map whose steps all succeed. -/
theorem mapM_eq_map {α β : Type} {f : α → Option β} {g : α → β} {l : List α} (h : ∀ x ∈ l, f x = some (g x)) :
    l.mapM f = some (l.map g) := by
  induction l with
  | nil => rfl
  | cons x l ih =>
    have htail := ih fun y hy => h y (List.mem_cons_of_mem _ hy)
    rw [List.mapM_cons, h x List.mem_cons_self, htail]
    rfl

/-- A relation with what is kept of a list holds only if everything is kept. -/
theorem forall₂_filterMap {α β : Type} {R : α → β → Prop} {g : α → Option β} {l : List α} :
    List.Forall₂ R l (l.filterMap g) ↔ ∀ x ∈ l, ∃ y, g x = some y ∧ R x y := by
  induction l with
  | nil => simp
  | cons x l ih =>
    rw [List.forall_mem_cons]
    cases hg : g x with
    | none =>
      constructor
      · intro h
        have hlen := h.length_eq
        have hle := List.length_filterMap_le g l
        rw [List.filterMap_cons_none hg, List.length_cons] at hlen
        omega
      · rintro ⟨⟨y, hy, -⟩, -⟩
        cases hy
    | some y =>
      rw [List.filterMap_cons_some hg, List.forall₂_cons, ih]
      simp

end BlackButton
