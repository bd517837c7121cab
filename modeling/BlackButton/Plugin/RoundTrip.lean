import BlackButton.Plugin.Configuration

/-!
# Plugin configurations are read back (`plugin/PluginConfiguration.kt`)

`toString` writes a line for each plugin. It is read back unless

* the line in force for `kcptun` is a command line whose options have control characters:
  the decoder of command lines lets them through, the one of options does not;
* the id of a plugin starts with `kcptun `, as it can with a `\` before one of its
  characters: its line is then taken for a command line.

`toString_roundtrip` says that these are the only exceptions, in terms of the lines that
were read.
-/

namespace BlackButton

open Text

namespace PluginOptions

theorem mem_escape_of_mem {s : Str} {c : Char} (h : c ∈ s) : c ∈ escape s := by
  refine List.mem_flatMap.2 ⟨c, h, ?_⟩
  split
  · exact List.mem_cons_of_mem _ (List.mem_singleton_self c)
  · exact List.mem_singleton_self c

/-- A text without delimiters that an escaped text starts with is not escaped. -/
theorem isPrefix_escape {p x rest : Str} (hp : ∀ c ∈ p, isDelim c = false) :
    p <+: escape x ++ ';' :: rest ↔ p <+: x := by
  induction x generalizing p with
  | nil =>
    cases p with
    | nil => simp
    | cons c p =>
      have hc := hp c List.mem_cons_self
      have hne : c ≠ ';' := by
        rintro rfl
        cases hc
      simp [escape, hne]
  | cons d x ih =>
    have hesc : escape (d :: x) = (if isDelim d then ['\\', d] else [d]) ++ escape x := by simp [escape]
    cases p with
    | nil => simp
    | cons c p =>
      have hc := hp c List.mem_cons_self
      have htail := ih (p := p) fun b hb => hp b (List.mem_cons_of_mem c hb)
      rw [hesc]
      by_cases hd : isDelim d = true
      · have hne : c ≠ '\\' := by
          rintro rfl
          cases hc
        have hne' : c ≠ d := by
          rintro rfl
          rw [hd] at hc
          cases hc
        simp [hd, List.cons_prefix_cons, hne, hne']
      · simp [hd, List.cons_prefix_cons, htail]

section Printed

variable (H : HashOrder) {o : PluginOptions}

/-- What the line of options starts with. -/
theorem isPrefix_toString {p : Str} (hp : ∀ c ∈ p, isDelim c = false) (hw : ∀ e ∈ o.entries, Writable e)
    (hid : o.id ≠ []) : p <+: toString H false o ↔ p <+: o.id := by
  have hsemi : p ≠ toString H false o ++ [';'] := by
    rintro rfl
    have := hp ';' (List.mem_append_right _ (List.mem_singleton_self _))
    cases this
  have hescape : p <+: escape o.id ++ ';' :: printEntries (H.order o.entries) ↔ p <+: o.id :=
    isPrefix_escape hp
  rw [← hescape, ← (toString_eq H hw).2 hid, List.prefix_concat_iff, or_iff_right hsemi]

/-- Every character of options is written. -/
theorem over_of_toString {q : Char → Prop} (hw : ∀ e ∈ o.entries, Writable e) (hid : o.id ≠ []) (hsemi : q ';')
    (h : ∀ c ∈ toString H false o, q c) : Over q o := by
  have htext : ∀ c ∈ escape o.id ++ ';' :: printEntries (H.order o.entries), q c := by
    rw [← (toString_eq H hw).2 hid]
    exact List.forall_mem_append.2 ⟨h, by simpa using hsemi⟩
  obtain ⟨hidText, hrest⟩ := List.forall_mem_append.1 htext
  have hentry : ∀ e ∈ o.entries, ∀ c ∈ printEntry e, q c := by
    intro e he c hc
    refine hrest c (List.mem_cons_of_mem _ (List.mem_flatMap.2 ⟨e, (H.perm _).mem_iff.2 he, ?_⟩))
    exact List.mem_append_left _ hc
  refine ⟨fun c hc => hidText c (mem_escape_of_mem hc), fun e he c hc => ?_, fun e he v hv c hc => ?_, hw⟩
  · exact hentry e he c (List.mem_append_left _ (mem_escape_of_mem hc))
  · refine hentry e he c ?_
    unfold printEntry
    rw [hv]
    exact List.mem_append_right _ (List.mem_cons_of_mem _ (mem_escape_of_mem hc))

end Printed

end PluginOptions

namespace PluginConfiguration

open PluginOptions (Over Printable)

/-- A line that is taken for a command line. -/
abbrev Legacy (line : Str) : Prop := "kcptun ".toList <+: line

theorem readLine_eq (line : Str) :
    readLine line = if Legacy line then
      some (match Commandline.translateCommandline line with
        | none => PluginOptions.new.withId "kcptun".toList
        | some args => kcptunOptions (args.drop 1) (PluginOptions.new.withId "kcptun".toList))
      else PluginOptions.parse (some line) := by
  unfold readLine
  simp only [List.isPrefixOf_iff_prefix]
  split
  · cases Commandline.translateCommandline line <;> rfl
  · rfl

theorem id_kcptunOptions (args : List Str) (o : PluginOptions) : (kcptunOptions args o).id = o.id := by
  induction args, o using kcptunOptions.induct with
  | case1 o => rfl
  | case2 o rest ih =>
    rw [kcptunOptions.eq_def]
    exact ih
  | case3 o option hne hpre =>
    rw [kcptunOptions.eq_def]
    simp only [hne, hpre, if_true, if_false]
  | case4 o option hne hpre value rest ih =>
    rw [kcptunOptions.eq_def]
    simp only [hne, hpre, if_true, if_false]
    exact ih
  | case5 o option rest hne hpre =>
    rw [kcptunOptions.eq_def]
    simp only [hne, hpre, if_false, Bool.false_eq_true]

theorem id_of_legacy {line : Str} {o : PluginOptions} (hl : Legacy line) (h : readLine line = some o) :
    o.id = "kcptun".toList := by
  rw [readLine_eq, if_pos hl] at h
  cases h
  cases Commandline.translateCommandline line with
  | none => rfl
  | some args => exact id_kcptunOptions _ _

/-! ## One line -/

/-- Options whose line is read back. -/
def Faithful (o : PluginOptions) : Prop := Printable o ∧ ¬ Legacy o.id

section Line

variable (H : HashOrder) {o : PluginOptions}

theorem legacy_toString (hw : ∀ e ∈ o.entries, PluginOptions.Writable e) (hid : o.id ≠ []) :
    Legacy (PluginOptions.toString H false o) ↔ Legacy o.id :=
  PluginOptions.isPrefix_toString H (forall_mem_of_all (by decide)) hw hid

theorem noControl_of_parse {s : Str} {o : PluginOptions} (h : PluginOptions.parse (some s) = some o) :
    ∀ c ∈ s, isISOControl c = false := by
  unfold PluginOptions.parse PluginOptions.read at h
  simp only at h
  by_cases hnil : s = []
  · simp [hnil]
  · rw [if_neg hnil] at h
    by_cases hall : s.all (fun c => !isISOControl c) = true
    · simpa using hall
    · simp [hall] at h

theorem readLine_toString (h : Faithful o) (hid : o.id ≠ []) :
    ∃ p, readLine (PluginOptions.toString H false o) = some p ∧ p.id = o.id ∧ p.entries.Perm o.entries := by
  have hlegacy : ¬ Legacy (PluginOptions.toString H false o) := by
    rw [legacy_toString H h.1.writable hid]
    exact h.2
  rw [readLine_eq, if_neg hlegacy]
  exact PluginOptions.parse_toString H h.1 hid

/-- What the line of any options is read as: the options, or a command line. -/
theorem id_of_readLine_toString (hw : ∀ e ∈ o.entries, PluginOptions.Writable e) (hid : o.id ≠ [])
    {p : PluginOptions} (h : readLine (PluginOptions.toString H false o) = some p) :
    (Legacy o.id ∧ p.id = "kcptun".toList) ∨ (Faithful o ∧ p.id = o.id) := by
  by_cases hl : Legacy o.id
  · exact Or.inl ⟨hl, id_of_legacy ((legacy_toString H hw hid).2 hl) h⟩
  · have hlegacy := mt (legacy_toString H hw hid).1 hl
    have hparse := h
    rw [readLine_eq, if_neg hlegacy] at hparse
    have hfaithful : Faithful o :=
      ⟨PluginOptions.over_of_toString H hw hid (by decide) (noControl_of_parse hparse), hl⟩
    obtain ⟨p', hp', hsame, -⟩ := readLine_toString H hfaithful hid
    rw [h] at hp'
    cases hp'
    exact Or.inr ⟨hfaithful, hsame⟩

end Line

theorem readLine_nil : readLine [] = some PluginOptions.new := by
  rw [readLine_eq, if_neg (by decide)]
  rfl

/-- Which lines are written so that they can be read. -/
theorem faithful_iff {line : Str} {o : PluginOptions} (h : readLine line = some o) :
    Faithful o ↔ if Legacy line then Printable o else ¬ Legacy o.id := by
  by_cases hl : Legacy line
  · have hid : ¬ Legacy o.id := by
      rw [id_of_legacy hl h]
      decide
    rw [if_pos hl]
    exact ⟨fun hf => hf.1, fun hp => ⟨hp, hid⟩⟩
  · rw [if_neg hl]
    rw [readLine_eq, if_neg hl] at h
    have hprint : Printable o := by
      refine PluginOptions.over_read ?_ (by decide) h
      rintro x ⟨⟩ c - hc
      exact hc
    exact ⟨fun hf => hf.2, fun hid => ⟨hprint, hid⟩⟩

/-! ## All lines -/

/-- What `toString` writes: the options of the map, each once, the selected ones first. -/
structure Prints (c : PluginConfiguration) (os : List PluginOptions) : Prop where
  nodup : (os.map PluginOptions.id).Nodup
  head : (os.map PluginOptions.id).head? = some c.selected
  get : ∀ id, id ≠ [] → ∀ o, Assoc.get c.pluginsOptions id = some o ↔ o ∈ os ∧ o.id = id
  new : ∀ o ∈ os, o.id = [] → o = PluginOptions.new

/-- `addFirst` and `addLast`. -/
theorem foldl_ordered (sel : Str) (m : List (Str × PluginOptions)) (result : List PluginOptions) :
    m.foldl (fun result e => if e.1 = sel then e.2 :: result else result ++ [e.2]) result =
      ((m.filter (fun e => e.1 = sel)).map Prod.snd).reverse ++ result ++
        (m.filter (fun e => e.1 ≠ sel)).map Prod.snd := by
  induction m generalizing result with
  | nil => simp
  | cons e m ih =>
    rw [List.foldl_cons, ih]
    by_cases h : e.1 = sel
    · simp [h]
    · simp [h]

theorem perm_ordered (sel : Str) (m : List (Str × PluginOptions)) :
    (m.foldl (fun result e => if e.1 = sel then e.2 :: result else result ++ [e.2]) []).Perm
      (m.map Prod.snd) := by
  have hsplit := (List.filter_append_perm (fun e : Str × PluginOptions => decide (e.1 = sel)) m).map Prod.snd
  rw [foldl_ordered, List.append_nil]
  refine (List.Perm.append_right _ (List.reverse_perm _)).trans ?_
  simpa using hsplit

theorem head_ordered {sel : Str} {m : List (Str × PluginOptions)} {o : PluginOptions}
    (hm : ∀ e ∈ m, e.1 = e.2.id) (h : (sel, o) ∈ m) :
    ((m.foldl (fun result e => if e.1 = sel then e.2 :: result else result ++ [e.2]) []).map
      PluginOptions.id).head? = some sel := by
  have hsel : ∀ p ∈ ((m.filter (fun e => e.1 = sel)).map Prod.snd).reverse, p.id = sel := by
    intro p hp
    obtain ⟨e, he, rfl⟩ := List.mem_map.1 (List.mem_reverse.1 hp)
    obtain ⟨hem, hes⟩ := List.mem_filter.1 he
    rw [← hm e hem]
    simpa using hes
  have hmem : o ∈ ((m.filter (fun e => e.1 = sel)).map Prod.snd).reverse := by
    refine List.mem_reverse.2 (List.mem_map.2 ⟨(sel, o), List.mem_filter.2 ⟨h, ?_⟩, rfl⟩)
    exact decide_eq_true rfl
  rw [foldl_ordered]
  cases hl : ((m.filter (fun e => e.1 = sel)).map Prod.snd).reverse with
  | nil =>
    rw [hl] at hmem
    cases hmem
  | cons p l =>
    rw [hl] at hsel
    rw [List.cons_append, List.cons_append, List.map_cons, List.head?_cons, hsel p List.mem_cons_self]

theorem entry_ofOptions {plugins : List PluginOptions} :
    ∀ e ∈ (ofOptions plugins).pluginsOptions, e.1 = e.2.id ∧ e.1 ≠ [] := by
  intro e he
  obtain ⟨hid, hfilter⟩ := Assoc.mem_associateBy (show (e.1, e.2) ∈ (ofOptions plugins).pluginsOptions from he)
  refine ⟨hid, ?_⟩
  rw [hid]
  simpa using (List.mem_filter.1 hfilter).2

/-- **Each plugin is written once**, the selected one first. -/
theorem printed_of_parse {s : Str} {c : PluginConfiguration} (h : parse s = some c)
    (defaultConfig : Str → Option Str) : ∃ os, printed defaultConfig c = some os ∧ Prints c os := by
  unfold parse at h
  obtain ⟨plugins, -, rfl⟩ := Option.map_eq_some_iff.1 h
  set c := ofOptions plugins
  have hkeys : (Assoc.keys c.pluginsOptions).Nodup := Assoc.nodup_associateBy _ _
  have hentry : ∀ e ∈ c.pluginsOptions, e.1 = e.2.id ∧ e.1 ≠ [] := entry_ofOptions
  have hperm := perm_ordered c.selected c.pluginsOptions
  set result := c.pluginsOptions.foldl
    (fun result e => if e.1 = c.selected then e.2 :: result else result ++ [e.2]) [] with hresult
  have hids : (result.map PluginOptions.id).Perm (Assoc.keys c.pluginsOptions) := by
    refine (hperm.map _).trans ?_
    rw [List.map_map]
    exact List.Perm.of_eq (List.map_congr_left fun e he => (hentry e he).1.symm)
  have hget : ∀ id o, Assoc.get c.pluginsOptions id = some o ↔ o ∈ result ∧ o.id = id := by
    intro id o
    rw [hperm.mem_iff, List.mem_map]
    constructor
    · intro hg
      have hmem := Assoc.mem_of_get hg
      exact ⟨⟨_, hmem, rfl⟩, (hentry _ hmem).1.symm⟩
    · rintro ⟨⟨e, he, rfl⟩, rfl⟩
      rw [← (hentry e he).1]
      exact Assoc.get_of_mem hkeys he
  have hne : ∀ o ∈ result, o.id ≠ [] := by
    intro o ho
    obtain ⟨e, he, rfl⟩ := List.mem_map.1 (hperm.mem_iff.1 ho)
    rw [← (hentry e he).1]
    exact (hentry e he).2
  by_cases hsel : c.selected = []
  · have hnone : Assoc.get c.pluginsOptions c.selected = none := by
      rw [Assoc.get_eq_none]
      intro hk
      obtain ⟨e, he, hk⟩ := List.mem_map.1 hk
      exact (hentry e he).2 (hk.trans hsel)
    refine ⟨PluginOptions.new :: result, ?_, ?_, ?_, fun id hid o => ?_, fun o ho hid => ?_⟩
    · simp only [printed, hnone, getOptions, if_pos hsel]
      rfl
    · rw [List.map_cons, List.nodup_cons, hids.nodup_iff]
      refine ⟨fun hk => ?_, hkeys⟩
      obtain ⟨o, ho, hk⟩ := List.mem_map.1 hk
      exact hne o ho hk
    · rw [hsel]
      rfl
    · rw [hget, List.mem_cons]
      refine and_congr_left fun hoid => ⟨Or.inr, fun ho => ho.resolve_left ?_⟩
      rintro rfl
      exact hid hoid.symm
    · rcases List.mem_cons.1 ho with rfl | ho
      · rfl
      · exact absurd hid (hne o ho)
  · have hsome : (Assoc.get c.pluginsOptions c.selected).isSome := isSome_selected hsel
    obtain ⟨o, ho⟩ := Option.isSome_iff_exists.1 hsome
    refine ⟨result, if_pos hsome, hids.nodup_iff.2 hkeys, ?_, fun id _ o => hget id o, fun o ho hid => ?_⟩
    · exact head_ordered (fun e he => (hentry e he).1) (Assoc.mem_of_get ho)
    · exact absurd hid (hne o ho)

/-! ## The round trip -/

/-- A line that is in force: the last one for its plugin. -/
def InForce (plugin line : Str) (o : PluginOptions) : Prop :=
  readLine line = some o ∧ o.id ≠ [] ∧ ∃ before after, plugin.splitOn '\n' = before ++ line :: after ∧
    ∀ l ∈ after, ∀ o', readLine l = some o' → o'.id ≠ o.id

theorem get_of_inForce {plugin line : Str} {c : PluginConfiguration} {o : PluginOptions}
    (h : parse plugin = some c) (hf : InForce plugin line o) : Assoc.get c.pluginsOptions o.id = some o := by
  obtain ⟨plugins, hmap, rfl⟩ := Option.map_eq_some_iff.1 h
  obtain ⟨hline, hid, before, after, hlines, hlast⟩ := hf
  obtain ⟨before', o', after', rfl, ho', hafter⟩ := split_of_forall₂ (mapM_eq_some_iff.1 hmap) hlines
  rw [hline] at ho'
  cases ho'
  refine Assoc.get_associateBy_filter.2 ⟨⟨by simpa using hid, rfl⟩, before', after', rfl, fun y hy _ => ?_⟩
  obtain ⟨l, hl, hly⟩ := (exists_of_forall₂ hafter).2 y hy
  exact hlast l hl y hly

theorem inForce_of_get {plugin id : Str} {c : PluginConfiguration} {o : PluginOptions}
    (h : parse plugin = some c) (hg : Assoc.get c.pluginsOptions id = some o) : ∃ line, InForce plugin line o := by
  obtain ⟨plugins, hmap, rfl⟩ := Option.map_eq_some_iff.1 h
  obtain ⟨⟨hid, rfl⟩, before', after', hsplit, hlast⟩ := Assoc.get_associateBy_filter.1 hg
  have hid' : o.id ≠ [] := by simpa using hid
  obtain ⟨before, line, after, hlines, hline, hafter⟩ := split_of_forall₂ (mapM_eq_some_iff.1 hmap).flip hsplit
  refine ⟨line, hline, hid', before, after, hlines, fun l hl o' ho' hsame => ?_⟩
  obtain ⟨y, hy, hly⟩ := (exists_of_forall₂ hafter).2 l hl
  have hyo : readLine l = some y := hly
  rw [ho'] at hyo
  cases hyo
  exact hlast o' hy (by simpa [hsame] using hid') hsame

/-- What is written can be read, and is the same configuration. -/
def RoundTrip (H : HashOrder) (defaultConfig : Str → Option Str) (c : PluginConfiguration) : Prop :=
  ∃ text c', toString H defaultConfig c = some text ∧ parse text = some c' ∧ c'.selected = c.selected ∧
    ∀ id, Option.Rel PluginOptions.Equals (Assoc.get c'.pluginsOptions id) (Assoc.get c.pluginsOptions id)

section RoundTrip

variable {s : Str} {c : PluginConfiguration} {os : List PluginOptions}

/-- Options of a line have no line break, and can be written. -/
theorem Prints.over (h : parse s = some c) (hos : Prints c os) : ∀ o ∈ os, Over (fun x => x ≠ '\n') o := by
  intro o ho
  by_cases hid : o.id = []
  · rw [hos.new o ho hid]
    exact PluginOptions.over_new _
  · obtain ⟨line, hline, -, before, after, hsplit, -⟩ := inForce_of_get h ((hos.get o.id hid o).2 ⟨ho, rfl⟩)
    have hmem : line ∈ s.splitOn '\n' := by
      rw [hsplit]
      exact List.mem_append_right _ List.mem_cons_self
    have hbreak := not_mem_of_mem_splitOn hmem
    have hconst : ∀ x ∈ "nocompkcptun\\;".toList, x ≠ '\n' := by
      rintro x hx rfl
      exact absurd hx (by decide)
    refine over_readLine hconst (fun x hx => ?_) hline
    rintro rfl
    exact hbreak hx

/-- The lines that are written are the lines that are read. -/
theorem parse_printed (H : HashOrder) (h : parse s = some c) (hos : Prints c os) {c' : PluginConfiguration} :
    parse (List.intercalate ['\n'] (os.map (PluginOptions.toString H false))) = some c' ↔
      ∃ ps, List.Forall₂ (fun o p => readLine (PluginOptions.toString H false o) = some p) os ps ∧
        ofOptions ps = c' := by
  have hne : os.map (PluginOptions.toString H false) ≠ [] := by
    intro hnil
    have hhead := hos.head
    rw [List.map_eq_nil_iff.1 hnil] at hhead
    cases hhead
  have hbreak : ∀ l ∈ os.map (PluginOptions.toString H false), '\n' ∉ l := by
    rw [List.forall_mem_map]
    intro o ho hmem
    have hdelim : ∀ x ∈ ['\\', '=', ';'], x ≠ '\n' := by
      rintro x hx rfl
      exact absurd hx (by decide)
    exact (hos.over h o ho).text hdelim H false '\n' hmem rfl
  unfold parse
  rw [List.splitOn_intercalate '\n' hbreak hne, Option.map_eq_some_iff]
  simp only [mapM_eq_some_iff, List.forall₂_map_left_iff]

theorem get_ofOptions {ps : List PluginOptions} (h : (ps.map PluginOptions.id).Nodup) {id : Str} (hid : id ≠ [])
    {p : PluginOptions} : Assoc.get (ofOptions ps).pluginsOptions id = some p ↔ p ∈ ps ∧ p.id = id := by
  constructor
  · intro hg
    obtain ⟨⟨-, hp⟩, before, after, rfl, -⟩ := Assoc.get_associateBy_filter.1 hg
    exact ⟨List.mem_append_right _ List.mem_cons_self, hp⟩
  · rintro ⟨hp, rfl⟩
    obtain ⟨before, after, rfl⟩ := List.append_of_mem hp
    refine Assoc.get_associateBy_filter.2 ⟨⟨by simpa using hid, rfl⟩, before, after, rfl, fun y hy _ => ?_⟩
    rw [List.map_append, List.map_cons, List.nodup_append, List.nodup_cons] at h
    intro hsame
    exact h.2.1.1 (hsame ▸ List.mem_map_of_mem hy)

theorem get_nil_ofOptions (ps : List PluginOptions) : Assoc.get (ofOptions ps).pluginsOptions [] = none := by
  rw [Assoc.get_eq_none]
  intro hk
  obtain ⟨e, he, hk⟩ := List.mem_map.1 hk
  exact (entry_ofOptions e he).2 hk

/-- Options that are all read back. -/
theorem roundTrip_of_faithful (H : HashOrder) (defaultConfig : Str → Option Str) (h : parse s = some c)
    (hfaithful : ∀ id o, Assoc.get c.pluginsOptions id = some o → Faithful o) : RoundTrip H defaultConfig c := by
  obtain ⟨os, hprinted, hos⟩ := printed_of_parse h defaultConfig
  have hline : ∀ o ∈ os, ∃ p, readLine (PluginOptions.toString H false o) = some p ∧ p.id = o.id ∧
      p.entries.Perm o.entries := by
    intro o ho
    by_cases hid : o.id = []
    · rw [hos.new o ho hid]
      exact ⟨PluginOptions.new, readLine_nil, rfl, List.Perm.refl _⟩
    · exact readLine_toString H (hfaithful o.id o ((hos.get o.id hid o).2 ⟨ho, rfl⟩)) hid
  obtain ⟨ps, hps⟩ := exists_forall₂ hline
  obtain ⟨hpartner, hpartner'⟩ := exists_of_forall₂ hps
  have hids : ps.map PluginOptions.id = os.map PluginOptions.id := by
    clear hprinted hos hline hpartner hpartner'
    induction hps with
    | nil => rfl
    | cons hp _ ih => rw [List.map_cons, List.map_cons, hp.2.1, ih]
  have hnodup : (ps.map PluginOptions.id).Nodup := hids ▸ hos.nodup
  refine ⟨_, ofOptions ps, congrArg (Option.map _) hprinted,
    (parse_printed H h hos).2 ⟨ps, hps.imp fun _ _ hp => hp.1, rfl⟩, ?_, fun id => ?_⟩
  · have hhead := hos.head
    rw [← hids] at hhead
    cases ps with
    | nil => cases hhead
    | cons p ps => exact Option.some.inj hhead
  · by_cases hid : id = []
    · obtain ⟨plugins, -, rfl⟩ := Option.map_eq_some_iff.1 h
      rw [hid, get_nil_ofOptions, get_nil_ofOptions]
      exact Option.Rel.none
    cases hg : Assoc.get c.pluginsOptions id with
    | some o =>
      obtain ⟨ho, rfl⟩ := (hos.get id hid o).1 hg
      obtain ⟨p, hp, -, hpid, hperm⟩ := hpartner o ho
      rw [(get_ofOptions hnodup hid).2 ⟨hp, hpid⟩]
      exact Option.Rel.some (PluginOptions.Equals.of_perm hpid hperm)
    | none =>
      cases hg' : Assoc.get (ofOptions ps).pluginsOptions id with
      | none => exact Option.Rel.none
      | some p =>
        obtain ⟨hp, rfl⟩ := (get_ofOptions hnodup hid).1 hg'
        obtain ⟨o, ho, -, hpid, -⟩ := hpartner' p hp
        rw [(hos.get _ hid o).2 ⟨ho, hpid.symm⟩] at hg
        cases hg

/-- Only such options are read back. -/
theorem faithful_of_roundTrip {H : HashOrder} {defaultConfig : Str → Option Str} (h : parse s = some c)
    (hrt : RoundTrip H defaultConfig c) : ∀ id o, Assoc.get c.pluginsOptions id = some o → Faithful o := by
  obtain ⟨os, hprinted, hos⟩ := printed_of_parse h defaultConfig
  obtain ⟨text, c', htext, hparse, -, hrel⟩ := hrt
  have : text = List.intercalate ['\n'] (os.map (PluginOptions.toString H false)) := by
    unfold toString at htext
    rw [hprinted, Option.map_some] at htext
    exact (Option.some.inj htext).symm
  subst this
  obtain ⟨ps, hps, rfl⟩ := (parse_printed H h hos).1 hparse
  obtain ⟨hpartner, hpartner'⟩ := exists_of_forall₂ hps
  -- a line that is taken for a command line leaves no options under its id
  have hlegacy : ∀ o ∈ os, ¬ Legacy o.id := by
    intro o ho hl
    have hid : o.id ≠ [] := by
      intro hid
      rw [hid] at hl
      exact absurd hl (by decide)
    have hget := hrel o.id
    rw [(hos.get o.id hid o).2 ⟨ho, rfl⟩] at hget
    cases hq : Assoc.get (ofOptions ps).pluginsOptions o.id with
    | none =>
      rw [hq] at hget
      cases hget
    | some q =>
      obtain ⟨⟨-, hqid⟩, before, after, rfl, -⟩ := Assoc.get_associateBy_filter.1 hq
      obtain ⟨o', ho', hread⟩ := hpartner' q (List.mem_append_right _ List.mem_cons_self)
      by_cases hid' : o'.id = []
      · rw [hos.new o' ho' hid'] at hread
        have hnew : some PluginOptions.new = some q := readLine_nil.symm.trans hread
        cases hnew
        exact hid hqid.symm
      · rcases id_of_readLine_toString H (hos.over h o' ho').writable hid' hread with ⟨-, hk⟩ | ⟨hf, hk⟩
        · rw [← hqid, hk] at hl
          exact absurd hl (by decide)
        · rw [← hqid, hk] at hl
          exact hf.2 hl
  intro id o hg
  have hid : id ≠ [] := by
    rintro rfl
    obtain ⟨plugins, -, rfl⟩ := Option.map_eq_some_iff.1 h
    rw [get_nil_ofOptions] at hg
    cases hg
  obtain ⟨ho, rfl⟩ := (hos.get id hid o).1 hg
  obtain ⟨p, -, hp⟩ := hpartner o ho
  rcases id_of_readLine_toString H (hos.over h o ho).writable hid hp with ⟨hl, -⟩ | ⟨hf, -⟩
  · exact absurd hl (hlegacy o ho)
  · exact hf

/-- **A configuration is read back if and only if** no line in force is a command line whose options have control
characters, or names a plugin whose id starts with `kcptun `. -/
theorem toString_roundtrip (H : HashOrder) (defaultConfig : Str → Option Str) (h : parse s = some c) :
    RoundTrip H defaultConfig c ↔
      ∀ line o, InForce s line o → if Legacy line then Printable o else ¬ Legacy o.id := by
  constructor
  · intro hrt line o hf
    rw [← faithful_iff hf.1]
    exact faithful_of_roundTrip h hrt _ _ (get_of_inForce h hf)
  · intro hall
    refine roundTrip_of_faithful H defaultConfig h fun id o hg => ?_
    obtain ⟨line, hf⟩ := inForce_of_get h hg
    exact (faithful_iff hf.1).2 (hall line o hf)

end RoundTrip

/-- A command line between two lines for a plugin. -/
def threeLines : List Str := ["obfs-local;obfs=tls".toList, "kcptun --key a".toList, "obfs-local;obfs=http".toList]

theorem toString_roundtrip_obfs :
    ∃ c, parse (List.intercalate ['\n'] threeLines) = some c ∧ RoundTrip .insertion (fun _ => none) c := by
  have hsome : (parse (List.intercalate ['\n'] threeLines)).isSome := by decide +kernel
  obtain ⟨c, hc⟩ := Option.isSome_iff_exists.1 hsome
  refine ⟨c, hc, (toString_roundtrip .insertion (fun _ => none) hc).2 ?_⟩
  rintro line o ⟨hline, -, before, after, hsplit, -⟩
  have hlines : (List.intercalate ['\n'] threeLines).splitOn '\n' = threeLines := by decide +kernel
  have hmem : line ∈ before ++ line :: after := List.mem_append_right _ List.mem_cons_self
  rw [← hsplit, hlines] at hmem
  have hplain : ∀ l ∈ ["obfs-local;obfs=tls".toList, "obfs-local;obfs=http".toList],
      (readLine l).map PluginOptions.id = some "obfs-local".toList ∧ ¬Legacy l := by decide +kernel
  have hcommand : (readLine "kcptun --key a".toList).map (fun o => (o.id, o.entries)) =
      some ("kcptun".toList, [("key".toList, some ['a'])]) := by decide +kernel
  simp only [threeLines, List.mem_cons, List.not_mem_nil, or_false] at hmem
  rcases hmem with rfl | rfl | rfl
  · obtain ⟨hid, hlegacy⟩ := hplain "obfs-local;obfs=tls".toList List.mem_cons_self
    rw [hline, Option.map_some, Option.some_inj] at hid
    rw [if_neg hlegacy, hid]
    decide
  · rw [hline, Option.map_some, Option.some_inj, Prod.mk.injEq] at hcommand
    obtain ⟨hid, hentries⟩ := hcommand
    rw [if_pos (by decide)]
    refine ⟨?_, ?_, ?_, ?_⟩
    · rw [hid]
      exact forall_mem_of_all (by decide)
    · rw [hentries]
      exact List.forall_mem_singleton.2 (forall_mem_of_all (by decide))
    · rw [hentries]
      refine List.forall_mem_singleton.2 ?_
      rintro v ⟨⟩
      exact forall_mem_of_all (by decide)
    · rw [hentries]
      exact List.forall_mem_singleton.2 (Or.inl (by decide))
  · obtain ⟨hid, hlegacy⟩ := hplain "obfs-local;obfs=http".toList (List.mem_cons_of_mem _ List.mem_cons_self)
    rw [hline, Option.map_some, Option.some_inj] at hid
    rw [if_neg hlegacy, hid]
    decide

/-- A tab in a command line, and an id that `toString` writes as one. -/
theorem toString_roundtrip_kcptun :
    (∃ c, parse "kcptun --key a\tb".toList = some c ∧ ¬ RoundTrip .insertion (fun _ => none) c) ∧
      ∃ c, parse "\\kcptun x".toList = some c ∧ ¬ RoundTrip .insertion (fun _ => none) c := by
  constructor
  · have hget : ((parse "kcptun --key a\tb".toList).bind fun c => Assoc.get c.pluginsOptions "kcptun".toList).map
        PluginOptions.entries = some [("key".toList, some "a\tb".toList)] := by decide +kernel
    obtain ⟨o, ho, hentries⟩ := Option.map_eq_some_iff.1 hget
    obtain ⟨c, hc, hg⟩ := Option.bind_eq_some_iff.1 ho
    refine ⟨c, hc, fun hrt => ?_⟩
    have hprint := (faithful_of_roundTrip hc hrt _ o hg).1
    have htab := hprint.value ("key".toList, some "a\tb".toList) (by rw [hentries]; exact List.mem_singleton_self _)
      "a\tb".toList rfl '\t' (by decide)
    exact absurd htab (by decide)
  · have hget : ((parse "\\kcptun x".toList).bind fun c => Assoc.get c.pluginsOptions "kcptun x".toList).map
        PluginOptions.id = some "kcptun x".toList := by decide +kernel
    obtain ⟨o, ho, hid⟩ := Option.map_eq_some_iff.1 hget
    obtain ⟨c, hc, hg⟩ := Option.bind_eq_some_iff.1 ho
    refine ⟨c, hc, fun hrt => ?_⟩
    have hlegacy := (faithful_of_roundTrip hc hrt _ o hg).2
    rw [hid] at hlegacy
    exact hlegacy (by decide)

end PluginConfiguration

end BlackButton
