import BlackButton.Plugin.Options

/-!
# Plugin configurations (`plugin/PluginConfiguration.kt`, `utils/Commandline.kt`)

The plugin string of a profile has one line for each plugin, the first of which is
selected. A line that starts with `kcptun ` is a command line of older versions.

`getOptions_selected`: the options of the selected plugin are there, under its id,
and can be written.
-/

namespace BlackButton

open Text

namespace Commandline

/-- The states of `translateCommandline`. -/
inductive State
  | normal
  | inQuote
  | inDoubleQuote
  deriving DecidableEq

/-- The variables of its loop. -/
structure Splitting where
  state : State
  result : List Str
  current : Str
  lastTokenHasBeenQuoted : Bool
  lastTokenIsSlash : Bool

/-- The delimiters of its tokenizer. -/
def isDelim (c : Char) : Bool := c = '\\' || c = '"' || c = '\'' || c = ' '

/-- A token outside quotes. -/
def stepNormal (s : Splitting) (tok : Str) : Splitting :=
  let s' :=
    if s.lastTokenIsSlash then { s with current := s.current ++ tok, lastTokenIsSlash := false }
    else if tok = ['\\'] then { s with lastTokenIsSlash := true }
    else if tok = ['\''] then { s with state := .inQuote }
    else if tok = ['"'] then { s with state := .inDoubleQuote }
    else if tok = [' '] then
      if s.lastTokenHasBeenQuoted ∨ s.current ≠ [] then
        { s with result := s.result ++ [s.current], current := [] }
      else s
    else { s with current := s.current ++ tok }
  { s' with lastTokenHasBeenQuoted := false }

/-- A token between single quotes. -/
def stepQuote (s : Splitting) (tok : Str) : Splitting :=
  if tok = ['\''] then { s with lastTokenHasBeenQuoted := true, state := .normal }
  else { s with current := s.current ++ tok }

/-- A token between double quotes. -/
def stepDoubleQuote (s : Splitting) (tok : Str) : Splitting :=
  if tok = ['"'] then
    if s.lastTokenIsSlash then { s with current := s.current ++ tok, lastTokenIsSlash := false }
    else { s with lastTokenHasBeenQuoted := true, state := .normal }
  else if tok = ['\\'] then
    if s.lastTokenIsSlash then { s with current := s.current ++ tok, lastTokenIsSlash := false }
    else { s with lastTokenIsSlash := true }
  else if s.lastTokenIsSlash then
    { s with current := s.current ++ ['\\'] ++ tok, lastTokenIsSlash := false }
  else { s with current := s.current ++ tok }

def step (s : Splitting) (tok : Str) : Splitting :=
  match s.state with
  | .normal => stepNormal s tok
  | .inQuote => stepQuote s tok
  | .inDoubleQuote => stepDoubleQuote s tok

/-- `translateCommandline`; `none` is `IllegalArgumentException`. -/
def translateCommandline (toProcess : Str) : Option (List Str) :=
  if toProcess = [] then some []
  else
    let s := (tokens isDelim toProcess).foldl step ⟨.normal, [], [], false, false⟩
    let result := if s.lastTokenHasBeenQuoted ∨ s.current ≠ [] then s.result ++ [s.current] else s.result
    if s.state ≠ .normal then none
    else if s.lastTokenIsSlash then none
    else some result

/-- The arguments so far have characters of one kind only. -/
def Splitting.Over (p : Char → Prop) (s : Splitting) : Prop :=
  (∀ a ∈ s.result, ∀ c ∈ a, p c) ∧ ∀ c ∈ s.current, p c

theorem Splitting.Over.step {p : Char → Prop} (hslash : p '\\') {s : Splitting} (h : s.Over p) {tok : Str}
    (htok : ∀ c ∈ tok, p c) : (step s tok).Over p := by
  have hcurrent : ∀ c ∈ s.current ++ tok, p c := List.forall_mem_append.2 ⟨h.2, htok⟩
  have hescaped : ∀ c ∈ s.current ++ ['\\'] ++ tok, p c := by
    refine List.forall_mem_append.2 ⟨List.forall_mem_append.2 ⟨h.2, ?_⟩, htok⟩
    simpa using hslash
  have hresult : ∀ a ∈ s.result ++ [s.current], ∀ c ∈ a, p c := by
    refine List.forall_mem_append.2 ⟨h.1, ?_⟩
    simpa using h.2
  unfold Commandline.step stepNormal stepQuote stepDoubleQuote
  cases s.state with
  | normal =>
    simp only
    split_ifs
    · exact ⟨h.1, hcurrent⟩
    · exact h
    · exact h
    · exact h
    · exact ⟨hresult, by simp⟩
    · exact h
    · exact ⟨h.1, hcurrent⟩
  | inQuote =>
    simp only
    split_ifs
    · exact h
    · exact ⟨h.1, hcurrent⟩
  | inDoubleQuote =>
    simp only
    split_ifs
    · exact ⟨h.1, hcurrent⟩
    · exact h
    · exact ⟨h.1, hcurrent⟩
    · exact h
    · exact ⟨h.1, hescaped⟩
    · exact ⟨h.1, hcurrent⟩

/-- The arguments have no other characters than the command line, and `\`. -/
theorem mem_translateCommandline {p : Char → Prop} (hslash : p '\\') {toProcess : Str}
    (h : ∀ c ∈ toProcess, p c) {args : List Str} (hargs : translateCommandline toProcess = some args) :
    ∀ a ∈ args, ∀ c ∈ a, p c := by
  have hfold : ∀ (ts : List Str) (s : Splitting), s.Over p → (∀ t ∈ ts, ∀ c ∈ t, p c) →
      (ts.foldl step s).Over p := by
    intro ts
    induction ts with
    | nil => exact fun s hs _ => hs
    | cons t ts ih =>
      intro s hs hts
      rw [List.forall_mem_cons] at hts
      exact ih _ (hs.step hslash hts.1) hts.2
  have hover := hfold (tokens isDelim toProcess) ⟨.normal, [], [], false, false⟩ (by simp [Splitting.Over])
    (fun t ht c hc => h c (mem_of_mem_tokens ht hc))
  by_cases hnil : toProcess = []
  · simp only [translateCommandline, hnil, if_true, Option.some.injEq] at hargs
    simp [← hargs]
  · simp only [translateCommandline, hnil, if_false] at hargs
    split at hargs
    · cases hargs
    · split at hargs
      · cases hargs
      · cases hargs
        split
        · refine List.forall_mem_append.2 ⟨hover.1, ?_⟩
          simpa using hover.2
        · exact hover.1

end Commandline

/-- `PluginConfiguration`. -/
structure PluginConfiguration where
  pluginsOptions : List (Str × PluginOptions)
  selected : Str

namespace PluginConfiguration

/-- The options of a `kcptun` command line; an exception ends the loop with what was put so far. -/
def kcptunOptions : List Str → PluginOptions → PluginOptions
  | [], o => o
  | option :: rest, o =>
    if option = "--nocomp".toList then kcptunOptions rest (o.put "nocomp".toList none)
    else if "--".toList.isPrefixOf option then
      match rest with
      | [] => o
      | value :: rest => kcptunOptions rest (o.put (option.drop 2) (some value))
    else o

/-- One line of the plugin string; `none` is the exception of `PluginOptions(line)`. -/
def readLine (line : Str) : Option PluginOptions :=
  if "kcptun ".toList.isPrefixOf line then
    let opt := PluginOptions.new.withId "kcptun".toList
    match Commandline.translateCommandline line with
    | none => some opt
    | some args => some (kcptunOptions (args.drop 1) opt)
  else PluginOptions.parse (some line)

/-- The private constructor. -/
def ofOptions (plugins : List PluginOptions) : PluginConfiguration where
  pluginsOptions := Assoc.associateBy PluginOptions.id (plugins.filter (fun o => o.id ≠ []))
  selected :=
    match plugins with
    | [] => []
    | o :: _ => o.id

/-- `PluginConfiguration(plugin)`. -/
def parse (plugin : Str) : Option PluginConfiguration :=
  ((plugin.splitOn '\n').mapM readLine).map ofOptions

/-- `getOptions(id)`; `defaultConfig` looks up the installed plugins. -/
def getOptions (defaultConfig : Str → Option Str) (c : PluginConfiguration) (id : Str) :
    Option PluginOptions :=
  if id = [] then some PluginOptions.new
  else
    match Assoc.get c.pluginsOptions id with
    | some o => some o
    | none => PluginOptions.parseWith id (defaultConfig id)

/-- The options in the order `toString` writes them: the selected ones first. -/
def printed (defaultConfig : Str → Option Str) (c : PluginConfiguration) : Option (List PluginOptions) :=
  let result := c.pluginsOptions.foldl
    (fun result e => if e.1 = c.selected then e.2 :: result else result ++ [e.2]) []
  if (Assoc.get c.pluginsOptions c.selected).isSome then some result
  else (getOptions defaultConfig c c.selected).map (· :: result)

/-- `toString`. -/
def toString (H : HashOrder) (defaultConfig : Str → Option Str) (c : PluginConfiguration) : Option Str :=
  (printed defaultConfig c).map fun result =>
    List.intercalate ['\n'] (result.map (PluginOptions.toString H false))

/-! ## The selected options -/

theorem over_kcptunOptions {p : Char → Prop} (hp : ∀ c ∈ "nocomp".toList, p c) (args : List Str)
    (o : PluginOptions) (hargs : ∀ a ∈ args, ∀ c ∈ a, p c) (h : PluginOptions.Over p o) :
    PluginOptions.Over p (kcptunOptions args o) := by
  induction args, o using kcptunOptions.induct with
  | case1 o => exact h
  | case2 o rest ih =>
    rw [List.forall_mem_cons] at hargs
    rw [kcptunOptions.eq_def]
    exact ih hargs.2 (h.put hp (by simp) (Or.inl (by decide)))
  | case3 o option hne hpre =>
    rw [kcptunOptions.eq_def]
    simp only [hne, hpre, if_true, if_false]
    exact h
  | case4 o option hne hpre value rest ih =>
    rw [List.forall_mem_cons, List.forall_mem_cons] at hargs
    rw [kcptunOptions.eq_def]
    simp only [hne, hpre, if_true, if_false]
    refine ih hargs.2.2 (h.put (fun c hc => hargs.1 c (List.mem_of_mem_drop hc)) ?_
      (Or.inr (Option.some_ne_none value)))
    rintro x ⟨⟩
    exact hargs.2.1
  | case5 o option rest hne hpre =>
    rw [kcptunOptions.eq_def]
    simp only [hne, hpre, if_false, Bool.false_eq_true]
    exact h

/-- What was read from a line can be written, and has no other characters than the line and the constants. -/
theorem over_readLine {p : Char → Prop} (hp : ∀ c ∈ "nocompkcptun\\;".toList, p c) {line : Str}
    {o : PluginOptions} (hline : ∀ c ∈ line, p c) (h : readLine line = some o) : PluginOptions.Over p o := by
  have hsub : ∀ t : Str, t ⊆ "nocompkcptun\\;".toList → ∀ c ∈ t, p c := fun t ht c hc => hp c (ht hc)
  unfold readLine at h
  split at h
  · have hnew : PluginOptions.Over p (PluginOptions.new.withId "kcptun".toList) :=
      (PluginOptions.over_new _).withId (hsub _ (by decide))
    simp only at h
    split at h
    · cases h
      exact hnew
    · rename_i args hargs
      cases h
      refine over_kcptunOptions (hsub _ (by decide)) _ _ (fun a ha => ?_) hnew
      exact Commandline.mem_translateCommandline (hp '\\' (by decide)) hline hargs a (List.mem_of_mem_drop ha)
  · refine PluginOptions.over_read ?_ (hp ';' (by decide)) h
    rintro x ⟨⟩ c hc -
    exact hline c hc

theorem isSome_selected {plugins : List PluginOptions} (h : (ofOptions plugins).selected ≠ []) :
    (Assoc.get (ofOptions plugins).pluginsOptions (ofOptions plugins).selected).isSome := by
  cases plugins with
  | nil => exact absurd rfl h
  | cons o plugins =>
    have hid : o.id ≠ [] := h
    exact Assoc.get_associateBy (List.mem_filter.2 ⟨List.mem_cons_self, by simpa using hid⟩)

/-- **The selected options are there**, under the selected id, whatever the defaults of the plugins. -/
theorem getOptions_selected {plugin : Str} {c : PluginConfiguration} (h : parse plugin = some c)
    (defaultConfig : Str → Option Str) :
    ∃ o, getOptions defaultConfig c c.selected = some o ∧ o.id = c.selected ∧
      PluginOptions.Over (fun _ => True) o := by
  unfold parse at h
  rw [Option.map_eq_some_iff] at h
  obtain ⟨plugins, hmap, rfl⟩ := h
  unfold getOptions
  by_cases hsel : (ofOptions plugins).selected = []
  · rw [if_pos hsel, hsel]
    exact ⟨_, rfl, rfl, PluginOptions.over_new _⟩
  · rw [if_neg hsel]
    obtain ⟨o, ho⟩ := Option.isSome_iff_exists.1 (isSome_selected hsel)
    rw [ho]
    obtain ⟨hk, hm⟩ := Assoc.mem_associateBy (Assoc.mem_of_get ho)
    refine ⟨o, rfl, hk.symm, ?_⟩
    obtain ⟨line, -, hline⟩ := mem_of_mapM hmap (List.mem_of_mem_filter hm)
    exact over_readLine (fun _ _ => trivial) (fun _ _ => trivial) hline

end PluginConfiguration

end BlackButton
