import BlackButton.Lib.Path

/-!
# Files of a plugin (`plugin/PluginManager.kt`, `initNativeSlow`)

The provider of a plugin lists paths and modes. Each path is joined to `pluginDir` as
text, the text is checked to start with the one of `pluginDir`, and the file is written
and chmodded.

* `openable_child`: which listed paths the system can open, by their components.
* `mem_initRows`: every file that is written was listed, after rows that passed.
* `contained_iff`: **when every file stays below `pluginDir`.**
-/

namespace BlackButton

open Pathname Text

namespace PluginManager

/-- `pluginDir`, by the names that lead to it from the root. None of them is a link. -/
structure Directory where
  names : List Str
  ne_nil : names ≠ []
  name : ∀ c ∈ names, Pathname.Name c
  valid : ∀ c ∈ names, '\x00' ∉ c

/-- Its absolute path. -/
def Directory.text (dir : Directory) : Str := dir.names.flatMap fun c => '/' :: c

/-- A place strictly below `pluginDir`. -/
def Directory.Below (dir : Directory) (place : List Str) : Prop := dir.names <+: place ∧ place ≠ dir.names

instance (dir : Directory) (place : List Str) : Decidable (dir.Below place) :=
  inferInstanceAs (Decidable (_ ∧ _))

/-- The place of an absolute path. -/
def place (file : Str) : List Str := resolve [] (components file)

/-- What a path must be for the system to open it for writing, if no directory is below `pluginDir`,
which is made anew and gets only files: its last segment is a name, and what it leads through are
directories, so that neither they nor `pluginDir` are at the file or below it. -/
def Openable (dir : Directory) (file : Str) : Prop :=
  '\x00' ∉ file ∧ (∀ c ∈ (segments file).getLast?, c ≠ ['.'] ∧ c ≠ up) ∧ ¬ place file <+: dir.names ∧
    ∀ n < (components file).length, ¬ place file <+: resolve [] ((components file).take n) ∧
      ¬ dir.Below (resolve [] ((components file).take n))

instance (dir : Directory) (file : Str) : Decidable (Openable dir file) :=
  inferInstanceAs (Decidable (_ ∧ _ ∧ _ ∧ _))

/-- What the system and the provider answer, for the row of each number. -/
structure System (dir : Directory) where
  mkdirs : Bool
  openInputStream : ℕ → Bool
  outputStream : ℕ → Str → Bool
  copyTo : ℕ → Bool
  chmod : ℕ → Bool
  openable : ∀ {n file}, outputStream n file = true → Openable dir file

/-- The mode in a row, by the type of its column. -/
inductive Column
  | integer (mode : ℤ)
  | string (mode : Str)
  | other

/-- A row of the cursor: `COLUMN_PATH` and `COLUMN_MODE`. -/
structure Row where
  path : Str
  mode : Column

inductive Fault
  | entryNotFound
  | noDirectory
  | check
  | openInputStream
  | outputStream
  | copyTo
  | numberFormat
  | modeType
  | chmod

/-- What is done to a file. -/
inductive Access
  | write (file : Str)
  | chmod (file : Str) (mode : ℤ)
  deriving DecidableEq

def Access.file : Access → Str
  | write file => file
  | chmod file _ => file

/-- The value of a string of octal digits, after the digits read so far. -/
def octalDigits : ℕ → Str → Option ℕ
  | n, [] => some n
  | n, c :: cs => ((digit c).filter (· < 8)).bind fun d => octalDigits (8 * n + d) cs

/-- `toInt(8)`; `none` is `NumberFormatException`. -/
def toInt8 (s : Str) : Option ℤ :=
  let signed : Bool × Str :=
    match s with
    | '-' :: cs => (true, cs)
    | '+' :: cs => (false, cs)
    | _ => (false, s)
  if signed.2 = [] then none
  else
    (octalDigits 0 signed.2).bind fun n =>
      let z : ℤ := if signed.1 then -n else n
      if -2147483648 ≤ z ∧ z ≤ 2147483647 then some z else none

/-- The mode that `Os.chmod` is called with. -/
def modeOf : Column → Except Fault ℤ
  | .integer mode => .ok mode
  | .string mode =>
    match toInt8 mode with
    | some mode => .ok mode
    | none => .error .numberFormat
  | .other => .error .modeType

variable {dir : Directory}

/-- The body of the loop: what is done to the file of a row. -/
def initRow (sys : System dir) (n : ℕ) (row : Row) : List Access × Except Fault Unit :=
  let file := child dir.text row.path
  if ¬ dir.text ++ ['/'] <+: file then ([], .error .check)
  else if ¬ sys.openInputStream n then ([], .error .openInputStream)
  else if ¬ sys.outputStream n file then ([], .error .outputStream)
  else if ¬ sys.copyTo n then ([.write file], .error .copyTo)
  else
    match modeOf row.mode with
    | .error fault => ([.write file], .error fault)
    | .ok mode =>
      if sys.chmod n then ([.write file, .chmod file mode], .ok ()) else ([.write file], .error .chmod)

/-- The loop from the `n`-th row on, and `initialized` after it. -/
def initRows (sys : System dir) (id : Str) (n : ℕ) (initialized : Bool) :
    List Row → List Access × Except Fault Bool
  | [] => ([], .ok initialized)
  | row :: rows =>
    match initRow sys n row with
    | (accesses, .error fault) => (accesses, .error fault)
    | (accesses, .ok ()) =>
      let (more, result) := initRows sys id (n + 1) (initialized || row.path = id) rows
      (accesses ++ more, result)

/-- `initNativeSlow`: what is done to files, and the path of the entry binary. -/
def initNativeSlow (sys : System dir) (id : Str) : Option (List Row) → List Access × Except Fault (Option Str)
  | none => ([], .ok none)
  | some [] => ([], .error .entryNotFound)
  | some (row :: rows) =>
    if ¬ sys.mkdirs then ([], .error .noDirectory)
    else
      match initRows sys id 0 false (row :: rows) with
      | (accesses, .error fault) => (accesses, .error fault)
      | (accesses, .ok initialized) =>
        if initialized then (accesses, .ok (some (child dir.text id))) else (accesses, .error .entryNotFound)

/-! ## Paths -/

theorem Directory.segments_text (dir : Directory) : segments dir.text = dir.names := by
  have hnames : ∀ names : List Str, (∀ c ∈ names, Pathname.Name c) →
      segments (names.flatMap fun c => '/' :: c) = names := by
    intro names
    induction names using List.reverseRecOn with
    | nil => intro _; rfl
    | append_singleton names c ih =>
      intro h
      rw [List.forall_mem_append] at h
      rw [List.flatMap_append, List.flatMap_singleton, segments_slash, ih h.1,
        segments_name (h.2 c List.mem_cons_self)]
  exact hnames dir.names dir.name

theorem Directory.components_text (dir : Directory) : components dir.text = dir.names :=
  components_of_names dir.segments_text dir.name

theorem Directory.not_mem_text (dir : Directory) : '\x00' ∉ dir.text := by
  unfold Directory.text
  rw [List.mem_flatMap]
  rintro ⟨c, hc, h⟩
  rcases List.mem_cons.1 h with h | h
  · cases h
  · exact dir.valid c hc h

/-- Names lead to themselves. -/
theorem Directory.resolve_take (dir : Directory) (n : ℕ) : resolve [] (dir.names.take n) = dir.names.take n := by
  rw [resolve_names (fun c hc => (dir.name c (List.mem_of_mem_take hc)).ne_up), List.nil_append]

theorem Directory.resolve_append (dir : Directory) (cs : List Str) :
    resolve [] (dir.names ++ cs) = resolve dir.names cs := by
  rw [Pathname.resolve_append, resolve_names (fun c hc => (dir.name c hc).ne_up), List.nil_append]

theorem place_child (dir : Directory) (path : Str) :
    place (child dir.text path) = resolve dir.names (components path) := by
  unfold place
  rw [components_child, dir.components_text, dir.resolve_append]

/-- Components that lead to `pluginDir` or below it: the names that are left after the `..` start
with the ones that these removed. -/
def Inside (dir : Directory) (cs : List Str) : Prop := removed dir.names (reduce cs).1 <+: (reduce cs).2

/-- Components that lead to `pluginDir` or a directory on the way to it. -/
def Above (dir : Directory) (cs : List Str) : Prop := (reduce cs).2 <+: removed dir.names (reduce cs).1

/-- A path from the provider that can be opened: it has no NUL and ends with a name, it does not lead to
`pluginDir` or a directory on the way to it, and what it leads through are directories, which are not
strictly below `pluginDir`, and neither at the file nor below it. -/
structure Opens (dir : Directory) (path : Str) : Prop where
  valid : '\x00' ∉ path
  name : ∀ c ∈ (segments path).getLast?, c ≠ ['.'] ∧ c ≠ up
  not_above : ¬ Above dir (components path)
  not_prefix : ∀ n < (components path).length,
    ¬ resolve dir.names (components path) <+: resolve dir.names ((components path).take n)
  above_of_inside : ∀ n < (components path).length,
    Inside dir ((components path).take n) → Above dir ((components path).take n)

/-- A path that can be opened and leads out of `pluginDir`. -/
structure Escapes (dir : Directory) (path : Str) : Prop where
  opens : Opens dir path
  not_inside : ¬ Inside dir (components path)

/-- A row whose file can be opened, and whose mode is a number. -/
structure Passes (dir : Directory) (row : Row) : Prop where
  opens : Opens dir row.path
  mode : ∃ mode, modeOf row.mode = .ok mode

theorem below_iff (dir : Directory) (cs : List Str) :
    dir.Below (resolve dir.names cs) ↔ Inside dir cs ∧ ¬ Above dir cs := by
  obtain ⟨habove, hinside, heq⟩ := resolve_prefix_iff dir.names cs
  unfold Directory.Below Inside Above
  rw [hinside, ne_eq, heq]
  constructor
  · rintro ⟨hpre, hne⟩
    exact ⟨hpre, fun h => hne (h.eq_of_length (le_antisymm h.length_le hpre.length_le))⟩
  · rintro ⟨hpre, hnot⟩
    exact ⟨hpre, fun h => hnot (h ▸ List.prefix_rfl)⟩

/-- A prefix of the directory is not below it. -/
theorem not_below_take (dir : Directory) (n : ℕ) : ¬ dir.Below (dir.names.take n) := by
  rintro ⟨hpre, hne⟩
  exact hne ((List.take_prefix n dir.names).eq_of_length (le_antisymm (List.take_prefix n dir.names).length_le
    hpre.length_le))

/-- What a joined path leads through: the way to `pluginDir`, then what the path leads through from there. -/
theorem forall_through_child {Q : List Str → Prop} (hdir : ∀ n, Q (dir.names.take n)) (path : Str) :
    (∀ n < (components (child dir.text path)).length, Q (resolve [] ((components (child dir.text path)).take n))) ↔
      ∀ n < (components path).length, Q (resolve dir.names ((components path).take n)) := by
  rw [components_child, dir.components_text, List.length_append]
  have hinner : ∀ n, resolve [] ((dir.names ++ components path).take (dir.names.length + n)) =
      resolve dir.names ((components path).take n) := by
    intro n
    rw [List.take_length_add_append, dir.resolve_append]
  constructor
  · intro h n hn
    rw [← hinner]
    exact h (dir.names.length + n) (by omega)
  · intro h n hn
    by_cases hle : n ≤ dir.names.length
    · rw [List.take_append_of_le_length hle, dir.resolve_take]
      exact hdir n
    · obtain ⟨k, rfl⟩ : ∃ k, n = dir.names.length + k := ⟨n - dir.names.length, by omega⟩
      rw [hinner]
      exact h k (by omega)

/-- **Which listed paths can be opened.** -/
theorem openable_child (dir : Directory) (path : Str) : Openable dir (child dir.text path) ↔ Opens dir path := by
  have hvalid : '\x00' ∉ child dir.text path ↔ '\x00' ∉ path := by
    rw [mem_child (by decide), not_or, and_iff_right dir.not_mem_text]
  have hname : (∀ c ∈ (segments (child dir.text path)).getLast?, c ≠ ['.'] ∧ c ≠ up) ↔
      ∀ c ∈ (segments path).getLast?, c ≠ ['.'] ∧ c ≠ up := by
    rw [segments_child, dir.segments_text, List.getLast?_append]
    cases hlast : (segments path).getLast? with
    | some c => rfl
    | none =>
      rw [Option.none_or]
      have hdir : ∀ c ∈ dir.names.getLast?, c ≠ ['.'] ∧ c ≠ up := by
        intro c hc
        have hc := dir.name c (List.mem_of_getLast? hc)
        exact ⟨hc.ne_self, hc.ne_up⟩
      exact iff_of_true hdir fun _ hc => by cases hc
  have habove : ¬ place (child dir.text path) <+: dir.names ↔ ¬ Above dir (components path) := by
    rw [place_child, (resolve_prefix_iff dir.names (components path)).1]
    rfl
  let through (p : List Str) : Prop := ¬ place (child dir.text path) <+: p ∧ ¬ dir.Below p
  have hthrough : ¬ place (child dir.text path) <+: dir.names → ∀ n, through (dir.names.take n) :=
    fun hplace n => ⟨fun hpre => hplace (hpre.trans (List.take_prefix n dir.names)), not_below_take dir n⟩
  unfold Openable
  rw [hvalid, hname]
  constructor
  · rintro ⟨hnul, hlast, hplace, hall⟩
    have hall := (forall_through_child (hthrough hplace) path).1 hall
    simp only [through, place_child, below_iff, not_and_not_right] at hall
    exact ⟨hnul, hlast, habove.1 hplace, fun n hn => (hall n hn).1, fun n hn => (hall n hn).2⟩
  · intro h
    have hplace := habove.2 h.not_above
    refine ⟨h.valid, h.name, hplace, (forall_through_child (hthrough hplace) path).2 ?_⟩
    simp only [through, place_child, below_iff, not_and_not_right]
    exact fun n hn => ⟨h.not_prefix n hn, h.above_of_inside n hn⟩

/-- The check compares texts, so that every path with a component passes it. -/
theorem Opens.check {path : Str} (h : Opens dir path) : dir.text ++ ['/'] <+: child dir.text path := by
  apply prefix_child
  intro hnil
  apply h.not_above
  rw [hnil]
  exact List.nil_prefix

/-! ## Rows -/

/-- What a row does: its file is opened first, and a row that passes is both written and chmodded. -/
theorem initRow_spec (sys : System dir) (n : ℕ) (row : Row) :
    (∀ access ∈ (initRow sys n row).1, access.file = child dir.text row.path ∧ Opens dir row.path) ∧
      ((initRow sys n row).2 = .ok () →
        Passes dir row ∧ .write (child dir.text row.path) ∈ (initRow sys n row).1) := by
  unfold initRow
  simp only
  split
  · exact ⟨fun _ h => absurd h List.not_mem_nil, fun h => by cases h⟩
  split
  · exact ⟨fun _ h => absurd h List.not_mem_nil, fun h => by cases h⟩
  split
  · exact ⟨fun _ h => absurd h List.not_mem_nil, fun h => by cases h⟩
  rename_i hopen
  have hopens : Opens dir row.path := (openable_child dir row.path).1 (sys.openable (by simpa using hopen))
  have hwrite : ∀ access ∈ [Access.write (child dir.text row.path)],
      access.file = child dir.text row.path ∧ Opens dir row.path := by
    intro access h
    rw [List.mem_singleton.1 h]
    exact ⟨rfl, hopens⟩
  split
  · exact ⟨hwrite, fun h => by cases h⟩
  split
  · exact ⟨hwrite, fun h => by cases h⟩
  rename_i mode hmode
  split
  · refine ⟨?_, fun _ => ⟨⟨hopens, mode, hmode⟩, List.mem_cons_self⟩⟩
    intro access h
    rcases List.mem_cons.1 h with rfl | h
    · exact ⟨rfl, hopens⟩
    · rw [List.mem_singleton.1 h]
      exact ⟨rfl, hopens⟩
  · exact ⟨hwrite, fun h => by cases h⟩

theorem initRows_error {sys : System dir} {n : ℕ} {row : Row} {fault : Fault}
    (h : (initRow sys n row).2 = .error fault) (id : Str) (initialized : Bool) (rows : List Row) :
    initRows sys id n initialized (row :: rows) = ((initRow sys n row).1, .error fault) := by
  rw [initRows]
  rcases hrow : initRow sys n row with ⟨accesses, result⟩
  rw [hrow] at h
  cases h
  rfl

theorem initRows_ok {sys : System dir} {n : ℕ} {row : Row} (h : (initRow sys n row).2 = .ok ()) (id : Str)
    (initialized : Bool) (rows : List Row) :
    initRows sys id n initialized (row :: rows) =
      ((initRow sys n row).1 ++ (initRows sys id (n + 1) (initialized || row.path = id) rows).1,
        (initRows sys id (n + 1) (initialized || row.path = id) rows).2) := by
  rw [initRows]
  rcases hrow : initRow sys n row with ⟨accesses, result⟩
  rw [hrow] at h
  cases h
  rfl

/-- **Every file that is touched was listed**, can be opened, and comes after rows that passed. -/
theorem mem_initRows (sys : System dir) (id : Str) (rows : List Row) (n : ℕ) (initialized : Bool) :
    ∀ access ∈ (initRows sys id n initialized rows).1, ∃ pre row post, rows = pre ++ row :: post ∧
      (∀ r ∈ pre, Passes dir r) ∧ Opens dir row.path ∧ access.file = child dir.text row.path := by
  induction rows generalizing n initialized with
  | nil => exact fun _ h => absurd h List.not_mem_nil
  | cons row rows ih =>
    obtain ⟨hfile, hpasses⟩ := initRow_spec sys n row
    have hhere : ∀ access ∈ (initRow sys n row).1, ∃ pre row' post, row :: rows = pre ++ row' :: post ∧
        (∀ r ∈ pre, Passes dir r) ∧ Opens dir row'.path ∧ access.file = child dir.text row'.path :=
      fun access h => ⟨[], row, rows, rfl, fun _ hr => absurd hr List.not_mem_nil, (hfile access h).2,
        (hfile access h).1⟩
    rcases hresult : (initRow sys n row).2 with fault | ⟨⟩
    · rw [initRows_error hresult]
      exact hhere
    · rw [initRows_ok hresult]
      intro access h
      rcases List.mem_append.1 h with h | h
      · exact hhere access h
      · obtain ⟨pre, row', post, rfl, hpre, hopens, heq⟩ := ih (n + 1) _ access h
        exact ⟨row :: pre, row', post, rfl, List.forall_mem_cons.2 ⟨(hpasses hresult).1, hpre⟩, hopens, heq⟩

/-- A loop that ends has written the file of every row. -/
theorem write_mem_initRows {sys : System dir} {id : Str} {rows : List Row} {n : ℕ} {initialized after : Bool}
    (h : (initRows sys id n initialized rows).2 = .ok after) :
    ∀ row ∈ rows, .write (child dir.text row.path) ∈ (initRows sys id n initialized rows).1 := by
  induction rows generalizing n initialized with
  | nil => exact fun _ h => absurd h List.not_mem_nil
  | cons row rows ih =>
    rcases hresult : (initRow sys n row).2 with fault | ⟨⟩
    · rw [initRows_error hresult] at h
      cases h
    · rw [initRows_ok hresult] at h ⊢
      intro row' hrow
      rcases List.mem_cons.1 hrow with rfl | hrow
      · exact List.mem_append_left _ ((initRow_spec sys n row').2 hresult).2
      · exact List.mem_append_right _ (ih h row' hrow)

/-- The system that answers as much as it can. -/
def System.permissive (dir : Directory) : System dir where
  mkdirs := true
  openInputStream _ := true
  outputStream _ file := Openable dir file
  copyTo _ := true
  chmod _ := true
  openable := fun h => of_decide_eq_true h

theorem initRow_permissive {row : Row} (h : Opens dir row.path) (n : ℕ) :
    .write (child dir.text row.path) ∈ (initRow (.permissive dir) n row).1 ∧
      (Passes dir row → (initRow (.permissive dir) n row).2 = .ok ()) := by
  have hopenable : Openable dir (child dir.text row.path) := (openable_child dir row.path).2 h
  unfold initRow
  simp only [System.permissive, h.check, hopenable, decide_true, not_true_eq_false, if_false, if_true]
  constructor
  · split <;> exact List.mem_cons_self
  · rintro ⟨-, mode, hmode⟩
    rw [hmode]

/-- The file of a row that can be opened is written, if the rows before it pass. -/
theorem write_mem_permissive {pre : List Row} {row : Row} (hpre : ∀ r ∈ pre, Passes dir r)
    (h : Opens dir row.path) (id : Str) (post : List Row) (n : ℕ) (initialized : Bool) :
    .write (child dir.text row.path) ∈
      (initRows (.permissive dir) id n initialized (pre ++ row :: post)).1 := by
  induction pre generalizing n initialized with
  | nil =>
    rw [List.nil_append]
    have hwrite := (initRow_permissive h n).1
    rcases hresult : (initRow (.permissive dir) n row).2 with fault | ⟨⟩
    · rw [initRows_error hresult]
      exact hwrite
    · rw [initRows_ok hresult]
      exact List.mem_append_left _ hwrite
  | cons r pre ih =>
    rw [List.forall_mem_cons] at hpre
    rw [List.cons_append, initRows_ok ((initRow_permissive hpre.1.opens n).2 hpre.1)]
    exact List.mem_append_right _ (ih hpre.2 (n + 1) _)

/-! ## The call -/

/-- Every file that is written or chmodded is strictly below `pluginDir`, and a listed path that is not
makes the call fail. -/
structure Contained (dir : Directory) (rows : List Row) (out : List Access × Except Fault (Option Str)) : Prop where
  below : ∀ access ∈ out.1, dir.Below (place access.file)
  fails : ∀ row ∈ rows, ¬ dir.Below (place (child dir.text row.path)) → ∃ fault, out.2 = .error fault

/-- The files are the ones of the loop, and a call that returns has ended the loop. -/
theorem initNativeSlow_spec (sys : System dir) (id : Str) (rows : List Row) :
    (initNativeSlow sys id (some rows)).1 ⊆ (initRows sys id 0 false rows).1 ∧
      ∀ result, (initNativeSlow sys id (some rows)).2 = .ok result →
        (initNativeSlow sys id (some rows)).1 = (initRows sys id 0 false rows).1 ∧
          (initRows sys id 0 false rows).2 = .ok true := by
  cases rows with
  | nil => exact ⟨List.nil_subset _, fun _ h => by cases h⟩
  | cons row rows =>
    rw [initNativeSlow]
    split
    · exact ⟨List.nil_subset _, fun _ h => by cases h⟩
    rcases hloop : initRows sys id 0 false (row :: rows) with ⟨accesses, fault | initialized⟩
    · exact ⟨List.Subset.refl _, fun _ h => by cases h⟩
    · cases initialized with
      | false => exact ⟨List.Subset.refl _, fun _ h => by cases h⟩
      | true => exact ⟨List.Subset.refl _, fun _ _ => ⟨rfl, rfl⟩⟩

theorem initNativeSlow_permissive (id : Str) (rows : List Row) :
    (initNativeSlow (.permissive dir) id (some rows)).1 = (initRows (.permissive dir) id 0 false rows).1 := by
  cases rows with
  | nil => rfl
  | cons row rows =>
    rw [initNativeSlow, if_neg (by simp [System.permissive])]
    rcases initRows (.permissive dir) id 0 false (row :: rows) with ⟨accesses, fault | initialized⟩
    · rfl
    · cases initialized <;> rfl

/-- **When the files of a plugin stay below `pluginDir`**: no path that leads out of it and can be opened
comes after rows that all pass. -/
theorem contained_iff (dir : Directory) (id : Str) (rows : List Row) :
    (∀ sys : System dir, Contained dir rows (initNativeSlow sys id (some rows))) ↔
      ∀ pre row post, rows = pre ++ row :: post → (∀ r ∈ pre, Passes dir r) → ¬ Escapes dir row.path := by
  constructor
  · rintro h pre row post rfl hpre hescapes
    have hwrite := write_mem_permissive hpre hescapes.opens id post 0 false
    rw [← initNativeSlow_permissive] at hwrite
    have hbelow := (h (.permissive dir)).below _ hwrite
    rw [Access.file, place_child, below_iff] at hbelow
    exact hescapes.not_inside hbelow.1
  · intro h sys
    obtain ⟨hsubset, hresult⟩ := initNativeSlow_spec sys id rows
    have hbelow : ∀ access ∈ (initNativeSlow sys id (some rows)).1, dir.Below (place access.file) := by
      intro access haccess
      obtain ⟨pre, row, post, hrows, hpre, hopens, hfile⟩ :=
        mem_initRows sys id rows 0 false access (hsubset haccess)
      have hinside : Inside dir (components row.path) := by
        by_contra hnot
        exact h pre row post hrows hpre ⟨hopens, hnot⟩
      rw [hfile, place_child, below_iff]
      exact ⟨hinside, hopens.not_above⟩
    refine ⟨hbelow, ?_⟩
    intro row hrow hnot
    rcases hout : (initNativeSlow sys id (some rows)).2 with fault | result
    · exact ⟨fault, rfl⟩
    · exfalso
      obtain ⟨haccesses, hloop⟩ := hresult result hout
      have hwrite := write_mem_initRows hloop row hrow
      rw [← haccesses] at hwrite
      exact hnot (hbelow _ hwrite)

/-- `plugin`, in a directory for files that are not backed up. -/
def noBackup : Directory where
  names := ["no_backup".toList, "plugin".toList]
  ne_nil := List.cons_ne_nil _ _
  name := by
    intro c hc
    simp only [List.mem_cons, List.not_mem_nil, or_false] at hc
    rcases hc with rfl | rfl
    · exact ⟨by decide, by decide, by decide, by decide⟩
    · exact ⟨by decide, by decide, by decide, by decide⟩
  valid := by decide

/-- A path with `..` passes the check and is written beside `pluginDir`. -/
theorem contained_up :
    ¬ Contained noBackup [⟨"../a".toList, .integer 0o644⟩]
        (initNativeSlow (.permissive noBackup) "../a".toList (some [⟨"../a".toList, .integer 0o644⟩])) ∧
      place (child noBackup.text "../a".toList) = ["no_backup".toList, "a".toList] := by
  have hwrite : .write (child noBackup.text "../a".toList) ∈
      (initNativeSlow (.permissive noBackup) "../a".toList (some [⟨"../a".toList, .integer 0o644⟩])).1 := by
    decide
  exact ⟨fun h => absurd (h.below _ hwrite) (by decide), by decide⟩

end PluginManager

end BlackButton
