import BlackButton.Lib.Text

/-!
# Paths

The text of a path, as `java.io.File` joins and normalizes it, and the place that it
leads to. `.` stands for the directory itself and `..` for its parent.

* `segments_child`: a joined path leads through its parent, then through its child.
* `resolve_eq`: **where a path leads**, by the number of `..` and the names that are left
  when it is reduced on its own.
-/

namespace BlackButton

namespace Pathname

/-! ## Texts -/

/-- The text without repeated slashes. -/
def collapse : Str → Str
  | [] => []
  | c :: cs => if c = '/' ∧ cs.head? = some '/' then collapse cs else c :: collapse cs

/-- `UnixFileSystem.normalize`: no repeated slashes, and none at the end. -/
def normalize (s : Str) : Str :=
  if s.getLast? = some '/' ∧ 1 < s.length then (collapse s).dropLast else collapse s

/-- `File(parent, child).path`, for a parent that is not empty and not `/`. -/
def child (parent path : Str) : Str :=
  let path := normalize path
  if path = [] ∨ path = ['/'] then parent
  else if path.head? = some '/' then parent ++ path
  else parent ++ '/' :: path

/-- The parent directory. -/
def up : Str := ['.', '.']

/-- The texts between the slashes. -/
def segments (s : Str) : List Str := (s.splitOn '/').filter fun c => !c.isEmpty

/-- What a path leads through, one after the other. -/
def components (s : Str) : List Str := (segments s).filter fun c => c != ['.']

@[simp] theorem segments_nil : segments [] = [] := rfl

theorem segments_slash (a b : Str) : segments (a ++ '/' :: b) = segments a ++ segments b := by
  unfold segments
  rw [List.splitOn_append_cons_self, List.filter_append]

theorem segments_cons_slash (b : Str) : segments ('/' :: b) = segments b := segments_slash [] b

theorem segments_append_slash (a : Str) : segments (a ++ ['/']) = segments a := by
  rw [segments_slash, segments_nil, List.append_nil]

/-- A component that is the name of a file or a directory. -/
structure Name (c : Str) : Prop where
  ne_nil : c ≠ []
  ne_self : c ≠ ['.']
  ne_up : c ≠ up
  not_mem : '/' ∉ c

theorem segments_name {c : Str} (h : Name c) : segments c = [c] := by
  unfold segments
  rw [List.splitOn_eq_singleton h.not_mem]
  simp [h.ne_nil]

theorem components_of_names {s : Str} {cs : List Str} (h : segments s = cs) (hcs : ∀ c ∈ cs, Name c) :
    components s = cs := by
  unfold components
  rw [h, List.filter_eq_self]
  intro c hc
  exact bne_iff_ne.2 (hcs c hc).ne_self

theorem segments_collapse (a s : Str) : segments (a ++ collapse s) = segments (a ++ s) := by
  induction s generalizing a with
  | nil => rfl
  | cons c s ih =>
    rw [collapse]
    split
    · rename_i h
      obtain ⟨hc, hs⟩ := h
      cases s with
      | nil => cases hs
      | cons d s =>
        cases hs
        rw [ih, hc, segments_slash, segments_slash, segments_cons_slash]
    · have := ih (a ++ [c])
      rw [List.append_assoc, List.append_assoc] at this
      exact this

theorem getLast?_collapse (s : Str) : (collapse s).getLast? = s.getLast? := by
  induction s with
  | nil => rfl
  | cons c s ih =>
    rw [collapse]
    split
    · rename_i h
      cases s with
      | nil => cases h.2
      | cons d s => rw [ih, List.getLast?_cons_cons]
    · rw [List.getLast?_cons, List.getLast?_cons, ih]

theorem mem_collapse {c : Char} (hc : c ≠ '/') (s : Str) : c ∈ collapse s ↔ c ∈ s := by
  induction s with
  | nil => rfl
  | cons d s ih =>
    rw [collapse]
    split
    · rename_i h
      rw [ih, List.mem_cons, or_iff_right (by rw [h.1]; exact hc)]
    · rw [List.mem_cons, List.mem_cons, ih]

/-- A normalized text is the collapsed one, apart from a slash at its end. -/
theorem normalize_cases (s : Str) : collapse s = normalize s ∨ collapse s = normalize s ++ ['/'] := by
  unfold normalize
  split
  · rename_i h
    right
    rw [← getLast?_collapse] at h
    have hne : collapse s ≠ [] := by
      intro hnil
      rw [hnil] at h
      cases h.1
    have hlast : (collapse s).getLast hne = '/' := by
      rw [List.getLast?_eq_some_getLast hne] at h
      exact Option.some.inj h.1
    rw [← hlast]
    exact (List.dropLast_append_getLast hne).symm
  · exact Or.inl rfl

theorem segments_normalize (s : Str) : segments (normalize s) = segments s := by
  have hcollapse : segments (collapse s) = segments s := segments_collapse [] s
  rcases normalize_cases s with h | h
  · rw [← h, hcollapse]
  · rw [← hcollapse, h, segments_append_slash]

theorem mem_normalize {c : Char} (hc : c ≠ '/') (s : Str) : c ∈ normalize s ↔ c ∈ s := by
  rw [← mem_collapse hc s]
  rcases normalize_cases s with h | h
  · rw [h]
  · rw [h, List.mem_append, List.mem_singleton, or_iff_left hc]

/-- **A joined path** leads through its parent, then through its child. -/
theorem segments_child (parent path : Str) :
    segments (child parent path) = segments parent ++ segments path := by
  rw [← segments_normalize path]
  unfold child
  simp only
  split
  · rename_i h
    have hnil : segments (normalize path) = [] := by
      rcases h with h | h <;> rw [h] <;> rfl
    rw [hnil, List.append_nil]
  · split
    · rename_i hslash
      obtain ⟨cs, hpath⟩ := List.head?_eq_some_iff.1 hslash
      rw [hpath, segments_slash, segments_cons_slash]
    · exact segments_slash parent (normalize path)

theorem components_child (parent path : Str) :
    components (child parent path) = components parent ++ components path := by
  unfold components
  rw [segments_child, List.filter_append]

theorem mem_child {c : Char} (hc : c ≠ '/') (parent path : Str) :
    c ∈ child parent path ↔ c ∈ parent ∨ c ∈ path := by
  rw [← mem_normalize hc path]
  unfold child
  simp only
  split
  · rename_i h
    have hnot : c ∉ normalize path := by
      rcases h with h | h
      · rw [h]
        exact List.not_mem_nil
      · rw [h, List.mem_singleton]
        exact hc
    rw [or_iff_left hnot]
  · split
    · rw [List.mem_append]
    · rw [List.mem_append, List.mem_cons, or_iff_right hc]

/-- Every joined path with a component starts with the text of its parent. -/
theorem prefix_child {path : Str} (h : components path ≠ []) (parent : Str) :
    parent ++ ['/'] <+: child parent path := by
  have hsegments : segments (normalize path) ≠ [] := by
    rw [segments_normalize]
    intro hnil
    apply h
    unfold components
    rw [hnil]
    rfl
  unfold child
  simp only
  split
  · rename_i hempty
    exfalso
    apply hsegments
    rcases hempty with hempty | hempty <;> rw [hempty] <;> rfl
  · split
    · rename_i hslash
      obtain ⟨cs, hpath⟩ := List.head?_eq_some_iff.1 hslash
      rw [hpath]
      exact ⟨cs, by rw [List.append_assoc]; rfl⟩
    · exact ⟨normalize path, by rw [List.append_assoc]; rfl⟩

/-! ## Places -/

/-- One step from a directory. The parent of the root is the root. -/
def enter (dir : List Str) (c : Str) : List Str := if c = up then dir.dropLast else dir ++ [c]

/-- The place that components lead to from a directory. -/
def resolve (dir cs : List Str) : List Str := cs.foldl enter dir

/-- Components reduced on their own: the `..` at their start and the names after them. -/
def reduce (cs : List Str) : ℕ × List Str :=
  cs.foldl (fun r c =>
    if c = up then if r.2 = [] then (r.1 + 1, []) else (r.1, r.2.dropLast) else (r.1, r.2 ++ [c])) (0, [])

/-- The last components of a directory, which some `..` remove. -/
def removed (dir : List Str) (ups : ℕ) : List Str := dir.drop (dir.length - ups)

theorem resolve_append (dir cs ds : List Str) : resolve dir (cs ++ ds) = resolve (resolve dir cs) ds :=
  List.foldl_append

/-- Names lead into a directory. -/
theorem resolve_names {cs : List Str} (h : ∀ c ∈ cs, c ≠ up) (dir : List Str) : resolve dir cs = dir ++ cs := by
  induction cs generalizing dir with
  | nil => rw [List.append_nil]; rfl
  | cons c cs ih =>
    rw [List.forall_mem_cons] at h
    have henter : enter dir c = dir ++ [c] := if_neg h.1
    have hstep : resolve dir (c :: cs) = resolve (enter dir c) cs := rfl
    rw [hstep, henter, ih h.2, List.append_assoc, List.singleton_append]

/-- **Where a path leads**: the `..` that are left remove components of the directory, and the
names come after the others. -/
theorem resolve_eq (dir cs : List Str) :
    resolve dir cs = dir.take (dir.length - (reduce cs).1) ++ (reduce cs).2 := by
  induction cs using List.reverseRecOn with
  | nil => simp [resolve, reduce]
  | append_singleton cs c ih =>
    have hresolve : resolve dir (cs ++ [c]) = enter (resolve dir cs) c := by
      rw [resolve_append]
      rfl
    have hreduce : reduce (cs ++ [c]) =
        if c = up then
          if (reduce cs).2 = [] then ((reduce cs).1 + 1, []) else ((reduce cs).1, (reduce cs).2.dropLast)
        else ((reduce cs).1, (reduce cs).2 ++ [c]) := by
      unfold reduce
      rw [List.foldl_append]
      rfl
    rw [hresolve, hreduce, ih]
    unfold enter
    by_cases hc : c = up
    · rw [if_pos hc, if_pos hc]
      by_cases hnil : (reduce cs).2 = []
      · rw [if_pos hnil, hnil, List.append_nil, List.append_nil, List.dropLast_eq_take, List.take_take,
          List.length_take]
        congr 1
        omega
      · rw [if_neg hnil, List.dropLast_append_of_ne_nil hnil]
    · rw [if_neg hc, if_neg hc, List.append_assoc]

/-- How the place lies to the directory: on the way to it, or below it or at it. -/
theorem resolve_prefix_iff (dir cs : List Str) :
    (resolve dir cs <+: dir ↔ (reduce cs).2 <+: removed dir (reduce cs).1) ∧
      (dir <+: resolve dir cs ↔ removed dir (reduce cs).1 <+: (reduce cs).2) ∧
      (resolve dir cs = dir ↔ (reduce cs).2 = removed dir (reduce cs).1) := by
  rw [resolve_eq]
  generalize (reduce cs).1 = ups
  generalize (reduce cs).2 = names
  have hdir : dir = dir.take (dir.length - ups) ++ removed dir ups := (List.take_append_drop _ dir).symm
  generalize dir.take (dir.length - ups) = kept at hdir
  generalize removed dir ups = tail at hdir
  subst hdir
  exact ⟨List.prefix_append_right_inj kept, List.prefix_append_right_inj kept, List.append_right_inj kept⟩

end Pathname

end BlackButton
