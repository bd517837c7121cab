import BlackButton.Plugin.Configuration

/-!
# The quoting grammar of command lines (`utils/Commandline.kt`)

A command line is written as words with a space between each two of them; a word is a
sequence of segments, and a word without segments is the place between two adjacent
spaces. `translateCommandline` is compared with this grammar.

* `foldl_tokens`: reading the tokens is reading the characters.
* `exists_line`: **every string is a line**, or a line that a quote or a `\` at its end
  leaves open.
* `translateCommandline_spec`: the words of a line are its arguments, an open one is an
  exception.
* `translateCommandline_toString`: printed arguments are read back.
-/

namespace BlackButton

open Text

namespace Commandline

/-! ## The grammar -/

/-- What stands between double quotes. -/
inductive Quoted
  | plain (c : Char) (h : c ≠ '"' ∧ c ≠ '\\')
  | escaped (c : Char) (h : c = '"' ∨ c = '\\')
  | slash (c : Char) (h : c ≠ '"' ∧ c ≠ '\\')

def Quoted.text : Quoted → Str
  | plain c _ => [c]
  | escaped c _ => ['\\', c]
  | slash c _ => ['\\', c]

/-- Only `\"` and `\\` are escapes, any other backslash is literal. -/
def Quoted.value : Quoted → Str
  | plain c _ => [c]
  | escaped c _ => [c]
  | slash c _ => ['\\', c]

/-- A part of a word. -/
inductive Segment
  | plain (c : Char) (h : isDelim c = false)
  | escaped (c : Char)
  | single (t : Str) (h : '\'' ∉ t)
  | double (ts : List Quoted)

def Segment.text : Segment → Str
  | plain c _ => [c]
  | escaped c => ['\\', c]
  | single t _ => '\'' :: t ++ ['\'']
  | double ts => '"' :: ts.flatMap Quoted.text ++ ['"']

def Segment.value : Segment → Str
  | plain c _ => [c]
  | escaped c => [c]
  | single t _ => t
  | double ts => ts.flatMap Quoted.value

def Segment.isQuoted : Segment → Bool
  | plain _ _ => false
  | escaped _ => false
  | single _ _ => true
  | double _ => true

/-- The text of the words of a line, with the unquoted spaces between them. -/
def lineText (line : List (List Segment)) : Str :=
  List.intercalate [' '] (line.map fun w => w.flatMap Segment.text)

/-- The words that have segments, as they are meant. -/
def words (line : List (List Segment)) : List Str :=
  (line.filter fun w => !w.isEmpty).map fun w => w.flatMap Segment.value

/-- A quote that is not closed. -/
inductive OpenQuote
  | single (t : Str) (h : '\'' ∉ t)
  | double (ts : List Quoted) (lastTokenIsSlash : Bool)

def OpenQuote.text : OpenQuote → Str
  | single t _ => '\'' :: t
  | double ts false => '"' :: ts.flatMap Quoted.text
  | double ts true => '"' :: ts.flatMap Quoted.text ++ ['\\']

/-- How a command line ends. -/
inductive Ending
  | complete
  | openQuote (q : OpenQuote)
  | slash

def Ending.text : Ending → Str
  | complete => []
  | openQuote q => q.text
  | slash => ['\\']

theorem lineText_cons_cons (w v : List Segment) (line : List (List Segment)) :
    lineText (w :: v :: line) = w.flatMap Segment.text ++ ' ' :: lineText (v :: line) := by
  unfold lineText
  rw [List.map_cons, List.map_cons, List.intercalate_cons_cons, List.append_assoc]
  rfl

theorem lineText_singleton (w : List Segment) : lineText [w] = w.flatMap Segment.text := by
  simp [lineText]

/-- A segment before the first word. -/
theorem lineText_segment (x : Segment) (w : List Segment) (line : List (List Segment)) :
    lineText ((x :: w) :: line) = x.text ++ lineText (w :: line) := by
  cases line with
  | nil => rw [lineText_singleton, lineText_singleton, List.flatMap_cons]
  | cons v line => rw [lineText_cons_cons, lineText_cons_cons, List.flatMap_cons, List.append_assoc]

theorem lineText_concat {line : List (List Segment)} (h : line ≠ []) (w : List Segment) :
    lineText (line ++ [w]) = lineText line ++ ' ' :: w.flatMap Segment.text := by
  induction line with
  | nil => exact absurd rfl h
  | cons v line ih =>
    cases line with
    | nil => rw [List.singleton_append, lineText_cons_cons, lineText_singleton, lineText_singleton]
    | cons u line =>
      rw [List.cons_append, List.cons_append, lineText_cons_cons, lineText_cons_cons, ← List.cons_append,
        ih (by simp), List.append_assoc, List.cons_append]

theorem words_append (line line' : List (List Segment)) : words (line ++ line') = words line ++ words line' := by
  simp [words]

theorem Segment.value_ne_nil {x : Segment} (h : x.isQuoted = false) : x.value ≠ [] := by
  cases x with
  | plain c hc => simp [Segment.value]
  | escaped c => simp [Segment.value]
  | single t ht => cases h
  | double ts => cases h

theorem Quoted.value_ne_nil (q : Quoted) : q.value ≠ [] := by
  cases q <;> simp [Quoted.value]

/-- A segment means nothing exactly when it is `''` or `""`. -/
theorem Segment.value_eq_nil (x : Segment) :
    x.value = [] ↔ x.text = ['\'', '\''] ∨ x.text = ['"', '"'] := by
  cases x with
  | plain c hc => simp [Segment.value, Segment.text]
  | escaped c => simp [Segment.value, Segment.text]
  | single t ht =>
    cases t with
    | nil => simp [Segment.value, Segment.text]
    | cons c t => simp [Segment.value, Segment.text]
  | double ts =>
    cases ts with
    | nil => simp [Segment.value, Segment.text]
    | cons q ts =>
      have hq := Quoted.value_ne_nil q
      have htext : q.text ≠ [] := by cases q <;> simp [Quoted.text]
      have hlen := List.length_pos_of_ne_nil htext
      constructor
      · intro hnil
        exact absurd (List.append_eq_nil_iff.1 hnil).1 hq
      · intro h
        rcases h with h | h
        · have := congrArg List.head? h
          simp [Segment.text] at this
        · have := congrArg List.length h
          simp [Segment.text] at this
          omega

/-! ## Every string is a line, or a line that is left open -/

/-- A text after `"`: the quote is closed, or it is open at the end. -/
theorem exists_quoted (s : Str) :
    ∃ ts : List Quoted, (∃ rest, s = ts.flatMap Quoted.text ++ '"' :: rest) ∨
      s = ts.flatMap Quoted.text ∨ s = ts.flatMap Quoted.text ++ ['\\'] := by
  induction hn : s.length using Nat.strong_induction_on generalizing s with
  | _ n ih =>
    -- an item in front of what the rest of the text is made of
    have hcons : ∀ (q : Quoted) (cs : Str), cs.length < n → s = q.text ++ cs →
        ∃ ts : List Quoted, (∃ rest, s = ts.flatMap Quoted.text ++ '"' :: rest) ∨
          s = ts.flatMap Quoted.text ∨ s = ts.flatMap Quoted.text ++ ['\\'] := by
      intro q cs hlen hs
      obtain ⟨ts, hcs⟩ := ih _ hlen cs rfl
      refine ⟨q :: ts, ?_⟩
      rw [List.flatMap_cons]
      rcases hcs with ⟨rest, hcs⟩ | hcs | hcs
      · left
        exact ⟨rest, by rw [hs, hcs, List.append_assoc]⟩
      · right; left
        rw [hs, hcs]
      · right; right
        rw [hs, hcs, List.append_assoc]
    cases s with
    | nil => exact ⟨[], Or.inr (Or.inl rfl)⟩
    | cons c cs =>
      rw [List.length_cons] at hn
      by_cases hquote : c = '"'
      · exact ⟨[], Or.inl ⟨cs, by rw [hquote]; rfl⟩⟩
      · by_cases hslash : c = '\\'
        · cases cs with
          | nil => exact ⟨[], Or.inr (Or.inr (by rw [hslash]; rfl))⟩
          | cons d ds =>
            rw [List.length_cons] at hn
            by_cases hd : d = '"' ∨ d = '\\'
            · exact hcons (.escaped d hd) ds (by omega) (by rw [hslash]; rfl)
            · rw [not_or] at hd
              exact hcons (.slash d hd) ds (by omega) (by rw [hslash]; rfl)
        · exact hcons (.plain c ⟨hquote, hslash⟩) cs (by omega) rfl

/-- **Every string is a line**, complete or with a quote or a `\` that is left open. -/
theorem exists_line (s : Str) :
    ∃ (w : List Segment) (line : List (List Segment)) (ending : Ending),
      s = lineText (w :: line) ++ ending.text := by
  induction hn : s.length using Nat.strong_induction_on generalizing s with
  | _ n ih =>
    -- a segment in front of what the rest of the text is made of
    have hcons : ∀ (x : Segment) (cs : Str), cs.length < n → s = x.text ++ cs →
        ∃ (w : List Segment) (line : List (List Segment)) (ending : Ending),
          s = lineText (w :: line) ++ ending.text := by
      intro x cs hlen hs
      obtain ⟨w, line, ending, hcs⟩ := ih _ hlen cs rfl
      exact ⟨x :: w, line, ending, by rw [lineText_segment, hs, hcs, List.append_assoc]⟩
    cases s with
    | nil => exact ⟨[], [], .complete, rfl⟩
    | cons c cs =>
      rw [List.length_cons] at hn
      by_cases hdelim : isDelim c = false
      · exact hcons (.plain c hdelim) cs (by omega) rfl
      · have hc : c = '\\' ∨ c = '"' ∨ c = '\'' ∨ c = ' ' := by
          simp only [isDelim, Bool.not_eq_false, Bool.or_eq_true, decide_eq_true_eq, or_assoc] at hdelim
          exact hdelim
        rcases hc with rfl | rfl | rfl | rfl
        · cases cs with
          | nil => exact ⟨[], [], .slash, rfl⟩
          | cons d ds =>
            rw [List.length_cons] at hn
            exact hcons (.escaped d) ds (by omega) rfl
        · obtain ⟨ts, ⟨rest, hcs⟩ | hcs | hcs⟩ := exists_quoted cs
          · have hlen := congrArg List.length hcs
            rw [List.length_append, List.length_cons] at hlen
            exact hcons (.double ts) rest (by omega) (by rw [hcs]; simp [Segment.text])
          · exact ⟨[], [], .openQuote (.double ts false), by rw [hcs]; rfl⟩
          · exact ⟨[], [], .openQuote (.double ts true), by rw [hcs]; rfl⟩
        · have hsplit := splitOnce_eq '\'' cs
          have hmem := not_mem_splitOnce '\'' cs
          cases hrest : (splitOnce '\'' cs).2 with
          | none =>
            simp only [hrest] at hsplit
            exact ⟨[], [], .openQuote (.single _ hmem), congrArg ('\'' :: ·) hsplit⟩
          | some rest =>
            simp only [hrest] at hsplit
            have hlen := congrArg List.length hsplit
            rw [List.length_append, List.length_cons] at hlen
            have htext : '\'' :: cs = (Segment.single _ hmem).text ++ rest := by
              rw [Segment.text, List.append_assoc]
              exact congrArg ('\'' :: ·) hsplit
            exact hcons _ rest (by omega) htext
        · obtain ⟨w, line, ending, hcs⟩ := ih _ (by omega) cs rfl
          exact ⟨[], w :: line, ending, by rw [lineText_cons_cons, hcs]; rfl⟩

/-! ## Reading characters -/

/-- The loop over the characters. -/
def readChars (s : Splitting) (cs : Str) : Splitting := cs.foldl (fun s c => step s [c]) s

theorem readChars_append (s : Splitting) (a b : Str) :
    readChars s (a ++ b) = readChars (readChars s a) b := List.foldl_append

theorem readChars_cons (s : Splitting) (c : Char) (cs : Str) :
    readChars s (c :: cs) = readChars (step s [c]) cs := rfl

/-- A run without delimiters is appended, after a `\` that was no escape between double quotes. -/
theorem step_text {tok : Str} (h : tok.any isDelim = false) (s : Splitting) :
    step s tok = match s.state with
      | .normal =>
        { s with current := s.current ++ tok, lastTokenHasBeenQuoted := false, lastTokenIsSlash := false }
      | .inQuote => { s with current := s.current ++ tok }
      | .inDoubleQuote =>
        { s with
          current := s.current ++ (if s.lastTokenIsSlash then ['\\'] else []) ++ tok
          lastTokenIsSlash := false } := by
  have hne : ∀ c, isDelim c = true → tok ≠ [c] := by
    rintro c hc rfl
    simp [hc] at h
  have h1 := hne '\\' rfl
  have h2 := hne '"' rfl
  have h3 := hne '\'' rfl
  have h4 := hne ' ' rfl
  obtain ⟨state, result, current, quoted, slash⟩ := s
  unfold step stepNormal stepQuote stepDoubleQuote
  cases state with
  | normal => cases slash <;> simp [h1, h2, h3, h4]
  | inQuote => simp [h3]
  | inDoubleQuote => cases slash <;> simp [h1, h2]

theorem step_run {c : Char} (hc : isDelim c = false) {t : Str} (ht : t.any isDelim = false) (s : Splitting) :
    step s (c :: t) = step (step s [c]) t := by
  have hct : (c :: t).any isDelim = false := by rw [List.any_cons, hc, ht]; rfl
  rw [step_text hct, step_text ht, step_text (by simp [hc])]
  cases s.state <;> simp

/-- **Reading the tokens is reading the characters.** -/
theorem foldl_tokens (cs : Str) (s : Splitting) : (tokens isDelim cs).foldl step s = readChars s cs := by
  induction cs generalizing s with
  | nil => rfl
  | cons c cs ih =>
    rw [readChars_cons, ← ih]
    by_cases hc : isDelim c = true
    · rw [tokens_delim hc, List.foldl_cons]
    · have hc' : isDelim c = false := by simpa using hc
      rcases tokens_text hc' cs with hrun | ⟨t, ts, hcs, ht, hrun⟩
      · rw [hrun, List.foldl_cons]
      · rw [hrun, hcs, List.foldl_cons, List.foldl_cons, step_run hc' ht]

/-- The arguments so far, with the one that ends here. -/
def Splitting.closed (s : Splitting) : List Str :=
  if s.lastTokenHasBeenQuoted ∨ s.current ≠ [] then s.result ++ [s.current] else s.result

/-- Outside quotes and not after a `\`. -/
def start (result : List Str) : Splitting := ⟨.normal, result, [], false, false⟩

/-- `translateCommandline` on characters; the empty command is no special case. -/
theorem translateCommandline_eq (cs : Str) :
    translateCommandline cs =
      if (readChars (start []) cs).state ≠ .normal then none
      else if (readChars (start []) cs).lastTokenIsSlash then none
      else some (readChars (start []) cs).closed := by
  unfold translateCommandline
  split
  · rename_i hnil
    rw [hnil]
    rfl
  · simp only [foldl_tokens]
    rfl

/-! ## Reading a line -/

section Reading

variable (result : List Str) (current : Str) (quoted : Bool)

theorem readChars_single {t : Str} (h : '\'' ∉ t) :
    readChars ⟨.inQuote, result, current, quoted, false⟩ t =
      ⟨.inQuote, result, current ++ t, quoted, false⟩ := by
  induction t generalizing current with
  | nil => simp [readChars]
  | cons c t ih =>
    rw [List.mem_cons, not_or] at h
    have hstep : step ⟨.inQuote, result, current, quoted, false⟩ [c] =
        ⟨.inQuote, result, current ++ [c], quoted, false⟩ := by
      simp [step, stepQuote, Ne.symm h.1]
    rw [readChars_cons, hstep, ih _ h.2, List.append_assoc]
    rfl

/-- One lemma for the three kinds of items between double quotes. -/
theorem readChars_item (q : Quoted) :
    readChars ⟨.inDoubleQuote, result, current, quoted, false⟩ q.text =
      ⟨.inDoubleQuote, result, current ++ q.value, quoted, false⟩ := by
  cases q with
  | plain c h => simp [readChars, step, stepDoubleQuote, Quoted.text, Quoted.value, h.1, h.2]
  | escaped c h =>
    rcases h with rfl | rfl
    · simp [readChars, step, stepDoubleQuote, Quoted.text, Quoted.value]
    · simp [readChars, step, stepDoubleQuote, Quoted.text, Quoted.value]
  | slash c h => simp [readChars, step, stepDoubleQuote, Quoted.text, Quoted.value, h.1, h.2]

theorem readChars_double (ts : List Quoted) :
    readChars ⟨.inDoubleQuote, result, current, quoted, false⟩ (ts.flatMap Quoted.text) =
      ⟨.inDoubleQuote, result, current ++ ts.flatMap Quoted.value, quoted, false⟩ := by
  induction ts generalizing current with
  | nil => simp [readChars]
  | cons q ts ih =>
    rw [List.flatMap_cons, List.flatMap_cons, readChars_append, readChars_item, ih, List.append_assoc]

theorem step_quote :
    step ⟨.normal, result, current, quoted, false⟩ ['\''] = ⟨.inQuote, result, current, false, false⟩ := by
  simp [step, stepNormal]

theorem step_doubleQuote :
    step ⟨.normal, result, current, quoted, false⟩ ['"'] =
      ⟨.inDoubleQuote, result, current, false, false⟩ := by
  simp [step, stepNormal]

theorem step_slash :
    step ⟨.normal, result, current, quoted, false⟩ ['\\'] = ⟨.normal, result, current, false, true⟩ := by
  simp [step, stepNormal]

/-- **A segment adds its value** to the current argument. -/
theorem readChars_segment (x : Segment) :
    readChars ⟨.normal, result, current, quoted, false⟩ x.text =
      ⟨.normal, result, current ++ x.value, x.isQuoted, false⟩ := by
  cases x with
  | plain c h =>
    rw [Segment.text, readChars_cons, step_text (by simp [h])]
    rfl
  | escaped c =>
    rw [Segment.text, readChars_cons, step_slash]
    simp [readChars, step, stepNormal, Segment.value, Segment.isQuoted]
  | single t h =>
    rw [Segment.text, List.cons_append, readChars_cons, step_quote, readChars_append,
      readChars_single _ _ _ h]
    simp [readChars, step, stepQuote, Segment.value, Segment.isQuoted]
  | double ts =>
    rw [Segment.text, List.cons_append, readChars_cons, step_doubleQuote, readChars_append,
      readChars_double]
    simp [readChars, step, stepDoubleQuote, Segment.value, Segment.isQuoted]

/-- After the segments of a word there is an argument, empty or not, if there were any. -/
theorem readChars_word (w : List Segment) :
    ∃ quoted', readChars ⟨.normal, result, current, quoted, false⟩ (w.flatMap Segment.text) =
        ⟨.normal, result, current ++ w.flatMap Segment.value, quoted', false⟩ ∧
      ((quoted' = true ∨ current ++ w.flatMap Segment.value ≠ []) ↔
        quoted = true ∨ current ≠ [] ∨ w ≠ []) := by
  induction w generalizing current quoted with
  | nil => exact ⟨quoted, by simp [readChars], by simp⟩
  | cons x w ih =>
    obtain ⟨quoted', hread, hiff⟩ := ih (current ++ x.value) x.isQuoted
    rw [List.flatMap_cons, List.flatMap_cons, readChars_append, readChars_segment, ← List.append_assoc]
    refine ⟨quoted', hread, hiff.trans ?_⟩
    have hsome : x.isQuoted = true ∨ current ++ x.value ≠ [] := by
      cases hq : x.isQuoted with
      | true => exact Or.inl rfl
      | false =>
        right
        simp [Segment.value_ne_nil hq]
    constructor
    · intro _
      simp
    · intro _
      rcases hsome with h | h
      · exact Or.inl h
      · exact Or.inr (Or.inl h)

/-- An unquoted space ends the argument, if there is one. -/
theorem step_space :
    step ⟨.normal, result, current, quoted, false⟩ [' '] =
      start (Splitting.mk .normal result current quoted false).closed := by
  unfold step stepNormal Splitting.closed start
  cases quoted with
  | true => simp
  | false => cases current <;> simp

end Reading

/-- A word that ends here. -/
theorem readChars_start (result : List Str) (w : List Segment) :
    ∃ quoted, readChars (start result) (w.flatMap Segment.text) =
        ⟨.normal, result, w.flatMap Segment.value, quoted, false⟩ ∧
      ((quoted = true ∨ w.flatMap Segment.value ≠ []) ↔ w ≠ []) := by
  obtain ⟨quoted, hread, hiff⟩ := readChars_word result [] false w
  exact ⟨quoted, hread, by simpa using hiff⟩

theorem closed_word (result : List Str) (w : List Segment) {quoted : Bool}
    (h : (quoted = true ∨ w.flatMap Segment.value ≠ []) ↔ w ≠ []) :
    (Splitting.mk .normal result (w.flatMap Segment.value) quoted false).closed = result ++ words [w] := by
  unfold Splitting.closed
  simp only [h]
  cases w with
  | nil => simp [words]
  | cons x w => simp [words]

/-- **After a line, its words are the arguments.** -/
theorem readChars_line (result : List Str) (w : List Segment) (line : List (List Segment)) :
    ∃ result' current quoted, readChars (start result) (lineText (w :: line)) =
        ⟨.normal, result', current, quoted, false⟩ ∧
      (Splitting.mk .normal result' current quoted false).closed = result ++ words (w :: line) := by
  induction line generalizing result w with
  | nil =>
    obtain ⟨quoted, hread, hiff⟩ := readChars_start result w
    rw [lineText_singleton]
    exact ⟨_, _, quoted, hread, closed_word result w hiff⟩
  | cons v line ih =>
    obtain ⟨quoted, hread, hiff⟩ := readChars_start result w
    obtain ⟨result', current, quoted', hline, hclosed⟩ := ih (result ++ words [w]) v
    refine ⟨result', current, quoted', ?_, ?_⟩
    · rw [lineText_cons_cons, readChars_append, hread, readChars_cons, step_space, closed_word result w hiff,
        hline]
    · rw [hclosed, List.append_assoc, ← words_append]
      rfl

/-- The state after a line that is left open. -/
theorem readChars_openQuote (result : List Str) (current : Str) (quoted : Bool) (q : OpenQuote) :
    (readChars ⟨.normal, result, current, quoted, false⟩ q.text).state ≠ .normal := by
  cases q with
  | single t h =>
    rw [OpenQuote.text, readChars_cons, step_quote, readChars_single _ _ _ h]
    simp
  | double ts slash =>
    cases slash with
    | false =>
      rw [OpenQuote.text, readChars_cons, step_doubleQuote, readChars_double]
      simp
    | true =>
      rw [OpenQuote.text, List.cons_append, readChars_cons, step_doubleQuote, readChars_append,
        readChars_double]
      simp [readChars, step, stepDoubleQuote]

/-- **The arguments are the words of the line**, if it is complete. -/
theorem translateCommandline_line (w : List Segment) (line : List (List Segment)) (ending : Ending) :
    translateCommandline (lineText (w :: line) ++ ending.text) =
      match ending with
      | .complete => some (words (w :: line))
      | .openQuote _ => none
      | .slash => none := by
  obtain ⟨result, current, quoted, hread, hclosed⟩ := readChars_line [] w line
  rw [translateCommandline_eq, readChars_append, hread]
  cases ending with
  | complete =>
    rw [List.nil_append] at hclosed
    simp [Ending.text, readChars, hclosed]
  | openQuote q =>
    have hstate := readChars_openQuote result current quoted q
    rw [← Ending.text] at hstate
    rw [if_pos hstate]
  | slash =>
    have hslash : readChars ⟨.normal, result, current, quoted, false⟩ Ending.slash.text =
        ⟨.normal, result, current, false, true⟩ := step_slash result current quoted
    simp [hslash]

/-- **The splitting follows the grammar.** The result is `args` exactly if the string is a
line with the words `args`, where a word means nothing only if it is made of `''` and `""`;
and there is an exception exactly if a quote or a `\` at the end of a line is left open. -/
theorem translateCommandline_spec (cs : Str) :
    (∀ args, translateCommandline cs = some args ↔ ∃ line, lineText line = cs ∧ words line = args) ∧
    (translateCommandline cs = none ↔
      (∃ line, ∃ q : OpenQuote, lineText line ++ q.text = cs) ∨ ∃ line, lineText line ++ ['\\'] = cs) ∧
    ∀ w : List Segment, w.flatMap Segment.value = [] ↔
      ∀ x ∈ w, x.text = ['\'', '\''] ∨ x.text = ['"', '"'] := by
  -- the empty list of words has the same text as one word without segments
  have hline : ∀ (line : List (List Segment)) (ending : Ending), ∃ w line',
      lineText line ++ ending.text = lineText (w :: line') ++ ending.text ∧ words line = words (w :: line') := by
    intro line ending
    cases line with
    | nil => exact ⟨[], [], rfl, rfl⟩
    | cons w line => exact ⟨w, line, rfl, rfl⟩
  refine ⟨?_, ?_, ?_⟩
  · intro args
    constructor
    · intro h
      obtain ⟨w, line, ending, hcs⟩ := exists_line cs
      rw [hcs, translateCommandline_line] at h
      cases ending with
      | complete =>
        refine ⟨w :: line, ?_, Option.some.inj h⟩
        rw [hcs, Ending.text, List.append_nil]
      | openQuote q => cases h
      | slash => cases h
    · rintro ⟨line, htext, hwords⟩
      obtain ⟨w, line', hsame, hwords'⟩ := hline line .complete
      rw [Ending.text, List.append_nil, htext] at hsame
      rw [hsame, ← Ending.text, translateCommandline_line, ← hwords', hwords]
  · constructor
    · intro h
      obtain ⟨w, line, ending, hcs⟩ := exists_line cs
      rw [hcs, translateCommandline_line] at h
      cases ending with
      | complete => cases h
      | openQuote q => exact Or.inl ⟨w :: line, q, hcs.symm⟩
      | slash => exact Or.inr ⟨w :: line, hcs.symm⟩
    · rintro (⟨line, q, hcs⟩ | ⟨line, hcs⟩)
      · obtain ⟨w, line', hsame, -⟩ := hline line (.openQuote q)
        have hcs' : cs = lineText (w :: line') ++ (Ending.openQuote q).text := hcs.symm.trans hsame
        rw [hcs', translateCommandline_line]
      · obtain ⟨w, line', hsame, -⟩ := hline line .slash
        have hcs' : cs = lineText (w :: line') ++ Ending.slash.text := hcs.symm.trans hsame
        rw [hcs', translateCommandline_line]
  · intro w
    rw [List.flatMap_eq_nil_iff]
    exact forall₂_congr fun x _ => x.value_eq_nil

/-! ## Printed arguments -/

/-- The characters of an argument, as `toString` writes them. -/
def escape (arg : Str) : Str := arg.flatMap fun c => if isDelim c then ['\\', c] else [c]

/-- `toString(args)`. -/
def toString (args : Option (List Str)) : Str :=
  match args with
  | none => []
  | some args =>
    args.foldl (fun result arg => (if result = [] then result else result ++ [' ']) ++ escape arg) []

/-- A printed character. -/
def printedSegment (c : Char) : Segment := if h : isDelim c = false then .plain c h else .escaped c

theorem printedSegment_text (c : Char) : (printedSegment c).text = if isDelim c then ['\\', c] else [c] := by
  unfold printedSegment
  by_cases hc : isDelim c = false
  · rw [dif_pos hc, if_neg (by simp [hc])]
    rfl
  · rw [dif_neg hc, if_pos (by simpa using hc)]
    rfl

theorem printedSegment_value (c : Char) : (printedSegment c).value = [c] := by
  unfold printedSegment
  split <;> rfl

/-- A printed argument, as a word. -/
def printedWord (arg : Str) : List Segment := arg.map printedSegment

theorem printedWord_text (arg : Str) : (printedWord arg).flatMap Segment.text = escape arg := by
  simp only [printedWord, escape, List.flatMap_map, printedSegment_text]

theorem printedWord_value (arg : Str) : (printedWord arg).flatMap Segment.value = arg := by
  simp only [printedWord, List.flatMap_map, printedSegment_value, List.flatMap_singleton']

theorem words_printedWord (arg : Str) : words [printedWord arg] = [arg].filter (fun a => !a.isEmpty) := by
  cases arg with
  | nil => rfl
  | cons c arg =>
    have hvalue := printedWord_value (c :: arg)
    simp only [words, printedWord, List.map_cons, List.filter_cons, List.isEmpty_cons, Bool.not_false,
      if_true, List.filter_nil, List.map_nil] at hvalue ⊢
    rw [hvalue]

/-- The loop of `toString` after what was printed as a line: the other arguments are its next words. -/
theorem toString_loop (args : List Str) (w : List Segment) (line : List (List Segment)) :
    ∃ w' line', args.foldl
        (fun result arg => (if result = [] then result else result ++ [' ']) ++ escape arg)
        (lineText (w :: line)) = lineText (w' :: line') ∧
      words (w' :: line') = words (w :: line) ++ args.filter (fun a => !a.isEmpty) := by
  induction args generalizing w line with
  | nil => exact ⟨w, line, rfl, by simp⟩
  | cons arg args ih =>
    have hsplit : (arg :: args).filter (fun a => !a.isEmpty) =
        words [printedWord arg] ++ args.filter (fun a => !a.isEmpty) := by
      rw [words_printedWord, ← List.filter_append]
      rfl
    rw [List.foldl_cons, hsplit, ← List.append_assoc]
    by_cases hnil : lineText (w :: line) = []
    · -- nothing was printed, so there is no word yet
      have hwords : words (w :: line) = [] := by
        have h := translateCommandline_line w line .complete
        rw [hnil] at h
        exact (Option.some.inj h).symm
      have hnext : lineText [printedWord arg] = [] ++ escape arg := by
        rw [lineText_singleton, printedWord_text, List.nil_append]
      rw [hnil, if_pos rfl, ← hnext, hwords, List.nil_append]
      exact ih (printedWord arg) []
    · have hnext : lineText (w :: line ++ [printedWord arg]) = lineText (w :: line) ++ [' '] ++ escape arg := by
        rw [lineText_concat (by simp), printedWord_text, List.append_assoc, List.singleton_append]
      rw [if_neg hnil, ← hnext, ← words_append]
      exact ih w (line ++ [printedWord arg])

/-- **Printed arguments are read back**, without the empty ones. -/
theorem translateCommandline_toString (args : List Str) :
    translateCommandline (toString (some args)) = some (args.filter fun a => !a.isEmpty) ∧
      (translateCommandline (toString (some args)) = some args ↔ [] ∉ args) := by
  obtain ⟨w, line, hprint, hwords⟩ := toString_loop args [] []
  have hread : translateCommandline (toString (some args)) = some (args.filter fun a => !a.isEmpty) := by
    have hline := translateCommandline_line w line .complete
    rw [Ending.text, List.append_nil, ← hprint, hwords] at hline
    exact hline
  refine ⟨hread, ?_⟩
  rw [hread, Option.some.injEq, List.filter_eq_self]
  constructor
  · intro h hnil
    exact absurd (h [] hnil) (by decide)
  · intro h arg harg
    have hne : arg ≠ [] := by
      rintro rfl
      exact h harg
    simpa using hne

end Commandline

end BlackButton
