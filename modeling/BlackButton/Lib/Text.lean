import Mathlib.Data.List.DropRight
import Mathlib.Data.List.Basic

/-!
# Text functions of the Java and Kotlin libraries

Strings are lists of characters (Unicode scalar values), and the functions
follow the documented behaviour of the library functions they are named after.

* `lines` (`BufferedReader.readLine`, `useLines`): a line ends at `\n`, `\r` or
  `\r\n`; `lines_unlines` reads back lines that were written with `\n`.
* `splitOnce` (`split(c, limit = 2)`), `splits` (every place to split at), `trim`
  (`CharSequence.trim`), `tokens` (`StringTokenizer` that returns its delimiters).
* `toInt` (`Integer.parseInt`) and `decimal` (`Int.toString` of a non-negative
  number); `toInt_decimal` reads back what was printed.
-/

namespace BlackButton

/-- A string, as its characters. -/
abbrev Str := List Char

namespace Text

/-! ## Lines -/

/-- The characters that end a line. -/
def isBreak (c : Char) : Bool := c = '\n' || c = '\r'

/-- The lines of a text, as `BufferedReader.readLine` returns them. -/
def lines : Str → List Str
  | [] => []
  | '\r' :: '\n' :: cs => [] :: lines cs
  | c :: cs =>
    if isBreak c then [] :: lines cs
    else
      match lines cs with
      | [] => [[c]]
      | l :: ls => (c :: l) :: ls

/-- Each line followed by `\n`. -/
def unlines (ls : List Str) : Str := ls.flatMap (· ++ ['\n'])

theorem lines_newline (cs : Str) : lines ('\n' :: cs) = [] :: lines cs := by
  rw [lines]
  · rfl
  · intro cs' h; cases h

theorem lines_cons {c : Char} (hc : isBreak c = false) (cs : Str) :
    lines (c :: cs) = match lines cs with
      | [] => [[c]]
      | l :: ls => (c :: l) :: ls := by
  rw [lines]
  · simp [hc]
  · rintro cs' ⟨⟩; simp [isBreak] at hc

/-- A line without breaks, written with `\n`, is read back. -/
theorem lines_append {l : Str} (hl : ∀ c ∈ l, isBreak c = false) (rest : Str) :
    lines (l ++ '\n' :: rest) = l :: lines rest := by
  induction l with
  | nil => exact lines_newline rest
  | cons c l ih =>
    rw [List.cons_append, lines_cons (hl c List.mem_cons_self), ih (fun d hd => hl d (List.mem_cons_of_mem _ hd))]

/-- **Lines without breaks are read back as they were written.** -/
theorem lines_unlines {ls : List Str} (h : ∀ l ∈ ls, ∀ c ∈ l, isBreak c = false) :
    lines (unlines ls) = ls := by
  induction ls with
  | nil => rfl
  | cons l ls ih =>
    have : unlines (l :: ls) = l ++ '\n' :: unlines ls := by simp [unlines]
    rw [this, lines_append (h l List.mem_cons_self), ih (fun m hm => h m (List.mem_cons_of_mem _ hm))]

/-- No line has a break in it. -/
theorem not_break_of_mem_lines {s l : Str} (hl : l ∈ lines s) : ∀ c ∈ l, isBreak c = false := by
  induction s using lines.induct generalizing l with
  | case1 => simp [lines] at hl
  | case2 cs ih =>
    rw [lines, List.mem_cons] at hl
    rcases hl with rfl | hl
    · intro c hc; cases hc
    · exact ih hl
  | case3 c cs hne hb ih =>
    rw [lines, if_pos hb, List.mem_cons] at hl
    · rcases hl with rfl | hl
      · intro d hd; cases hd
      · exact ih hl
    · exact hne
  | case4 c cs hne hb hcs ih =>
    have hb' : isBreak c = false := by simpa using hb
    rw [lines_cons hb', hcs] at hl
    simp only [List.mem_singleton] at hl
    subst hl
    intro d hd
    rw [List.mem_singleton] at hd
    subst hd; exact hb'
  | case5 c cs hne hb m ms hcs ih =>
    have hb' : isBreak c = false := by simpa using hb
    rw [lines_cons hb', hcs] at hl
    simp only [List.mem_cons] at hl
    rcases hl with rfl | hl
    · intro d hd
      rcases List.mem_cons.1 hd with rfl | hd
      · exact hb'
      · exact ih (by rw [hcs]; exact List.mem_cons_self) d hd
    · exact ih (by rw [hcs]; exact List.mem_cons_of_mem _ hl)

/-- `joinToString("\n")` and a final `\n` write every line with its `\n`. -/
theorem intercalate_newline {ls : List Str} (h : ls ≠ []) :
    List.intercalate ['\n'] ls ++ ['\n'] = unlines ls := by
  induction ls with
  | nil => exact absurd rfl h
  | cons l ls ih =>
    cases ls with
    | nil => simp [unlines]
    | cons m ms =>
      rw [List.intercalate_cons_cons, List.append_assoc, ih (by simp)]
      simp [unlines]

theorem not_mem_of_mem_splitOn {c : Char} {s l : Str} (h : l ∈ s.splitOn c) : c ∉ l := by
  induction s generalizing l with
  | nil =>
    rw [List.splitOn_nil, List.mem_singleton] at h
    simp [h]
  | cons d s ih =>
    rw [List.splitOn_cons_eq_if_modifyHead] at h
    split at h
    · rcases List.mem_cons.1 h with rfl | h
      · simp
      · exact ih h
    · rename_i hd
      obtain ⟨first, rest, hs⟩ := List.exists_cons_of_ne_nil (List.splitOn_ne_nil c s)
      rw [hs, List.modifyHead_cons] at h
      rcases List.mem_cons.1 h with rfl | h
      · rw [List.mem_cons, not_or]
        refine ⟨fun hc => hd (by simp [hc]), ih ?_⟩
        rw [hs]
        exact List.mem_cons_self
      · exact ih (by rw [hs]; exact List.mem_cons_of_mem _ h)

theorem unlines_append (ls ms : List Str) : unlines (ls ++ ms) = unlines ls ++ unlines ms := by
  simp [unlines]

/-! ## Splitting and trimming -/

/-- `split(c, limit = 2)`: what stands before the first `c`, and what stands after it. -/
def splitOnce (c : Char) : Str → Str × Option Str
  | [] => ([], none)
  | d :: cs =>
    if d = c then ([], some cs)
    else (d :: (splitOnce c cs).1, (splitOnce c cs).2)

theorem splitOnce_of_not_mem {c : Char} {s : Str} (h : c ∉ s) : splitOnce c s = (s, none) := by
  induction s with
  | nil => rfl
  | cons d s ih =>
    rw [List.mem_cons, not_or] at h
    rw [splitOnce, if_neg (Ne.symm h.1), ih h.2]

theorem splitOnce_append {c : Char} {a : Str} (h : c ∉ a) (b : Str) :
    splitOnce c (a ++ c :: b) = (a, some b) := by
  induction a with
  | nil => simp [splitOnce]
  | cons d a ih =>
    rw [List.mem_cons, not_or] at h
    rw [List.cons_append, splitOnce, if_neg (Ne.symm h.1), ih h.2]

theorem not_mem_splitOnce (c : Char) (s : Str) : c ∉ (splitOnce c s).1 := by
  induction s with
  | nil => simp [splitOnce]
  | cons d s ih =>
    rw [splitOnce]
    split
    · simp
    · rename_i hd
      rw [List.mem_cons, not_or]
      exact ⟨Ne.symm hd, ih⟩

/-- The two parts of a split make up the string. -/
theorem splitOnce_eq (c : Char) (s : Str) :
    s = match (splitOnce c s).2 with
      | none => (splitOnce c s).1
      | some b => (splitOnce c s).1 ++ c :: b := by
  induction s with
  | nil => rfl
  | cons d s ih =>
    by_cases hd : d = c
    · simp [splitOnce, hd]
    · cases h : (splitOnce c s).2 with
      | none => simp only [splitOnce, hd, if_false, h] at ih ⊢; rw [← ih]
      | some b => simp only [splitOnce, hd, if_false, h] at ih ⊢; rw [List.cons_append, ← ih]

theorem splitOnce_elim (c : Char) (s : Str) :
    (splitOnce c s).1 ++ (splitOnce c s).2.elim [] (c :: ·) = s := by
  have heq := splitOnce_eq c s
  cases h : (splitOnce c s).2 with
  | none =>
    rw [h] at heq
    rw [Option.elim_none, List.append_nil]
    exact heq.symm
  | some b =>
    rw [h] at heq
    exact heq.symm

theorem mem_of_mem_splitOnce {c d : Char} {s : Str} (h : d ∈ (splitOnce c s).1) : d ∈ s := by
  rw [splitOnce_eq c s]
  cases (splitOnce c s).2 with
  | none => exact h
  | some b => exact List.mem_append_left _ h

/-- The splits of a string at each `c`, from left to right. -/
def splits (c : Char) : Str → List (Str × Str)
  | [] => []
  | d :: cs =>
    let later := (splits c cs).map fun g => (d :: g.1, g.2)
    if d = c then ([], cs) :: later else later

theorem splits_of_not_mem {c : Char} {s : Str} (h : c ∉ s) : splits c s = [] := by
  induction s with
  | nil => rfl
  | cons d s ih =>
    rw [List.mem_cons, not_or] at h
    rw [splits, if_neg (Ne.symm h.1), ih h.2]
    rfl

theorem splits_append {c : Char} {a : Str} (h : c ∉ a) (b : Str) :
    splits c (a ++ c :: b) = (a, b) :: (splits c b).map fun g => (a ++ c :: g.1, g.2) := by
  induction a with
  | nil => simp [splits]
  | cons d a ih =>
    rw [List.mem_cons, not_or] at h
    rw [List.cons_append, splits, if_neg (Ne.symm h.1), ih h.2]
    simp

theorem eq_of_mem_splits {c : Char} {s : Str} {g : Str × Str} (h : g ∈ splits c s) : s = g.1 ++ c :: g.2 := by
  induction s generalizing g with
  | nil => cases h
  | cons d s ih =>
    have hlater : g ∈ (splits c s).map (fun g => (d :: g.1, g.2)) → d :: s = g.1 ++ c :: g.2 := by
      intro h
      obtain ⟨g', hg', rfl⟩ := List.mem_map.1 h
      rw [List.cons_append, ← ih hg']
    rw [splits] at h
    by_cases hd : d = c
    · rw [if_pos hd, List.mem_cons] at h
      rcases h with rfl | h
      · rw [hd, List.nil_append]
      · exact hlater h
    · rw [if_neg hd] at h
      exact hlater h

/-- The last place at which a text is split. -/
theorem splits_concat {c : Char} {b : Str} (h : c ∉ b) (a : Str) :
    ∃ gs, splits c (a ++ c :: b) = gs ++ [(a, b)] ∧ ∀ g ∈ gs, c ∈ g.2 := by
  induction a with
  | nil => exact ⟨[], by simp [splits, splits_of_not_mem h], fun _ hg => absurd hg List.not_mem_nil⟩
  | cons d a ih =>
    obtain ⟨gs, hgs, hmem⟩ := ih
    have hlater : ∀ g ∈ gs.map (fun g => (d :: g.1, g.2)), c ∈ g.2 := by
      intro g hg
      obtain ⟨g', hg', rfl⟩ := List.mem_map.1 hg
      exact hmem g' hg'
    rw [List.cons_append, splits, hgs, List.map_append]
    by_cases hd : d = c
    · refine ⟨([], a ++ c :: b) :: gs.map fun g => (d :: g.1, g.2), by simp [hd], ?_⟩
      exact List.forall_mem_cons.2 ⟨List.mem_append_right a List.mem_cons_self, hlater⟩
    · exact ⟨gs.map fun g => (d :: g.1, g.2), by simp [hd], hlater⟩

/-- The last delimiter of a text is at one place. -/
theorem append_cons_inj {c : Char} {a b a' b' : Str} (hb : c ∉ b) (hb' : c ∉ b')
    (h : a ++ c :: b = a' ++ c :: b') : a = a' ∧ b = b' := by
  obtain ⟨gs, hgs, -⟩ := splits_concat hb a
  obtain ⟨gs', hgs', -⟩ := splits_concat hb' a'
  rw [h, hgs'] at hgs
  have hlast := (List.append_inj' hgs rfl).2
  cases hlast
  exact ⟨rfl, rfl⟩

/-- A check of all characters, which can be computed. -/
theorem forall_mem_of_all {s : Str} {p : Char → Bool} {b : Bool} (h : s.all (fun c => p c == b) = true) :
    ∀ c ∈ s, p c = b := by
  intro c hc
  have := List.all_eq_true.1 h c hc
  simpa using this

/-- A character of another kind is not in a text. -/
theorem not_mem_of_forall {s : Str} {p : Char → Bool} (h : ∀ c ∈ s, p c = true) {d : Char} (hd : p d = false) :
    d ∉ s := by
  intro hmem
  rw [h d hmem] at hd
  cases hd

/-- A run ends where its characters end. -/
theorem takeWhile_stop {p : Char → Bool} {b rest : Str} (hb : ∀ c ∈ b, p c = true)
    (hr : ∀ c, rest.head? = some c → p c = false) : (b ++ rest).takeWhile p = b := by
  rw [List.takeWhile_append_of_pos hb]
  cases rest with
  | nil => simp
  | cons c rest =>
    have hc := hr c rfl
    rw [List.takeWhile_cons_of_neg (by simp [hc]), List.append_nil]

/-- `Char.isWhitespace` of Kotlin on the JVM: `Character.isWhitespace` or `Character.isSpaceChar`. -/
def isWhitespace (c : Char) : Bool :=
  let n := c.toNat
  (9 ≤ n && n ≤ 13) || (28 ≤ n && n ≤ 32) || n = 0xA0 || n = 0x1680 || (0x2000 ≤ n && n ≤ 0x200A) ||
    n = 0x2028 || n = 0x2029 || n = 0x202F || n = 0x205F || n = 0x3000

/-- `CharSequence.trim`. -/
def trim (s : Str) : Str := (s.dropWhile isWhitespace).rdropWhile isWhitespace

theorem isWhitespace_of_isBreak {c : Char} (h : isBreak c = true) : isWhitespace c = true := by
  simp only [isBreak, Bool.or_eq_true, decide_eq_true_eq] at h
  rcases h with rfl | rfl <;> rfl

theorem isWhitespace_of_isDigit {c : Char} (h : c.isDigit = true) : isWhitespace c = false := by
  simp only [Char.isDigit, Bool.and_eq_true, decide_eq_true_eq, UInt32.le_iff_toNat_le] at h
  have h1 : 48 ≤ c.toNat := h.1
  have h2 : c.toNat ≤ 57 := h.2
  simp only [isWhitespace, Bool.or_eq_false_iff, Bool.and_eq_false_iff, decide_eq_false_iff_not]
  omega

/-- A string that neither starts nor ends with a blank is its own trim. -/
theorem trim_eq_self {s : Str} (hh : ∀ c, s.head? = some c → isWhitespace c = false)
    (hl : ∀ c, s.getLast? = some c → isWhitespace c = false) : trim s = s := by
  have h1 : s.dropWhile isWhitespace = s := by
    cases s with
    | nil => rfl
    | cons c s => simp [List.dropWhile, hh c rfl]
  unfold trim
  rw [h1, List.rdropWhile_eq_self_iff]
  intro hne
  have := hl _ (List.getLast?_eq_some_getLast hne)
  simp [this]

theorem mem_of_mem_trim {c : Char} {s : Str} (h : c ∈ trim s) : c ∈ s :=
  (List.dropWhile_sublist _).subset ((List.rdropWhile_prefix _ _).subset h)

/-- Trimming twice is trimming once. -/
theorem trim_trim (s : Str) : trim (trim s) = trim s := by
  have hpre : trim s <+: s.dropWhile isWhitespace := List.rdropWhile_prefix _ _
  apply trim_eq_self
  · intro c hc
    obtain ⟨r, hr⟩ := hpre
    have hhead : (s.dropWhile isWhitespace).head? = some c := by
      cases hs : trim s with
      | nil => rw [hs] at hc; cases hc
      | cons d t =>
        rw [hs] at hc hr
        rw [← hr]; exact hc
    cases hd : s.dropWhile isWhitespace with
    | nil => rw [hd] at hhead; cases hhead
    | cons d t =>
      rw [hd] at hhead
      cases hhead
      have := List.head_dropWhile_not isWhitespace (l := s) (by rw [hd]; simp)
      simpa [hd] using this
  · intro c hc
    have hne : trim s ≠ [] := by intro h; rw [h] at hc; cases hc
    have := List.rdropWhile_last_not isWhitespace (s.dropWhile isWhitespace) hne
    rw [List.getLast?_eq_some_getLast hne] at hc
    cases hc
    exact Bool.eq_false_iff.2 this

/-- `Char.isISOControl`. -/
def isISOControl (c : Char) : Bool := c.toNat ≤ 0x1F || (0x7F ≤ c.toNat && c.toNat ≤ 0x9F)

/-! ## Tokens -/

/-- The tokens of `StringTokenizer(s, delims, true)`: each delimiter, and the runs between them. -/
def tokens (isDelim : Char → Bool) : Str → List Str
  | [] => []
  | c :: cs =>
    if isDelim c then [c] :: tokens isDelim cs
    else
      match tokens isDelim cs with
      | [] => [[c]]
      | t :: ts => if t.any isDelim then [c] :: t :: ts else (c :: t) :: ts

theorem tokens_delim {isDelim : Char → Bool} {c : Char} (h : isDelim c = true) (cs : Str) :
    tokens isDelim (c :: cs) = [c] :: tokens isDelim cs := by
  rw [tokens, if_pos h]

/-- Another character is a token of its own, or joins the next run. -/
theorem tokens_text {isDelim : Char → Bool} {c : Char} (h : isDelim c = false) (cs : Str) :
    tokens isDelim (c :: cs) = [c] :: tokens isDelim cs ∨
      ∃ t ts, tokens isDelim cs = t :: ts ∧ t.any isDelim = false ∧
        tokens isDelim (c :: cs) = (c :: t) :: ts := by
  rw [tokens, if_neg (by simp [h])]
  cases ht : tokens isDelim cs with
  | nil => exact Or.inl rfl
  | cons t ts =>
    by_cases hd : t.any isDelim = true
    · left
      simp only [hd, if_true]
    · right
      refine ⟨t, ts, rfl, by simpa using hd, ?_⟩
      simp only [hd, if_false, Bool.false_eq_true]

theorem mem_of_mem_tokens {isDelim : Char → Bool} {s t : Str} {c : Char} (ht : t ∈ tokens isDelim s)
    (hc : c ∈ t) : c ∈ s := by
  induction s generalizing t with
  | nil => cases ht
  | cons d s ih =>
    have hsingle : ∀ {ts : List Str}, ts = tokens isDelim s → t ∈ [d] :: ts → c ∈ d :: s := by
      rintro ts rfl hm
      rcases List.mem_cons.1 hm with rfl | hm
      · rw [List.mem_singleton.1 hc]
        exact List.mem_cons_self
      · exact List.mem_cons_of_mem d (ih hm hc)
    by_cases hd : isDelim d = true
    · rw [tokens_delim hd] at ht
      exact hsingle rfl ht
    · rcases tokens_text (by simpa using hd) s with heq | ⟨u, us, hs, -, heq⟩
      · rw [heq] at ht
        exact hsingle rfl ht
      · rw [heq] at ht
        rw [hs] at ih
        rcases List.mem_cons.1 ht with rfl | ht
        · rcases List.mem_cons.1 hc with rfl | hc
          · exact List.mem_cons_self
          · exact List.mem_cons_of_mem d (ih List.mem_cons_self hc)
        · exact List.mem_cons_of_mem d (ih (List.mem_cons_of_mem u ht) hc)

/-- The line terminators, which `.` does not match in a regular expression. -/
def isTerminator (c : Char) : Bool :=
  c = '\n' || c = '\r' || c = '\u0085' || c = '\u2028' || c = '\u2029'

/-! ## Numbers -/

/-- The zeros of the decimal digit blocks of the basic plane, which `Character.digit` knows. -/
def digitZeros : List ℕ :=
  [0x30, 0x660, 0x6F0, 0x7C0, 0x966, 0x9E6, 0xA66, 0xAE6, 0xB66, 0xBE6, 0xC66, 0xCE6, 0xD66, 0xDE6, 0xE50,
    0xED0, 0xF20, 0x1040, 0x1090, 0x17E0, 0x1810, 0x1946, 0x19D0, 0x1A80, 0x1A90, 0x1B50, 0x1BB0, 0x1C40,
    0x1C50, 0xA620, 0xA8D0, 0xA900, 0xA9D0, 0xA9F0, 0xAA50, 0xABF0, 0xFF10]

/-- `Character.digit(c, 10)`. -/
def digit (c : Char) : Option ℕ :=
  digitZeros.findSome? fun z => if z ≤ c.toNat ∧ c.toNat ≤ z + 9 then some (c.toNat - z) else none

/-- The value of a string of digits, after the digits read so far. -/
def digits : ℕ → Str → Option ℕ
  | n, [] => some n
  | n, c :: cs => (digit c).bind fun d => digits (10 * n + d) cs

/-- `Integer.parseInt`; `none` is `NumberFormatException`. -/
def toInt (s : Str) : Option ℤ :=
  let signed : Bool × Str :=
    match s with
    | '-' :: cs => (true, cs)
    | '+' :: cs => (false, cs)
    | _ => (false, s)
  if signed.2 = [] then none
  else
    (digits 0 signed.2).bind fun n =>
      let z : ℤ := if signed.1 then -n else n
      if -2147483648 ≤ z ∧ z ≤ 2147483647 then some z else none

/-- `toString` of a number that is not negative. -/
def decimal (n : ℕ) : Str := Nat.toDigits 10 n

/-- `toString` of an `Int`. -/
def intText : ℤ → Str
  | .ofNat n => decimal n
  | .negSucc n => '-' :: decimal (n + 1)

/-- The ten digits are read as themselves. -/
theorem digit_of_isDigit {c : Char} (h : c.isDigit = true) : digit c = some (c.toNat - '0'.toNat) := by
  have hc : 48 ≤ c.toNat ∧ c.toNat ≤ 57 := by
    simp only [Char.isDigit, Bool.and_eq_true, decide_eq_true_eq, UInt32.le_iff_toNat_le] at h
    exact h
  unfold digit digitZeros
  rw [List.findSome?_cons, if_pos ⟨by omega, by omega⟩]
  rfl

theorem digits_eq {cs : Str} (h : ∀ c ∈ cs, c.isDigit = true) :
    ∀ n, digits n cs = some (Nat.ofDigitChars 10 cs n) := by
  induction cs with
  | nil => intro n; simp [digits]
  | cons c cs ih =>
    intro n
    rw [digits, digit_of_isDigit (h c List.mem_cons_self), Option.bind_some,
      ih (fun d hd => h d (List.mem_cons_of_mem _ hd)), Nat.ofDigitChars_cons]

theorem isDigit_of_mem_decimal {n : ℕ} {c : Char} (h : c ∈ decimal n) : c.isDigit = true :=
  Nat.isDigit_of_mem_toDigits (by decide) (by decide) h

theorem decimal_ne_nil (n : ℕ) : decimal n ≠ [] := Nat.toDigits_ne_nil

/-- A string without a sign is read as the value of its digits, if that is an `Int`. -/
theorem toInt_of_no_sign {s : Str} (hne : s ≠ []) (hminus : '-' ∉ s) (hplus : '+' ∉ s) :
    toInt s = (digits 0 s).bind fun n => if n ≤ 2147483647 then some (n : ℤ) else none := by
  have hsign : ∀ t : Str, '-' ∉ t → '+' ∉ t → (match t with
      | '-' :: cs => (true, cs)
      | '+' :: cs => (false, cs)
      | _ => (false, t)) = (false, t) := by
    intro t hm hp
    split
    · exact absurd List.mem_cons_self hm
    · exact absurd List.mem_cons_self hp
    · rfl
  unfold toInt
  simp only [hsign s hminus hplus, hne, if_false, Bool.false_eq_true]
  congr 1
  funext n
  exact if_congr (by omega) rfl rfl

theorem toInt_of_isDigit {s : Str} (hne : s ≠ []) (hd : ∀ c ∈ s, c.isDigit = true)
    (h : Nat.ofDigitChars 10 s 0 ≤ 2147483647) : toInt s = some (Nat.ofDigitChars 10 s 0 : ℤ) := by
  rw [toInt_of_no_sign hne (fun hm => absurd (hd _ hm) (by decide)) (fun hm => absurd (hd _ hm) (by decide)),
    digits_eq hd, Option.bind_some, if_pos h]

/-- **Printed numbers are read back.** -/
theorem toInt_decimal {n : ℕ} (h : n ≤ 2147483647) : toInt (decimal n) = some (n : ℤ) := by
  have hval : Nat.ofDigitChars 10 (decimal n) 0 = n := Nat.ofDigitChars_ten_toDigits
  rw [toInt_of_isDigit (decimal_ne_nil n) (fun c hc => isDigit_of_mem_decimal hc) (by omega), hval]

/-- Negative numbers too. -/
theorem toInt_intText {z : ℤ} (hlo : -2147483648 ≤ z) (hhi : z ≤ 2147483647) : toInt (intText z) = some z := by
  cases z with
  | ofNat n => exact toInt_decimal (by simp only [Int.ofNat_eq_natCast] at hhi; omega)
  | negSucc n =>
    have hval : Nat.ofDigitChars 10 (decimal (n + 1)) 0 = n + 1 := Nat.ofDigitChars_ten_toDigits
    have hdigits : digits 0 (decimal (n + 1)) = some (n + 1) := by
      rw [digits_eq (fun c hc => isDigit_of_mem_decimal hc), hval]
    have hneg : Int.negSucc n = -((n + 1 : ℕ) : ℤ) := rfl
    have hne := decimal_ne_nil (n + 1)
    change toInt ('-' :: decimal (n + 1)) = _
    generalize decimal (n + 1) = ds at hdigits hne
    have hread : toInt ('-' :: ds) = (digits 0 ds).bind fun m =>
        if -2147483648 ≤ -(m : ℤ) ∧ -(m : ℤ) ≤ 2147483647 then some (-(m : ℤ)) else none := if_neg hne
    rw [hread, hdigits, Option.bind_some, hneg, if_pos (by omega)]

end Text

end BlackButton
