import BlackButton.Share.Link

/-!
# Finding links in a text

* `matchAt_longest`: the match at a place is the longest text there that the
  expression describes.
* `findAll_join`: of links that are joined with newlines, each is found, in order, up
  to its last character that a link can end with.
-/

namespace BlackButton

open Text

namespace Link

theorem inLink_of_isAlphanum {c : Char} (h : c.isAlphanum = true) : inLink c = true := by
  rw [inLink, h, Bool.true_or]

/-- The characters of a link are letters, digits and those of a list; so are those of its parts. -/
theorem inLink_of_or {l : Str} (hl : ∀ c ∈ l, inLink c = true) {c : Char}
    (h : (c.isAlphanum || l.contains c) = true) : inLink c = true := by
  rw [Bool.or_eq_true, List.contains_iff_mem] at h
  rcases h with h | h
  · exact inLink_of_isAlphanum h
  · exact hl c h

theorem inLink_of_inEnd {c : Char} (h : inEnd c = true) : inLink c = true :=
  inLink_of_or (forall_mem_of_all (by decide)) h

/-! ## The match at a place -/

/-- The texts that `pattern` describes. -/
def Matches (v : Str) : Prop :=
  (v.take 5).map Char.toLower = scheme ∧ ∃ b e, v.drop 5 = b ++ [e] ∧ (∀ c ∈ b, inLink c = true) ∧ inEnd e = true

theorem trimEnd_concat {x : Str} {c : Char} (h : inEnd c = true) : trimEnd (x ++ [c]) = x ++ [c] :=
  List.rdropWhile_concat_neg _ _ _ (by simp [h])

/-- What can end a link is not given back. -/
theorem prefix_trimEnd {x : Str} {e : Char} (he : inEnd e = true) (y : Str) :
    x ++ [e] <+: trimEnd (x ++ [e] ++ y) := by
  induction y using List.reverseRecOn with
  | nil =>
    have hkept : trimEnd (x ++ [e]) = x ++ [e] := trimEnd_concat he
    simp [hkept]
  | append_singleton y c ih =>
    rw [← List.append_assoc]
    by_cases hc : inEnd c = true
    · rw [trimEnd_concat hc, List.append_assoc (x ++ [e])]
      exact List.prefix_append _ _
    · have hcut : trimEnd (x ++ [e] ++ y ++ [c]) = trimEnd (x ++ [e] ++ y) :=
        List.rdropWhile_concat_pos _ _ _ (by simpa using hc)
      rw [hcut]
      exact ih

/-- What `pattern` describes is in the part of the run that is kept. -/
theorem Matches.prefix_trimEnd {s w : Str} (hw : w <+: s) (h : Matches w) :
    w.take 5 = s.take 5 ∧ w.drop 5 ≠ [] ∧ w.drop 5 <+: trimEnd ((s.drop 5).takeWhile inLink) := by
  obtain ⟨hscheme, b, e, hdrop, hb, he⟩ := h
  obtain ⟨r, rfl⟩ := hw
  have hfive : 5 ≤ w.length := by
    have := congrArg List.length hscheme
    rw [List.length_map, List.length_take] at this
    have h5 : scheme.length = 5 := rfl
    omega
  have htake : (w ++ r).take 5 = w.take 5 := List.take_append_of_le_length hfive
  have hrest : (w ++ r).drop 5 = b ++ [e] ++ r := by rw [List.drop_append_of_le_length hfive, hdrop]
  have hall : ∀ c ∈ b ++ [e], inLink c = true := by
    intro c hc
    rcases List.mem_append.1 hc with hc | hc
    · exact hb c hc
    · rw [List.mem_singleton.1 hc]
      exact inLink_of_inEnd he
  refine ⟨htake.symm, by simp [hdrop], ?_⟩
  rw [hrest, hdrop, List.takeWhile_append_of_pos hall]
  exact Link.prefix_trimEnd he _

/-- **The match at a place is the longest one there.** -/
theorem matchAt_longest (s : Str) :
    match matchAt s with
    | none => ∀ w, w <+: s → ¬ Matches w
    | some v => v <+: s ∧ Matches v ∧ ∀ w, w <+: s → Matches w → w.length ≤ v.length := by
  have hprefix : trimEnd ((s.drop 5).takeWhile inLink) <+: s.drop 5 :=
    (List.rdropWhile_prefix _ _).trans (List.takeWhile_prefix _)
  by_cases hscheme : (s.take 5).map Char.toLower = scheme
  · by_cases hbody : trimEnd ((s.drop 5).takeWhile inLink) = []
    · have hnone : matchAt s = none := by simp [matchAt, hscheme, hbody]
      rw [hnone]
      intro w hw hmatch
      obtain ⟨-, hne, hpre⟩ := hmatch.prefix_trimEnd hw
      rw [hbody] at hpre
      exact hne (List.prefix_nil.1 hpre)
    · have hsome : matchAt s = some (s.take 5 ++ trimEnd ((s.drop 5).takeWhile inLink)) := by
        simp [matchAt, hscheme, hbody]
      have hfive : (s.take 5).length = 5 := by
        have := congrArg List.length hscheme
        rwa [List.length_map] at this
      rw [hsome]
      refine ⟨?_, ⟨?_, ?_⟩, ?_⟩
      · conv_rhs => rw [← List.take_append_drop 5 s]
        exact (List.prefix_append_right_inj _).2 hprefix
      · rw [List.take_left' hfive]
        exact hscheme
      · rw [List.drop_left' hfive]
        obtain ⟨b, e, hbe⟩ := (List.eq_nil_or_concat' _).resolve_left hbody
        refine ⟨b, e, hbe, ?_, ?_⟩
        · intro c hc
          have hmem : c ∈ trimEnd ((s.drop 5).takeWhile inLink) := by rw [hbe]; exact List.mem_append_left _ hc
          exact List.mem_takeWhile_imp ((List.rdropWhile_prefix _ _).subset hmem)
        · have hlast := List.rdropWhile_last_not (fun c => !inEnd c) ((s.drop 5).takeWhile inLink) hbody
          have hgetLast : ((trimEnd ((s.drop 5).takeWhile inLink)).getLast hbody) = e := by simp [hbe]
          rw [← hgetLast]
          simpa [trimEnd] using hlast
      · intro w hw hmatch
        obtain ⟨htake, -, hpre⟩ := hmatch.prefix_trimEnd hw
        have hle := hpre.length_le
        rw [List.length_drop] at hle
        rw [List.length_append, hfive]
        omega
  · have hnone : matchAt s = none := if_neg hscheme
    rw [hnone]
    intro w hw hmatch
    obtain ⟨htake, -⟩ := hmatch.prefix_trimEnd hw
    rw [← htake] at hscheme
    exact hscheme hmatch.1

/-! ## Walking over a text -/

/-- Text after which a link is over: none, or a character that no link has. -/
def Stops (rest : Str) : Prop := ∀ c, rest.head? = some c → inLink c = false

theorem matchAt_link {b rest : Str} (hb : ∀ c ∈ b, inLink c = true) (hne : trimEnd b ≠ []) (hr : Stops rest) :
    matchAt (scheme ++ b ++ rest) = some (scheme ++ trimEnd b) := by
  have htake : (scheme ++ b ++ rest).take 5 = scheme := by simp [scheme]
  have hdrop : (scheme ++ b ++ rest).drop 5 = b ++ rest := by simp [scheme]
  have hlow : scheme.map Char.toLower = scheme := by decide
  unfold matchAt
  rw [htake, hdrop, takeWhile_stop hb hr, if_pos hlow]
  simp only [hne, if_false]

theorem findAll_covered (a s : Str) : findAll a.length (a ++ s) = findAll 0 s := by
  induction a with
  | nil => rfl
  | cons c a ih => exact ih

/-- A link starts with a character that could end one. -/
theorem inEnd_of_toLower {c : Char} (h : c.toLower = 's') : inEnd c = true := by
  unfold Char.toLower at h
  split at h
  · rename_i hup
    have hupper : c.isUpper = true := decide_eq_true hup
    have halnum : c.isAlphanum = (c.isUpper || c.isLower || c.isDigit) := rfl
    rw [inEnd, halnum, hupper]
    rfl
  · rw [h]
    decide

theorem findAll_plain {d : Str} (h : ∀ c ∈ d, inEnd c = false) (s : Str) :
    findAll 0 (d ++ s) = findAll 0 s := by
  induction d with
  | nil => rfl
  | cons c d ih =>
    have hmatch : matchAt (c :: (d ++ s)) = none := by
      unfold matchAt
      apply if_neg
      intro heq
      have hc : c.toLower = 's' := (List.cons.inj heq).1
      have := h c List.mem_cons_self
      rw [inEnd_of_toLower hc] at this
      cases this
    rw [List.cons_append, findAll, hmatch]
    exact ih fun c hc => h c (List.mem_cons_of_mem _ hc)

theorem findAll_link {b rest : Str} (hb : ∀ c ∈ b, inLink c = true) (hne : trimEnd b ≠ []) (hr : Stops rest) :
    findAll 0 (scheme ++ b ++ rest) = (scheme ++ trimEnd b) :: findAll 0 rest := by
  have hback : ∀ c ∈ b.rtakeWhile (fun c => !inEnd c), inEnd c = false := fun c hc => by
    simpa using List.mem_rtakeWhile_imp hc
  have hsplit : scheme ++ b ++ rest =
      (scheme ++ trimEnd b) ++ (b.rtakeWhile (fun c => !inEnd c) ++ rest) := by
    have hb : trimEnd b ++ b.rtakeWhile (fun c => !inEnd c) = b := List.rdropWhile_append_rtakeWhile
    rw [List.append_assoc, List.append_assoc, ← List.append_assoc (trimEnd b), hb]
  have hfind : findAll 0 (scheme ++ b ++ rest) =
      (scheme ++ trimEnd b) :: findAll ((scheme ++ trimEnd b).length - 1) ((scheme ++ b ++ rest).drop 1) := by
    have hmatch := matchAt_link hb hne hr
    have hcons : scheme ++ b ++ rest = 's' :: (scheme ++ b ++ rest).drop 1 := rfl
    rw [hcons] at hmatch ⊢
    rw [findAll, hmatch]
    rfl
  have hcovered := findAll_covered ((scheme ++ trimEnd b).drop 1) (b.rtakeWhile (fun c => !inEnd c) ++ rest)
  rw [hfind, hsplit]
  congr 1
  rw [List.length_drop] at hcovered
  rw [List.drop_append_of_le_length (by simp [scheme]), hcovered, findAll_plain hback]

/-- **Each of the joined links is found**, up to its last character that a link can end with. -/
theorem findAll_join {bs : List Str} (hb : ∀ b ∈ bs, (∀ c ∈ b, inLink c = true) ∧ trimEnd b ≠ []) :
    findAll 0 (List.intercalate ['\n'] (bs.map (scheme ++ ·))) = bs.map fun b => scheme ++ trimEnd b := by
  induction bs with
  | nil => rfl
  | cons b bs ih =>
    have hhead := hb b List.mem_cons_self
    have htail := ih fun b hm => hb b (List.mem_cons_of_mem _ hm)
    cases bs with
    | nil =>
      have hstops : Stops [] := by intro c hc; cases hc
      have hlink := findAll_link hhead.1 hhead.2 hstops
      simpa [findAll] using hlink
    | cons b' bs =>
      have hstops : Stops ('\n' :: List.intercalate ['\n'] ((b' :: bs).map (scheme ++ ·))) := by
        intro c hc
        cases hc
        decide
      have hlink := findAll_link hhead.1 hhead.2 hstops
      have hnl : findAll 0 ('\n' :: List.intercalate ['\n'] ((b' :: bs).map (scheme ++ ·))) =
          findAll 0 (List.intercalate ['\n'] ((b' :: bs).map (scheme ++ ·))) :=
        findAll_plain (d := ['\n']) (forall_mem_of_all (by decide)) _
      rw [List.map_cons, List.map_cons, List.intercalate_cons_cons, ← List.map_cons, List.append_assoc]
      rw [List.singleton_append, hlink, hnl, htail]
      rfl

end Link

end BlackButton
