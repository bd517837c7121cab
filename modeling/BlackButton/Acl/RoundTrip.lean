import BlackButton.Acl.Model

/-!
# Reading back a printed ACL

* `Reachable.wellFormed`: every host rule that reading, copying and flattening
  can produce is a line that reads back as itself (`HostRule`): it is trimmed,
  has no `#`, does not start with `[`, and is not a subnet.
* `print_eq`: the printed text is a list of lines, `printLines`.
* `fromReader_print`: **reading the printed text gives the same mode and, as sets,
  the same rules and imports**, whatever the default mode.
-/

namespace BlackButton

open Text

namespace Acl

variable {U : Type} {P : Platform U}

/-- A line that reads as the host rule it is. -/
structure HostRule (P : Platform U) (h : Str) : Prop where
  ne_nil : h ≠ []
  trimmed : trim h = h
  no_hash : '#' ∉ h
  no_break : ∀ c ∈ h, isBreak c = false
  no_bracket : h.head? ≠ some '['
  no_subnet : Subnet.fromString P h = none

/-- A subnet whose address was parsed from a text. -/
def ReadSubnet (P : Platform U) (s : Subnet) : Prop := ∃ t, P.parseNumericAddress t = some s.address

/-- A URL that was parsed from a text without line terminators. -/
def ReadUrl (P : Platform U) (u : U) : Prop :=
  ∃ t, P.url t = some u ∧ ∀ c ∈ t, isTerminator c = false

/-- Everything in the ACL was read from some text. -/
structure WellFormed (P : Platform U) (a : Acl U) : Prop where
  bypassHost : ∀ h ∈ a.bypassHostnames, HostRule P h
  proxyHost : ∀ h ∈ a.proxyHostnames, HostRule P h
  subnet : ∀ s ∈ a.subnets, ReadSubnet P s
  url : ∀ u ∈ a.urls, ReadUrl P u

/-- The same for the variables of the loop. -/
structure Reading.WellFormed (P : Platform U) (r : Reading U) : Prop where
  bypassHost : ∀ h ∈ r.bypassHostnames, HostRule P h
  proxyHost : ∀ h ∈ r.proxyHostnames, HostRule P h
  bypassSubnet : ∀ s ∈ r.bypassSubnets, ReadSubnet P s
  proxySubnet : ∀ s ∈ r.proxySubnets, ReadSubnet P s
  url : ∀ u ∈ r.urls, ReadUrl P u

/-! ## What reading produces -/

/-- The URL of a directive has no line terminator. -/
theorem networkAclParser_text {s spec : Str} (h : networkAclParser s = some spec) :
    ∀ c ∈ spec, isTerminator c = false := by
  unfold networkAclParser at h
  split at h
  · split at h
    · split at h
      · split at h
        · rename_i hu
          cases h
          intro c hc
          rw [List.mem_reverse] at hc
          have := List.all_eq_true.1 hu.2 c hc
          simpa using this
        · cases h
      · cases h
    · cases h
  · cases h

theorem readHeader_wf {r r' : Reading U} {input : Str} (hr : Reading.WellFormed P r)
    (h : readHeader r input = .ok r') : Reading.WellFormed P r' := by
  have hkeep : ∀ (b : Option Block) (m : Bool), Reading.WellFormed P { r with block := b, bypass := m } :=
    fun _ _ => ⟨hr.bypassHost, hr.proxyHost, hr.bypassSubnet, hr.proxySubnet, hr.url⟩
  unfold readHeader at h
  split at h
  · cases h; exact hkeep none r.bypass
  split at h
  · cases h; exact hkeep (some .bypass) r.bypass
  split at h
  · cases h; exact hkeep (some .proxy) r.bypass
  split at h
  · cases h; exact hkeep r.block true
  split at h
  · cases h; exact hkeep r.block false
  · cases h

theorem addHost_wf {r : Reading U} (hr : Reading.WellFormed P r) (b : Block) {h : Str}
    (hh : HostRule P h) : Reading.WellFormed P (addHost r b h) := by
  cases b with
  | bypass =>
    refine ⟨?_, hr.proxyHost, hr.bypassSubnet, hr.proxySubnet, hr.url⟩
    intro x hx
    rcases SortedList.mem_add.1 hx with hx | rfl
    · exact hr.bypassHost x hx
    · exact hh
  | proxy =>
    refine ⟨hr.bypassHost, ?_, hr.bypassSubnet, hr.proxySubnet, hr.url⟩
    intro x hx
    rcases SortedList.mem_add.1 hx with hx | rfl
    · exact hr.proxyHost x hx
    · exact hh

theorem addSubnet_wf {r : Reading U} (hr : Reading.WellFormed P r) (b : Block) {s : Subnet}
    (hs : ReadSubnet P s) : Reading.WellFormed P (addSubnet r b s) := by
  cases b with
  | bypass =>
    refine ⟨hr.bypassHost, hr.proxyHost, ?_, hr.proxySubnet, hr.url⟩
    intro x hx
    rcases List.mem_append.1 hx with hx | hx
    · exact hr.bypassSubnet x hx
    · rw [List.mem_singleton] at hx
      subst hx; exact hs
  | proxy =>
    refine ⟨hr.bypassHost, hr.proxyHost, hr.bypassSubnet, ?_, hr.url⟩
    intro x hx
    rcases List.mem_append.1 hx with hx | hx
    · exact hr.proxySubnet x hx
    · rw [List.mem_singleton] at hx
      subst hx; exact hs

theorem merge_wf {a child : Acl U} (ha : WellFormed P a) (hc : WellFormed P child) :
    WellFormed P (merge a child) := by
  have hc' : WellFormed P
      (if a.bypass ≠ child.bypass then { child with subnets := [], bypass := a.bypass } else child) := by
    split
    · exact ⟨hc.bypassHost, hc.proxyHost, by simp, hc.url⟩
    · exact hc
  refine ⟨?_, ?_, ?_, ha.url⟩
  · intro x hx
    rcases SortedList.mem_addAll.1 hx with hx | hx
    · exact ha.bypassHost x hx
    · exact hc'.bypassHost x hx
  · intro x hx
    rcases SortedList.mem_addAll.1 hx with hx | hx
    · exact ha.proxyHost x hx
    · exact hc'.proxyHost x hx
  · intro x hx
    rcases SortedList.mem_addAll.1 hx with hx | hx
    · exact ha.subnet x hx
    · exact hc'.subnet x hx

variable [DecidableEq U]

theorem readComment_wf {r r' : Reading U} {comment : Str} (hr : Reading.WellFormed P r)
    (h : readComment P r comment = .ok r') : Reading.WellFormed P r' := by
  unfold readComment at h
  split at h
  · cases h; exact hr
  · rename_i spec hspec
    split at h
    · cases h
    · rename_i u hu
      cases h
      refine ⟨hr.bypassHost, hr.proxyHost, hr.bypassSubnet, hr.proxySubnet, ?_⟩
      intro v hv
      rcases SortedList.mem_add.1 hv with hv | rfl
      · exact hr.url v hv
      · exact ⟨spec, hu, networkAclParser_text hspec⟩

/-- **One line keeps everything well formed.** A rule that is added as a host is what is left of a
line before its `#`, trimmed. -/
theorem readLine_wf {r r' : Reading U} {line : Str} (hline : ∀ c ∈ line, isBreak c = false)
    (hr : Reading.WellFormed P r) (h : readLine P r line = .ok r') : Reading.WellFormed P r' := by
  unfold readLine at h
  obtain ⟨r₁, h1, h2⟩ := Except.bind_eq_ok.1 h
  have hr₁ := readComment_wf hr h1
  simp only at h2
  split at h2
  · exact readHeader_wf hr₁ h2
  · rename_i hhead
    cases h2
    unfold readRule
    split
    · exact hr₁
    · split
      · exact hr₁
      · rename_i hne
        split
        · rename_i hsub
          refine addHost_wf hr₁ _ ⟨hne, trim_trim _, ?_, ?_, hhead, hsub⟩
          · intro hmem
            exact not_mem_splitOnce '#' line (mem_of_mem_trim hmem)
          · intro c hc
            exact hline c (mem_of_mem_splitOnce (mem_of_mem_trim hc))
        · rename_i hsub
          exact addSubnet_wf hr₁ _ (Subnet.address_of_fromString hsub)

theorem parse_wf {text : Str} {d : Bool} {r : Reading U} (h : parse P text d = .ok r) :
    Reading.WellFormed P r := by
  refine foldlM_inv (fun s x s' hx hI hs => readLine_wf (not_break_of_mem_lines hx) hI hs) ?_ h
  exact ⟨by simp [start], by simp [start], by simp [start], by simp [start], by simp [start]⟩

theorem fromReader_wf {text : Str} {d : Bool} {a : Acl U} (h : fromReader P text d = .ok a) :
    WellFormed P a := by
  obtain ⟨r, hr, ha⟩ := Except.bind_eq_ok.1 h
  have hw := parse_wf hr
  cases ha
  refine ⟨hw.bypassHost, hw.proxyHost, ?_, hw.url⟩
  intro s hs
  rcases SortedList.mem_addAll.1 hs with hs | hs
  · cases hs
  · unfold kept at hs
    split at hs
    · exact hw.proxySubnet s hs
    · exact hw.bypassSubnet s hs

theorem fromAcl_wf {a : Acl U} (ha : WellFormed P a) : WellFormed P (fromAcl P a) := by
  refine ⟨?_, ?_, ?_, ?_⟩
  · intro x hx
    exact ha.bypassHost x (by simpa [fromAcl, SortedList.mem_addAll] using hx)
  · intro x hx
    exact ha.proxyHost x (by simpa [fromAcl, SortedList.mem_addAll] using hx)
  · intro x hx
    exact ha.subnet x (by simpa [fromAcl, SortedList.mem_addAll] using hx)
  · intro x hx
    exact ha.url x (by simpa [fromAcl, SortedList.mem_addAll] using hx)

theorem flatten_wf {connect : U → Str} : ∀ {n : ℕ} {a b : Acl U}, WellFormed P a →
    flatten P connect n a = .ok b → WellFormed P b := by
  intro n
  induction n with
  | zero =>
    intro a b ha h
    cases h
    exact ⟨ha.bypassHost, ha.proxyHost, ha.subnet, by simp⟩
  | succ n ih =>
    intro a b ha h
    unfold flatten at h
    obtain ⟨a', ha', hb⟩ := Except.bind_eq_ok.1 h
    cases hb
    have hw : WellFormed P a' := by
      refine foldlM_inv ?_ ha ha'
      intro acc url acc' _ hacc hstep
      obtain ⟨child, hchild, hrest⟩ := Except.bind_eq_ok.1 hstep
      obtain ⟨child', hflat, hmerge⟩ := Except.bind_eq_ok.1 hrest
      cases hmerge
      exact merge_wf hacc (ih (fromReader_wf hchild) hflat)
    exact ⟨hw.bypassHost, hw.proxyHost, hw.subnet, by simp⟩

/-- **Every reachable ACL is well formed.** -/
theorem Reachable.wellFormed {a : Acl U} (h : Reachable P a) : WellFormed P a := by
  induction h with
  | new => exact ⟨by simp [Acl.new], by simp [Acl.new], by simp [Acl.new], by simp [Acl.new]⟩
  | fromReader h => exact fromReader_wf h
  | fromAcl _ ih => exact fromAcl_wf ih
  | flatten _ h ih => exact flatten_wf ih h

/-! ## What printing writes -/

/-- The line of an import. -/
def importLine (P : Platform U) (u : U) : Str := "#IMPORT_URL <".toList ++ P.external u ++ ">".toList

/-- The line of the mode. -/
def modeLine (a : Acl U) : Str := if a.bypass then "[bypass_all]".toList else "[proxy_all]".toList

/-- The lines of a list, under its header if it is not empty. -/
def blockLines (header : Str) (rules : List Str) : List Str := if rules ≠ [] then header :: rules else []

/-- The lines that `Acl.toString` writes. -/
def printLines (P : Platform U) (a : Acl U) : List Str :=
  [modeLine a] ++ blockLines "[bypass_list]".toList (bypassList P a) ++
    blockLines "[proxy_list]".toList (proxyList P a) ++ a.urls.map (importLine P)

theorem unlines_blockLines (header : Str) (rules : List Str) :
    unlines (blockLines header rules) =
      if rules ≠ [] then header ++ ['\n'] ++ List.intercalate ['\n'] rules ++ ['\n'] else [] := by
  unfold blockLines
  split
  · rename_i h
    rw [List.append_assoc, intercalate_newline h]
    simp [unlines]
  · rfl

omit [DecidableEq U] in
/-- **The printed text is `printLines`, each line with its `\n`.** -/
theorem print_eq (a : Acl U) : print P a = unlines (printLines P a) := by
  have hmode : unlines [modeLine a] =
      if a.bypass then "[bypass_all]\n".toList else "[proxy_all]\n".toList := by
    unfold modeLine
    split <;> rfl
  have hurls : unlines (a.urls.map (importLine P)) =
      a.urls.flatMap (fun u => "#IMPORT_URL <".toList ++ P.external u ++ ">\n".toList) := by
    unfold unlines importLine
    rw [List.flatMap_map]
    congr 1
    funext u
    simp
  unfold print printLines
  rw [unlines_append, unlines_append, unlines_append, unlines_blockLines, unlines_blockLines, hmode, hurls]
  rfl

omit [DecidableEq U] in
/-- A rule of a printed list is a printed subnet or a host rule. -/
theorem mem_blockRules {a : Acl U} (hw : WellFormed P a) {l : Str}
    (h : l ∈ bypassList P a ∨ l ∈ proxyList P a) :
    (∃ s, ReadSubnet P s ∧ l = Subnet.print P s) ∨ HostRule P l := by
  have hsub : l ∈ a.subnets.map (Subnet.print P) → ∃ s, ReadSubnet P s ∧ l = Subnet.print P s := by
    intro hl
    obtain ⟨s, hs, rfl⟩ := List.mem_map.1 hl
    exact ⟨s, hw.subnet s hs, rfl⟩
  rcases h with h | h
  · unfold bypassList at h
    split at h
    · exact Or.inr (hw.bypassHost l h)
    · rcases List.mem_append.1 h with h | h
      · exact Or.inl (hsub h)
      · exact Or.inr (hw.bypassHost l h)
  · unfold proxyList at h
    split at h
    · rcases List.mem_append.1 h with h | h
      · exact Or.inl (hsub h)
      · exact Or.inr (hw.proxyHost l h)
    · exact Or.inr (hw.proxyHost l h)

omit [DecidableEq U] in
theorem bypassList_eq (a : Acl U) :
    bypassList P a = (if a.bypass then [] else a.subnets).map (Subnet.print P) ++ a.bypassHostnames := by
  unfold bypassList
  split <;> simp

omit [DecidableEq U] in
theorem proxyList_eq (a : Acl U) :
    proxyList P a = (if a.bypass then a.subnets else []).map (Subnet.print P) ++ a.proxyHostnames := by
  unfold proxyList
  split <;> simp

omit [DecidableEq U] in
/-- The subnets stand in the list that the mode does not take by default. -/
theorem readSubnet_of_mode {a : Acl U} (hw : WellFormed P a) :
    (∀ s ∈ (if a.bypass then [] else a.subnets), ReadSubnet P s) ∧
      ∀ s ∈ (if a.bypass then a.subnets else []), ReadSubnet P s := by
  cases a.bypass with
  | true => exact ⟨by simp, hw.subnet⟩
  | false => exact ⟨hw.subnet, by simp⟩

omit [DecidableEq U] in
theorem isBreak_importLine (hP : P.Lawful) {u : U} (hu : ReadUrl P u) :
    ∀ c ∈ importLine P u, isBreak c = false := by
  obtain ⟨t, ht, htext⟩ := hu
  obtain ⟨-, hext⟩ := hP.external_text t u ht htext
  intro c hc
  unfold importLine at hc
  rw [List.mem_append, List.mem_append] at hc
  rcases hc with (hc | hc) | hc
  · exact forall_mem_of_all (by decide) c hc
  · have := hext c hc
    simp only [isTerminator, Bool.or_eq_false_iff] at this
    simp [isBreak, this.1.1.1.1, this.1.1.1.2]
  · exact forall_mem_of_all (by decide) c hc

omit [DecidableEq U] in
/-- No printed line has a break in it. -/
theorem isBreak_printLines (hP : P.Lawful) {a : Acl U} (hw : WellFormed P a) :
    ∀ l ∈ printLines P a, ∀ c ∈ l, isBreak c = false := by
  have hrules : ∀ l, l ∈ bypassList P a ∨ l ∈ proxyList P a → ∀ c ∈ l, isBreak c = false := by
    intro l hl c hc
    rcases mem_blockRules hw hl with ⟨s, ⟨t, ht⟩, rfl⟩ | hh
    · by_contra hb
      have hwhite := isWhitespace_of_isBreak (by simpa using hb)
      rw [((Subnet.print_text hP ht).2 c hc).1] at hwhite
      cases hwhite
    · exact hh.no_break c hc
  have hblock : ∀ header rules, (∀ c ∈ header, isBreak c = false) →
      (∀ l ∈ rules, l ∈ bypassList P a ∨ l ∈ proxyList P a) →
      ∀ l ∈ blockLines header rules, ∀ c ∈ l, isBreak c = false := by
    intro header rules hh hr l hl
    unfold blockLines at hl
    split at hl
    · rcases List.mem_cons.1 hl with rfl | hl
      · exact hh
      · exact hrules l (hr l hl)
    · cases hl
  intro l hl
  unfold printLines at hl
  rw [List.mem_append, List.mem_append, List.mem_append] at hl
  rcases hl with ((hl | hl) | hl) | hl
  · rw [List.mem_singleton] at hl
    subst hl
    unfold modeLine
    split
    · exact forall_mem_of_all (by decide)
    · exact forall_mem_of_all (by decide)
  · exact hblock _ _ (forall_mem_of_all (by decide)) (fun l hl => Or.inl hl) l hl
  · exact hblock _ _ (forall_mem_of_all (by decide)) (fun l hl => Or.inr hl) l hl
  · obtain ⟨u, hu, rfl⟩ := List.mem_map.1 hl
    exact isBreak_importLine hP (hw.url u hu)

/-! ## Reading the printed lines -/

/-- A line without `#` is read as its trimmed text. -/
theorem readLine_of_no_hash {r : Reading U} {l : Str} (h : '#' ∉ l) (ht : trim l = l) :
    readLine P r l = if l.head? = some '[' then readHeader r l else .ok (readRule P r l) := by
  unfold readLine
  rw [splitOnce_of_not_mem h]
  simp only [ht, Option.getD_none]
  rfl

theorem readLine_host {r : Reading U} {b : Block} (hb : r.block = some b) {h : Str} (hh : HostRule P h) :
    readLine P r h = .ok (addHost r b h) := by
  rw [readLine_of_no_hash hh.no_hash hh.trimmed, if_neg hh.no_bracket]
  simp [readRule, hb, hh.ne_nil, hh.no_subnet]

theorem readLine_subnet (hP : P.Lawful) {r : Reading U} {b : Block} (hb : r.block = some b) {s : Subnet}
    (hs : ReadSubnet P s) : readLine P r (Subnet.print P s) = .ok (addSubnet r b s) := by
  obtain ⟨t, ht⟩ := hs
  obtain ⟨hne, hc⟩ := Subnet.print_text hP ht
  have hhash : '#' ∉ Subnet.print P s := fun h => (hc _ h).2.1 rfl
  have htrim : trim (Subnet.print P s) = Subnet.print P s :=
    trim_eq_self (fun c h => (hc c (List.mem_of_head? h)).1) (fun c h => (hc c (List.mem_of_getLast? h)).1)
  have hhead : (Subnet.print P s).head? ≠ some '[' := fun h => (hc _ (List.mem_of_head? h)).2.2 rfl
  rw [readLine_of_no_hash hhash htrim, if_neg hhead]
  simp [readRule, hb, hne, Subnet.fromString_print hP ht]

/-- The directive of a printed import. -/
theorem networkAclParser_print {e : Str} (hne : e ≠ []) (he : ∀ c ∈ e, isTerminator c = false) :
    networkAclParser ("IMPORT_URL <".toList ++ e ++ ">".toList) = some e := by
  have hall : e.reverse.all (fun c => !isTerminator c) = true := by
    rw [List.all_eq_true]
    intro c hc
    rw [List.mem_reverse] at hc
    simp [he c hc]
  have hspace : ∀ r : Str, (' ' :: '<' :: r).dropWhile isRegexSpace = '<' :: r := fun r => rfl
  have hlast : (e ++ ['>']).rdropWhile isRegexSpace = e ++ ['>'] := by
    rw [List.rdropWhile_concat_neg _ _ _ (by decide)]
  unfold networkAclParser
  have hpre : "IMPORT_URL".toList.isPrefixOf ("IMPORT_URL <".toList ++ e ++ ">".toList) = true := rfl
  have hdrop : ("IMPORT_URL <".toList ++ e ++ ">".toList).drop "IMPORT_URL".toList.length =
      ' ' :: '<' :: (e ++ ['>']) := rfl
  rw [if_pos hpre, hdrop, hspace]
  simp only [hlast, List.reverse_append, List.reverse_cons, List.reverse_nil, List.nil_append,
    List.cons_append]
  rw [if_pos ⟨by simpa using hne, hall⟩, List.reverse_reverse]

theorem readLine_import (hP : P.Lawful) {r : Reading U} {u : U} (hu : ReadUrl P u) :
    readLine P r (importLine P u) = .ok { r with urls := SortedList.add P.urlLe r.urls u } := by
  obtain ⟨t, ht, htext⟩ := hu
  obtain ⟨hne, hext⟩ := hP.external_text t u ht htext
  have hsplit : splitOnce '#' (importLine P u) = ([], some ("IMPORT_URL <".toList ++ P.external u ++ ">".toList)) :=
    splitOnce_append (a := []) (by simp) _
  have hrule : ∀ r : Reading U, readRule P r [] = r := by
    intro r
    unfold readRule
    split <;> rfl
  unfold readLine
  rw [hsplit]
  simp only [Option.getD_some, readComment, networkAclParser_print hne hext, hP.url_external t u ht]
  exact congrArg Except.ok (hrule _)

/-- The host rules of a list, read in their block. -/
theorem readHosts {b : Block} {hs : List Str} (hh : ∀ h ∈ hs, HostRule P h) {r : Reading U}
    (hb : r.block = some b) : hs.foldlM (readLine P) r = .ok (hs.foldl (addHost · b) r) := by
  refine foldlM_eq_foldl (I := fun r => r.block = some b) ?_ ?_ hb
  · intro r h _ hr
    cases b <;> exact hr
  · intro r h hmem hr
    exact readLine_host hr (hh h hmem)

/-- The subnets of a list, read in their block. -/
theorem readSubnets (hP : P.Lawful) {b : Block} {ss : List Subnet} (hs : ∀ s ∈ ss, ReadSubnet P s)
    {r : Reading U} (hb : r.block = some b) :
    (ss.map (Subnet.print P)).foldlM (readLine P) r = .ok (ss.foldl (addSubnet · b) r) := by
  rw [List.foldlM_map]
  refine foldlM_eq_foldl (I := fun r => r.block = some b) ?_ ?_ hb
  · intro r h _ hr
    cases b <;> exact hr
  · intro r s hmem hr
    exact readLine_subnet hP hr (hs s hmem)

theorem readImports (hP : P.Lawful) {us : List U} (hu : ∀ u ∈ us, ReadUrl P u) (r : Reading U) :
    (us.map (importLine P)).foldlM (readLine P) r =
      .ok { r with urls := SortedList.addAll P.urlLe r.urls us } := by
  induction us generalizing r with
  | nil => rfl
  | cons u us ih =>
    rw [List.map_cons, List.foldlM_cons, readLine_import hP (hu u List.mem_cons_self)]
    exact ih (fun v hv => hu v (List.mem_cons_of_mem _ hv)) _

omit [DecidableEq U] in
theorem foldl_addHost (hs : List Str) (b : Block) (r : Reading U) :
    hs.foldl (addHost · b) r =
      match b with
      | .bypass => { r with bypassHostnames := SortedList.addAll strLe r.bypassHostnames hs }
      | .proxy => { r with proxyHostnames := SortedList.addAll strLe r.proxyHostnames hs } := by
  induction hs generalizing r with
  | nil => cases b <;> rfl
  | cons h hs ih =>
    rw [List.foldl_cons, ih]
    cases b <;> rfl

omit [DecidableEq U] in
theorem foldl_addSubnet (ss : List Subnet) (b : Block) (r : Reading U) :
    ss.foldl (addSubnet · b) r =
      match b with
      | .bypass => { r with bypassSubnets := r.bypassSubnets ++ ss }
      | .proxy => { r with proxySubnets := r.proxySubnets ++ ss } := by
  induction ss generalizing r with
  | nil => cases b <;> simp
  | cons s ss ih =>
    rw [List.foldl_cons, ih]
    cases b <;> simp [addSubnet]

/-- The loop variables after the rules of a list. -/
def addBlock (r : Reading U) (b : Block) (ss : List Subnet) (hs : List Str) (b' : Option Block) : Reading U :=
  match b with
  | .bypass =>
    { r with
      block := b'
      bypassSubnets := r.bypassSubnets ++ ss
      bypassHostnames := SortedList.addAll strLe r.bypassHostnames hs }
  | .proxy =>
    { r with
      block := b'
      proxySubnets := r.proxySubnets ++ ss
      proxyHostnames := SortedList.addAll strLe r.proxyHostnames hs }

/-- A printed list, with its header, read from any block. -/
theorem readBlock (hP : P.Lawful) {b : Block} {header : Str}
    (hheader : ∀ r : Reading U, readLine P r header = .ok { r with block := some b })
    {ss : List Subnet} {hs : List Str} (hss : ∀ s ∈ ss, ReadSubnet P s) (hhs : ∀ h ∈ hs, HostRule P h)
    (r : Reading U) :
    ∃ b', (blockLines header (ss.map (Subnet.print P) ++ hs)).foldlM (readLine P) r =
      .ok (addBlock r b ss hs b') := by
  unfold blockLines
  split
  · refine ⟨some b, ?_⟩
    rw [List.foldlM_cons, hheader]
    show List.foldlM _ _ _ = _
    rw [List.foldlM_append, readSubnets hP hss rfl]
    show List.foldlM _ _ _ = _
    rw [readHosts (b := b) hhs (by rw [foldl_addSubnet]; cases b <;> rfl)]
    congr 1
    rw [foldl_addHost, foldl_addSubnet]
    cases b <;> rfl
  · rename_i h
    simp only [ne_eq, not_not, List.append_eq_nil_iff, List.map_eq_nil_iff] at h
    obtain ⟨rfl, rfl⟩ := h
    refine ⟨r.block, ?_⟩
    cases b <;> simp [addBlock, SortedList.addAll, pure, Except.pure]

/-! ## The round trip -/

/-- The same mode and, as sets, the same rules and imports. -/
structure Same (a b : Acl U) : Prop where
  bypass : b.bypass = a.bypass
  bypassHostnames : ∀ h, h ∈ b.bypassHostnames ↔ h ∈ a.bypassHostnames
  proxyHostnames : ∀ h, h ∈ b.proxyHostnames ↔ h ∈ a.proxyHostnames
  subnets : ∀ s, s ∈ b.subnets ↔ s ∈ a.subnets
  urls : ∀ u, u ∈ b.urls ↔ u ∈ a.urls

/-- The loop variables after the printed lines. -/
theorem parse_print (hP : P.Lawful) {a : Acl U} (hw : WellFormed P a) (d : Bool) :
    ∃ r, parse P (print P a) d = .ok r ∧ r.bypass = a.bypass ∧
      r.bypassHostnames = SortedList.addAll strLe [] a.bypassHostnames ∧
      r.proxyHostnames = SortedList.addAll strLe [] a.proxyHostnames ∧
      kept r = a.subnets ∧ r.urls = SortedList.addAll P.urlLe [] a.urls := by
  have hB : ∀ r : Reading U, readLine P r "[bypass_list]".toList = .ok { r with block := some .bypass } :=
    fun r => readLine_of_no_hash (by decide) (by decide)
  have hX : ∀ r : Reading U, readLine P r "[proxy_list]".toList = .ok { r with block := some .proxy } :=
    fun r => readLine_of_no_hash (by decide) (by decide)
  have hM : ∀ r : Reading U, readLine P r (modeLine a) = .ok { r with bypass := a.bypass } := by
    intro r
    unfold modeLine
    cases a.bypass with
    | true => exact readLine_of_no_hash (by decide) (by decide)
    | false => exact readLine_of_no_hash (by decide) (by decide)
  obtain ⟨hsub', hsub⟩ := readSubnet_of_mode hw
  obtain ⟨b1, h1⟩ := readBlock hP hB hsub' hw.bypassHost { (start d : Reading U) with bypass := a.bypass }
  set r1 := addBlock { (start d : Reading U) with bypass := a.bypass } .bypass
    (if a.bypass then [] else a.subnets) a.bypassHostnames b1 with hr1
  obtain ⟨b2, h2⟩ := readBlock hP hX hsub hw.proxyHost r1
  set r2 := addBlock r1 .proxy (if a.bypass then a.subnets else []) a.proxyHostnames b2 with hr2
  refine ⟨{ r2 with urls := SortedList.addAll P.urlLe r2.urls a.urls }, ?_, ?_⟩
  · unfold parse
    rw [print_eq, lines_unlines (isBreak_printLines hP hw)]
    unfold printLines
    rw [List.foldlM_append, List.foldlM_append, List.foldlM_append, bypassList_eq, proxyList_eq]
    simp only [List.foldlM_cons, List.foldlM_nil, hM, bind, Except.bind, pure, Except.pure, h1, h2]
    exact readImports hP hw.url r2
  · rw [hr2, hr1]
    cases a.bypass <;> simp [addBlock, start, kept]

/-- **Reading a printed ACL gives the same ACL**, whatever the default mode. -/
theorem fromReader_print (hP : P.Lawful) {a : Acl U} (hw : WellFormed P a) (d : Bool) :
    ∃ b, fromReader P (print P a) d = .ok b ∧ Same a b := by
  obtain ⟨r, hr, h1, h2, h3, h4, h5⟩ := parse_print hP hw d
  refine ⟨_, by unfold fromReader; rw [hr]; rfl, h1, ?_, ?_, ?_, ?_⟩
  · intro h; rw [h2, SortedList.mem_addAll]; simp
  · intro h; rw [h3, SortedList.mem_addAll]; simp
  · intro s; rw [SortedList.mem_addAll, h4]; simp
  · intro u; rw [h5, SortedList.mem_addAll]; simp

/-- What the getter of `customRules` returns after `a` was stored: `a` itself if it bypasses by
default, else its hostnames and imports in that mode, without subnets. -/
structure Restored (a b : Acl U) : Prop where
  bypass : b.bypass = true
  bypassHostnames : ∀ h, h ∈ b.bypassHostnames ↔ h ∈ a.bypassHostnames
  proxyHostnames : ∀ h, h ∈ b.proxyHostnames ↔ h ∈ a.proxyHostnames
  urls : ∀ u, u ∈ b.urls ↔ u ∈ a.urls
  subnets : if a.bypass then ∀ s, s ∈ b.subnets ↔ s ∈ a.subnets else b.subnets = []

theorem customRules_save (hP : P.Lawful) {a : Acl U} (hw : WellFormed P a) :
    ∃ b, customRules P (save P a) = .ok b ∧ Restored a b := by
  obtain ⟨b, hb, hsame⟩ := fromReader_print hP hw true
  refine ⟨_, by unfold customRules save; simp only [hb]; rfl, ?_⟩
  cases ha : a.bypass with
  | true =>
    have hbb : b.bypass = true := by rw [hsame.bypass, ha]
    simp only [hbb, Bool.not_true, Bool.false_eq_true, if_false]
    exact ⟨hbb, hsame.bypassHostnames, hsame.proxyHostnames, hsame.urls, by simp [ha, hsame.subnets]⟩
  | false =>
    have hbb : b.bypass = false := by rw [hsame.bypass, ha]
    simp only [hbb, Bool.not_false, if_true]
    exact ⟨rfl, hsame.bypassHostnames, hsame.proxyHostnames, hsame.urls, by simp [ha]⟩

/-- **The ACL text format round trip.** For every ACL that reading, copying and flattening make. -/
theorem print_roundtrip (hP : P.Lawful) {a : Acl U} (ha : Reachable P a) (d : Bool) :
    (∃ b, fromReader P (print P a) d = .ok b ∧ Same a b) ∧
      ∃ c, customRules P (save P a) = .ok c ∧ Restored a c :=
  ⟨fromReader_print hP ha.wellFormed d, customRules_save hP ha.wellFormed⟩

/-- A text with a subnet, a host rule with a comment, and an import. -/
def sampleText : Str :=
  "[bypass_all]\n[proxy_list]\n10.3.0.0/16\n(^|\\.)chrome\\.com$ # rule\n#IMPORT_URL <http://a/b>\n".toList

theorem print_roundtrip_sample :
    ∃ a, fromReader Platform.ipv4 sampleText false = .ok a ∧ a.subnets.length = 1 ∧ a.urls.length = 1 ∧
      (∃ b, fromReader Platform.ipv4 (print Platform.ipv4 a) false = .ok b ∧ Same a b) ∧
      ∃ c, customRules Platform.ipv4 (save Platform.ipv4 a) = .ok c ∧ Restored a c := by
  have hread : fromReader Platform.ipv4 sampleText false = .ok _ := rfl
  exact ⟨_, hread, by decide, by decide,
    print_roundtrip Platform.ipv4_lawful (.fromReader hread) false⟩

end Acl

end BlackButton
