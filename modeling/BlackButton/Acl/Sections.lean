import BlackButton.Acl.RoundTrip

/-!
# What an ACL text says (`acl/Acl.kt`)

A text is a list of rules, each in the section in force where it stands, of imports
and of modes. `Acl.parse` is compared with this reading of the text.

* `readLine_adds`, `parse_adds`: the lists of the loop grow by the rules and imports
  that were read.
* `fromReader_holds`: **the ACL holds what the text says**, and of the subnets those of
  the section that its final mode needs.
* `fromReader_same`: texts that say the same give the same ACL, whatever the order of
  their lines.
-/

namespace BlackButton

open Text

namespace Acl

variable {U : Type} {P : Platform U}

/-! ## The rules of a text -/

/-- What a line has before its comment. -/
def content (line : Str) : Str := trim (splitOnce '#' line).1

/-- The section after a line; `none` is `[outbound_block_list]`. A mode does not end a section. -/
def blockAfter (block : Option Block) (line : Str) : Option Block :=
  if content line = "[outbound_block_list]".toList then none
  else if content line = "[black_list]".toList ∨ content line = "[bypass_list]".toList then some .bypass
  else if content line = "[white_list]".toList ∨ content line = "[proxy_list]".toList then some .proxy
  else block

/-- The mode that a line sets. -/
def modeOf (line : Str) : Option Bool :=
  if content line = "[reject_all]".toList ∨ content line = "[bypass_all]".toList then some true
  else if content line = "[accept_all]".toList ∨ content line = "[proxy_all]".toList then some false
  else none

/-- The rule on a line, with the section that governs it. -/
def ruleOf (block : Option Block) (line : Str) : Option (Block × Str) :=
  if (content line).head? = some '[' ∨ content line = [] then none else block.map (·, content line)

/-- The rules of the lines, each with the section in force when it is read. -/
def rules : Option Block → List Str → List (Block × Str)
  | _, [] => []
  | block, line :: ls => (ruleOf block line).toList ++ rules (blockAfter block line) ls

/-- The `IMPORT_URL` directive in the comment of a line. -/
def directiveOf (line : Str) : Option Str := networkAclParser ((splitOnce '#' line).2.getD [])

/-- The section before the first line. -/
def firstBlock (defaultBypass : Bool) : Option Block := some (if defaultBypass then .proxy else .bypass)

/-- The rules of a text. -/
def textRules (text : Str) (defaultBypass : Bool) : List (Block × Str) :=
  rules (firstBlock defaultBypass) (lines text)

/-- The imports of a text. -/
def directives (text : Str) : List Str := (lines text).filterMap directiveOf

/-- The last mode of a text. -/
def lastMode (text : Str) : Option Bool := ((lines text).filterMap modeOf).getLast?

/-- The section whose subnets are kept in a mode. -/
def keptBlock (bypass : Bool) : Block := if bypass then .proxy else .bypass

/-! ## The lists of the loop -/

/-- The hostnames that were read in a section. -/
def hostsOf (r : Reading U) : Block → List Str
  | .bypass => r.bypassHostnames
  | .proxy => r.proxyHostnames

/-- The subnets that were read in a section. -/
def subnetsOf (r : Reading U) : Block → List Subnet
  | .bypass => r.bypassSubnets
  | .proxy => r.proxySubnets

/-- The lists after some rules and imports were read. -/
structure Adds (P : Platform U) (rs : List (Block × Str)) (specs : List Str) (r r' : Reading U) : Prop where
  hostnames : ∀ b h, h ∈ hostsOf r' b ↔
    h ∈ hostsOf r b ∨ ((b, h) ∈ rs ∧ Subnet.fromString P h = none)
  subnets : ∀ b s, s ∈ subnetsOf r' b ↔
    s ∈ subnetsOf r b ∨ ∃ rule, (b, rule) ∈ rs ∧ Subnet.fromString P rule = some s
  urls : ∀ u, u ∈ r'.urls ↔ u ∈ r.urls ∨ ∃ spec ∈ specs, P.url spec = some u

theorem Adds.refl (r : Reading U) : Adds P [] [] r r where
  hostnames := by simp
  subnets := by simp
  urls := by simp

theorem Adds.trans {rs rs' : List (Block × Str)} {specs specs' : List Str} {r r' r'' : Reading U}
    (h : Adds P rs specs r r') (h' : Adds P rs' specs' r' r'') :
    Adds P (rs ++ rs') (specs ++ specs') r r'' where
  hostnames b x := by
    rw [h'.hostnames, h.hostnames, List.mem_append, or_assoc, or_and_right]
  subnets b s := by
    rw [h'.subnets, h.subnets, or_assoc]
    simp only [List.mem_append, or_and_right, exists_or]
  urls u := by
    rw [h'.urls, h.urls, or_assoc]
    simp only [List.mem_append, or_and_right, exists_or]

/-- A header changes the section or the mode only. -/
theorem readHeader_adds {r r' : Reading U} {line : Str} (h : readHeader r (content line) = .ok r') :
    Adds P [] [] r r' ∧ r'.block = blockAfter r.block line ∧ r'.bypass = (modeOf line).getD r.bypass := by
  have hadds : ∀ (b : Option Block) (m : Bool), Adds P [] [] r { r with block := b, bypass := m } := by
    intro b m
    refine ⟨?_, ?_, ?_⟩
    · intro b x
      cases b <;> simp [hostsOf]
    · intro b s
      cases b <;> simp [subnetsOf]
    · simp
  unfold readHeader at h
  unfold blockAfter modeOf
  split at h
  · rename_i h1
    cases h
    refine ⟨hadds _ _, by rw [if_pos h1], ?_⟩
    rw [h1]
    rfl
  · rename_i h1
    rw [if_neg h1]
    split at h
    · rename_i h2
      cases h
      refine ⟨hadds _ _, by rw [if_pos h2], ?_⟩
      rcases h2 with h2 | h2 <;> rw [h2] <;> rfl
    · rename_i h2
      rw [if_neg h2]
      split at h
      · rename_i h3
        cases h
        refine ⟨hadds _ _, by rw [if_pos h3], ?_⟩
        rcases h3 with h3 | h3 <;> rw [h3] <;> rfl
      · rename_i h3
        rw [if_neg h3]
        split at h
        · rename_i h4
          cases h
          exact ⟨hadds _ _, rfl, by rw [if_pos h4]; rfl⟩
        · rename_i h4
          rw [if_neg h4]
          split at h
          · rename_i h5
            cases h
            exact ⟨hadds _ _, rfl, by rw [if_pos h5]; rfl⟩
          · cases h

theorem mem_hostsOf_addHost {r : Reading U} {b b' : Block} {x y : Str} :
    y ∈ hostsOf (addHost r b x) b' ↔ y ∈ hostsOf r b' ∨ (b' = b ∧ y = x) := by
  cases b <;> cases b' <;> simp [addHost, hostsOf, SortedList.mem_add]

theorem subnetsOf_addHost (r : Reading U) (b b' : Block) (x : Str) :
    subnetsOf (addHost r b x) b' = subnetsOf r b' := by
  cases b <;> cases b' <;> rfl

theorem hostsOf_addSubnet (r : Reading U) (b b' : Block) (s : Subnet) :
    hostsOf (addSubnet r b s) b' = hostsOf r b' := by
  cases b <;> cases b' <;> rfl

theorem mem_subnetsOf_addSubnet {r : Reading U} {b b' : Block} {s t : Subnet} :
    t ∈ subnetsOf (addSubnet r b s) b' ↔ t ∈ subnetsOf r b' ∨ (b' = b ∧ t = s) := by
  cases b <;> cases b' <;> simp [addSubnet, subnetsOf]

/-- One rule is added to the list of its section. -/
theorem addRule_adds (r : Reading U) (b : Block) (rule : Str) :
    Adds P [(b, rule)] [] r (match Subnet.fromString P rule with
      | none => addHost r b rule
      | some s => addSubnet r b s) := by
  cases hsub : Subnet.fromString P rule with
  | none =>
    refine ⟨?_, ?_, ?_⟩
    · intro b' y
      rw [mem_hostsOf_addHost, List.mem_singleton, Prod.mk.injEq]
      constructor
      · rintro (hy | ⟨hb, rfl⟩)
        · exact Or.inl hy
        · exact Or.inr ⟨⟨hb, rfl⟩, hsub⟩
      · rintro (hy | ⟨hy, -⟩)
        · exact Or.inl hy
        · exact Or.inr hy
    · intro b' t
      simp only [subnetsOf_addHost, List.mem_singleton, Prod.mk.injEq]
      constructor
      · exact Or.inl
      · rintro (ht | ⟨x, ⟨-, rfl⟩, hx⟩)
        · exact ht
        · rw [hsub] at hx
          cases hx
    · intro u
      cases b <;> simp [addHost]
  | some s =>
    refine ⟨?_, ?_, ?_⟩
    · intro b' y
      simp only [hostsOf_addSubnet, List.mem_singleton, Prod.mk.injEq]
      constructor
      · exact Or.inl
      · rintro (hy | ⟨⟨-, rfl⟩, hx⟩)
        · exact hy
        · rw [hsub] at hx
          cases hx
    · intro b' t
      simp only [mem_subnetsOf_addSubnet, List.mem_singleton, Prod.mk.injEq]
      constructor
      · rintro (ht | ⟨hb, rfl⟩)
        · exact Or.inl ht
        · exact Or.inr ⟨rule, ⟨hb, rfl⟩, hsub⟩
      · rintro (ht | ⟨x, ⟨hb, rfl⟩, hx⟩)
        · exact Or.inl ht
        · rw [hsub] at hx
          exact Or.inr ⟨hb, (Option.some.inj hx).symm⟩
    · intro u
      cases b <;> simp [addSubnet]

/-- A line that is no header adds its rule, if it has one. -/
theorem readRule_adds (r : Reading U) {line : Str} (h : (content line).head? ≠ some '[') :
    Adds P (ruleOf r.block line).toList [] r (readRule P r (content line)) ∧
      (readRule P r (content line)).block = r.block ∧ (readRule P r (content line)).bypass = r.bypass := by
  unfold readRule ruleOf
  cases hb : r.block with
  | none =>
    rw [Option.map_none, ite_self]
    exact ⟨Adds.refl r, hb, rfl⟩
  | some b =>
    by_cases hnil : content line = []
    · rw [if_pos (Or.inr hnil)]
      simp only [hnil, if_true]
      exact ⟨Adds.refl r, hb, trivial⟩
    · rw [if_neg (by simp [h, hnil])]
      simp only [hnil, if_false]
      refine ⟨addRule_adds r b (content line), ?_, ?_⟩
      · rw [← hb]
        split <;> cases b <;> rfl
      · split <;> cases b <;> rfl

variable [DecidableEq U]

/-- A comment changes the urls only. -/
theorem readComment_adds {r r' : Reading U} {line : Str}
    (h : readComment P r ((splitOnce '#' line).2.getD []) = .ok r') :
    Adds P [] (directiveOf line).toList r r' ∧ r'.block = r.block ∧ r'.bypass = r.bypass := by
  unfold readComment at h
  rw [← directiveOf] at h
  cases hspec : directiveOf line with
  | none =>
    rw [hspec] at h
    cases h
    exact ⟨Adds.refl r, rfl, rfl⟩
  | some spec =>
    rw [hspec] at h
    simp only at h
    cases hurl : P.url spec with
    | none =>
      rw [hurl] at h
      cases h
    | some u =>
      rw [hurl] at h
      cases h
      refine ⟨⟨?_, ?_, ?_⟩, rfl, rfl⟩
      · intro b x
        cases b <;> simp [hostsOf]
      · intro b s
        cases b <;> simp [subnetsOf]
      · intro v
        simp [SortedList.mem_add, hurl, eq_comm]

/-- **One turn of the loop** adds the rule and the import of its line. -/
theorem readLine_adds {r r' : Reading U} {line : Str} (h : readLine P r line = .ok r') :
    Adds P (ruleOf r.block line).toList (directiveOf line).toList r r' ∧
      r'.block = blockAfter r.block line ∧ r'.bypass = (modeOf line).getD r.bypass := by
  unfold readLine at h
  rw [Except.bind_eq_ok] at h
  obtain ⟨r₁, hcomment, h⟩ := h
  obtain ⟨hurl, hblock₁, hbypass₁⟩ := readComment_adds hcomment
  rw [← content] at h
  simp only at h
  split at h
  · rename_i hhead
    obtain ⟨hadds, hblock, hbypass⟩ := readHeader_adds h
    have hrule : ruleOf r.block line = none := by
      unfold ruleOf
      rw [if_pos (Or.inl hhead)]
    rw [hrule, Option.toList_none, hblock, hbypass, hblock₁, hbypass₁]
    refine ⟨?_, rfl, rfl⟩
    have := hurl.trans hadds
    rwa [List.append_nil, List.append_nil] at this
  · rename_i hhead
    cases h
    obtain ⟨hadds, hblock, hbypass⟩ := readRule_adds (P := P) r₁ hhead
    have hne : ∀ t : Str, t.head? = some '[' → content line ≠ t := by
      rintro t ht rfl
      exact hhead ht
    have hafter : blockAfter r.block line = r.block := by
      unfold blockAfter
      rw [if_neg (hne _ rfl), if_neg (by simp only [not_or]; exact ⟨hne _ rfl, hne _ rfl⟩),
        if_neg (by simp only [not_or]; exact ⟨hne _ rfl, hne _ rfl⟩)]
    have hmode : modeOf line = none := by
      unfold modeOf
      rw [if_neg (by simp only [not_or]; exact ⟨hne _ rfl, hne _ rfl⟩),
        if_neg (by simp only [not_or]; exact ⟨hne _ rfl, hne _ rfl⟩)]
    rw [hblock, hbypass, hblock₁, hbypass₁, hafter, hmode]
    refine ⟨?_, rfl, rfl⟩
    have := hurl.trans hadds
    rwa [List.nil_append, List.append_nil, hblock₁] at this

/-- **The loop** adds the rules and the imports of its lines, and the last mode counts. -/
theorem foldlM_adds {ls : List Str} {r r' : Reading U} (h : ls.foldlM (readLine P) r = .ok r') :
    Adds P (rules r.block ls) (ls.filterMap directiveOf) r r' ∧
      r'.bypass = ((ls.filterMap modeOf).getLast?).getD r.bypass := by
  induction ls generalizing r with
  | nil =>
    cases h
    exact ⟨Adds.refl _, rfl⟩
  | cons line ls ih =>
    rw [List.foldlM_cons, Except.bind_eq_ok] at h
    obtain ⟨r₁, hline, h⟩ := h
    obtain ⟨hadds, hblock, hbypass⟩ := readLine_adds hline
    obtain ⟨hrest, hmode⟩ := ih h
    have hdirectives : (line :: ls).filterMap directiveOf =
        (directiveOf line).toList ++ ls.filterMap directiveOf := by
      cases hd : directiveOf line <;> simp [hd]
    constructor
    · rw [rules, hdirectives, ← hblock]
      exact hadds.trans hrest
    · rw [hmode, hbypass]
      cases hm : modeOf line with
      | none => rw [List.filterMap_cons_none hm, Option.getD_none]
      | some m =>
        rw [List.filterMap_cons_some hm, List.getLast?_cons, Option.getD_some, Option.getD_some]

/-! ## Texts that say the same -/

/-- What an ACL has from a text. -/
structure Holds (P : Platform U) (text : Str) (defaultBypass : Bool) (a : Acl U) : Prop where
  bypass : a.bypass = (lastMode text).getD defaultBypass
  bypassHostnames : ∀ h, h ∈ a.bypassHostnames ↔
    (.bypass, h) ∈ textRules text defaultBypass ∧ Subnet.fromString P h = none
  proxyHostnames : ∀ h, h ∈ a.proxyHostnames ↔
    (.proxy, h) ∈ textRules text defaultBypass ∧ Subnet.fromString P h = none
  subnets : ∀ s, s ∈ a.subnets ↔
    ∃ rule, (keptBlock a.bypass, rule) ∈ textRules text defaultBypass ∧ Subnet.fromString P rule = some s
  urls : ∀ u, u ∈ a.urls ↔ ∃ spec ∈ directives text, P.url spec = some u

/-- **An ACL holds what its text says**: the rules of both sections, and of the subnets those
governed by the section opposite to the final mode. -/
theorem fromReader_holds {text : Str} {defaultBypass : Bool} {a : Acl U}
    (h : fromReader P text defaultBypass = .ok a) : Holds P text defaultBypass a := by
  unfold fromReader at h
  rw [Except.bind_eq_ok] at h
  obtain ⟨r, hparse, h⟩ := h
  cases h
  obtain ⟨hadds, hbypass⟩ := foldlM_adds hparse
  have hadds : Adds P (textRules text defaultBypass) (directives text) (start defaultBypass) r := hadds
  have hhosts : ∀ b, hostsOf (start (U := U) defaultBypass) b = [] := by
    intro b
    cases b <;> rfl
  have hsubnets : ∀ b, subnetsOf (start (U := U) defaultBypass) b = [] := by
    intro b
    cases b <;> rfl
  have hkept : kept r = subnetsOf r (keptBlock r.bypass) := by
    unfold kept keptBlock
    cases r.bypass <;> rfl
  refine ⟨hbypass, ?_, ?_, ?_, ?_⟩
  · intro x
    have := hadds.hostnames .bypass x
    rwa [hhosts, or_iff_right List.not_mem_nil] at this
  · intro x
    have := hadds.hostnames .proxy x
    rwa [hhosts, or_iff_right List.not_mem_nil] at this
  · intro s
    have := hadds.subnets (keptBlock r.bypass) s
    rw [hsubnets, or_iff_right List.not_mem_nil] at this
    rw [SortedList.mem_addAll, or_iff_right List.not_mem_nil, hkept]
    exact this
  · intro u
    have := hadds.urls u
    rwa [start, or_iff_right List.not_mem_nil] at this

/-- **The order of rules and sections does not matter.** Texts with the same rules in the same
sections, the same imports and the same last mode give the same ACL; its mode is the last
one of the text, and its subnets are those of the section opposite to that mode. -/
theorem fromReader_same {text text' : Str} {defaultBypass : Bool} {a a' : Acl U}
    (ha : fromReader P text defaultBypass = .ok a) (ha' : fromReader P text' defaultBypass = .ok a')
    (hrules : ∀ p, p ∈ textRules text defaultBypass ↔ p ∈ textRules text' defaultBypass)
    (hurls : ∀ spec, spec ∈ directives text ↔ spec ∈ directives text')
    (hmode : lastMode text = lastMode text') :
    Same a a' ∧ a.bypass = (lastMode text).getD defaultBypass ∧
      ∀ s, s ∈ a.subnets ↔ ∃ rule, (keptBlock ((lastMode text).getD defaultBypass), rule) ∈
        textRules text defaultBypass ∧ Subnet.fromString P rule = some s := by
  have h := fromReader_holds ha
  have h' := fromReader_holds ha'
  have hbypass : a'.bypass = a.bypass := by rw [h.bypass, h'.bypass, hmode]
  have hsubnets := h.subnets
  rw [h.bypass] at hsubnets
  refine ⟨⟨hbypass, ?_, ?_, ?_, ?_⟩, h.bypass, hsubnets⟩
  · intro x
    rw [h'.bypassHostnames, h.bypassHostnames, hrules]
  · intro x
    rw [h'.proxyHostnames, h.proxyHostnames, hrules]
  · intro s
    rw [h'.subnets, h.subnets, hbypass]
    simp only [hrules]
  · intro u
    rw [h'.urls, h.urls]
    simp only [hurls]

/-- The mode stands before the section. -/
def modeFirst : Str := "[bypass_all]\n[proxy_list]\n10.3.0.0/16\nb".toList

/-- The mode stands after it, and the rules are in another order. -/
def modeLast : Str := "[proxy_list]\nb\nb\n10.3.0.0/16\n[bypass_all]".toList

theorem fromReader_same_modeFirst :
    ∃ a a', fromReader Platform.ipv4 modeFirst false = .ok a ∧
      fromReader Platform.ipv4 modeLast false = .ok a' ∧ a.subnets.length = 1 ∧ a.bypass = true ∧ Same a a' := by
  have h : fromReader Platform.ipv4 modeFirst false = .ok _ := rfl
  have h' : fromReader Platform.ipv4 modeLast false = .ok _ := rfl
  have hrules : textRules modeFirst false ⊆ textRules modeLast false := by decide +kernel
  have hrules' : textRules modeLast false ⊆ textRules modeFirst false := by decide +kernel
  have hurls : directives modeFirst = directives modeLast := by decide +kernel
  have hmode : lastMode modeFirst = lastMode modeLast := by decide +kernel
  exact ⟨_, _, h, h', rfl, rfl, (fromReader_same h h' (fun p => ⟨fun hp => hrules hp, fun hp => hrules' hp⟩)
    (fun spec => by rw [hurls]) hmode).1⟩

end Acl

end BlackButton
