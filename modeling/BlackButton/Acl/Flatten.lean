import BlackButton.Acl.RoundTrip

/-!
# Flattening network ACLs

The documents that an ACL imports form a graph, in general with cycles, and a
document without a mode directive takes the mode of its importer: which rules a
URL stands for depends on the chain by which it is reached. `Chain` is such a
chain, with a condition on each import.

`flatten_spec`: **flattening to depth `n` collects exactly what the chains of at
most `n` imports reach**: the hostnames along all chains, the subnets along the
chains that never change the mode.
-/

namespace BlackButton

namespace Acl

variable {U : Type} [DecidableEq U] {P : Platform U} {connect : U → Str}

/-- `doc` is reached from `a` by a chain of `k` imports, each of which satisfies `R` (importer,
imported). The imported document is read with the importer's mode as default. -/
inductive Chain (P : Platform U) (connect : U → Str) (R : Acl U → Acl U → Prop) : Acl U → ℕ → Acl U → Prop
  | here (a : Acl U) : Chain P connect R a 0 a
  | next {a child doc : Acl U} {u : U} {k : ℕ} : u ∈ a.urls →
      fromReader P (connect u) a.bypass = .ok child → R a child → Chain P connect R child k doc →
      Chain P connect R a (k + 1) doc

/-- Any import. -/
def AnyImport (_ _ : Acl U) : Prop := True

/-- An import that keeps the mode. -/
def KeepsMode (a child : Acl U) : Prop := child.bypass = a.bypass

/-- Along mode-keeping imports, all documents have the mode of the first. -/
theorem Chain.bypass_eq {a doc : Acl U} {k : ℕ} (h : Chain P connect KeepsMode a k doc) :
    doc.bypass = a.bypass := by
  induction h with
  | here a => rfl
  | next _ _ hR _ ih => rw [ih, hR]

/-- `x` is in the part `f` of a document reached by a chain of at most `n` imports. -/
def Collected (P : Platform U) (connect : U → Str) (R : Acl U → Acl U → Prop) {α : Type} (f : Acl U → List α)
    (n : ℕ) (a : Acl U) (x : α) : Prop :=
  ∃ k doc, k ≤ n ∧ Chain P connect R a k doc ∧ x ∈ f doc

/-- One more import: the document itself, or what its imports collect. -/
theorem collected_succ {R : Acl U → Acl U → Prop} {α : Type} {f : Acl U → List α} {n : ℕ} {a : Acl U}
    {x : α} : Collected P connect R f (n + 1) a x ↔
      x ∈ f a ∨ ∃ u ∈ a.urls, ∃ child, fromReader P (connect u) a.bypass = .ok child ∧ R a child ∧
        Collected P connect R f n child x := by
  constructor
  · rintro ⟨k, doc, hk, hc, hx⟩
    cases hc with
    | here => exact Or.inl hx
    | next hu hread hR hrest => exact Or.inr ⟨_, hu, _, hread, hR, _, doc, by omega, hrest, hx⟩
  · rintro (hx | ⟨u, hu, child, hread, hR, k, doc, hk, hc, hx⟩)
    · exact ⟨0, a, by omega, Chain.here a, hx⟩
    · exact ⟨k + 1, doc, by omega, Chain.next hu hread hR hc, hx⟩

theorem collected_zero {R : Acl U → Acl U → Prop} {α : Type} {f : Acl U → List α} {a : Acl U} {x : α} :
    Collected P connect R f 0 a x ↔ x ∈ f a := by
  constructor
  · rintro ⟨k, doc, hk, hc, hx⟩
    have : k = 0 := by omega
    subst this
    cases hc; exact hx
  · intro hx
    exact ⟨0, a, by omega, Chain.here a, hx⟩

/-- What `flatten` is for: the ACL `b` is `a` with its imports resolved to depth `n`. -/
structure Flattens (P : Platform U) (connect : U → Str) (n : ℕ) (a b : Acl U) : Prop where
  urls : b.urls = []
  bypass : b.bypass = a.bypass
  bypassHostnames : ∀ h, h ∈ b.bypassHostnames ↔
    Collected P connect AnyImport Acl.bypassHostnames n a h
  proxyHostnames : ∀ h, h ∈ b.proxyHostnames ↔
    Collected P connect AnyImport Acl.proxyHostnames n a h
  subnets : ∀ s, s ∈ b.subnets ↔ Collected P connect KeepsMode Acl.subnets n a s

omit [DecidableEq U] in
theorem mem_merge (a child : Acl U) :
    (∀ h, h ∈ (merge a child).bypassHostnames ↔ h ∈ a.bypassHostnames ∨ h ∈ child.bypassHostnames) ∧
    (∀ h, h ∈ (merge a child).proxyHostnames ↔ h ∈ a.proxyHostnames ∨ h ∈ child.proxyHostnames) ∧
    ∀ s, s ∈ (merge a child).subnets ↔ s ∈ a.subnets ∨ (child.bypass = a.bypass ∧ s ∈ child.subnets) := by
  unfold merge
  by_cases hb : a.bypass = child.bypass
  · simp [hb, SortedList.mem_addAll]
  · have hb' : ¬child.bypass = a.bypass := fun h => hb h.symm
    simp [hb, hb', SortedList.mem_addAll]

/-- What the imports `us` of a document with the mode of `a` collect. -/
def Imported (P : Platform U) (connect : U → Str) (R : Acl U → Acl U → Prop) {α : Type} (f : Acl U → List α)
    (n : ℕ) (a : Acl U) (us : List U) (x : α) : Prop :=
  ∃ u ∈ us, ∃ child, fromReader P (connect u) a.bypass = .ok child ∧ R a child ∧
    Collected P connect R f n child x

theorem not_imported_nil {R : Acl U → Acl U → Prop} {α : Type} {f : Acl U → List α} {n : ℕ} {a : Acl U}
    {x : α} : ¬Imported P connect R f n a [] x := by
  rintro ⟨u, hu, -⟩
  exact List.not_mem_nil hu

theorem imported_cons {R : Acl U → Acl U → Prop} {α : Type} {f : Acl U → List α} {n : ℕ}
    {a child : Acl U} {u : U} {us : List U} {x : α}
    (hread : fromReader P (connect u) a.bypass = .ok child) :
    Imported P connect R f n a (u :: us) x ↔
      (R a child ∧ Collected P connect R f n child x) ∨ Imported P connect R f n a us x := by
  constructor
  · rintro ⟨v, hv, c, hc, hR, hx⟩
    rcases List.mem_cons.1 hv with rfl | hv
    · rw [hread] at hc
      cases hc
      exact Or.inl ⟨hR, hx⟩
    · exact Or.inr ⟨v, hv, c, hc, hR, hx⟩
  · rintro (⟨hR, hx⟩ | ⟨v, hv, hrest⟩)
    · exact ⟨u, List.mem_cons_self, child, hread, hR, hx⟩
    · exact ⟨v, List.mem_cons_of_mem u hv, hrest⟩

/-- The loop of `flatten`, over any part of the URLs: each import adds what it collects. -/
theorem flatten_loop {n : ℕ} (hconnect : ∀ u d, ∃ a, fromReader P (connect u) d = .ok a)
    (ih : ∀ a, ∃ b, flatten P connect n a = .ok b ∧ Flattens P connect n a b) (us : List U) :
    ∀ acc : Acl U, ∃ b,
      us.foldlM (fun acc url => do
        let child ← fromReader P (connect url) acc.bypass
        let child ← flatten P connect n child
        .ok (merge acc child)) acc = .ok b ∧
      b.bypass = acc.bypass ∧
      (∀ h, h ∈ b.bypassHostnames ↔ h ∈ acc.bypassHostnames ∨
        Imported P connect AnyImport Acl.bypassHostnames n acc us h) ∧
      (∀ h, h ∈ b.proxyHostnames ↔ h ∈ acc.proxyHostnames ∨
        Imported P connect AnyImport Acl.proxyHostnames n acc us h) ∧
      ∀ s, s ∈ b.subnets ↔ s ∈ acc.subnets ∨ Imported P connect KeepsMode Acl.subnets n acc us s := by
  induction us with
  | nil =>
    intro acc
    exact ⟨acc, rfl, rfl, by simp [not_imported_nil], by simp [not_imported_nil],
      by simp [not_imported_nil]⟩
  | cons u us ihu =>
    intro acc
    obtain ⟨child, hread⟩ := hconnect u acc.bypass
    obtain ⟨flat, hflat, hf⟩ := ih child
    obtain ⟨m1, m2, m3⟩ := mem_merge acc flat
    -- the merge keeps the mode, so the rest of the imports are read as they would be from `acc`
    obtain ⟨b, hb, hby, h1, h2, h3⟩ := ihu (merge acc flat)
    refine ⟨b, ?_, hby, ?_, ?_, ?_⟩
    · rw [List.foldlM_cons, hread]
      show (flatten P connect n child >>= fun c => _) >>= _ = _
      rw [hflat]
      exact hb
    · intro h
      rw [h1, m1, hf.bypassHostnames, imported_cons hread, or_assoc]
      exact or_congr Iff.rfl (or_congr (Iff.intro (fun h => ⟨trivial, h⟩) And.right) Iff.rfl)
    · intro h
      rw [h2, m2, hf.proxyHostnames, imported_cons hread, or_assoc]
      exact or_congr Iff.rfl (or_congr (Iff.intro (fun h => ⟨trivial, h⟩) And.right) Iff.rfl)
    · intro s
      rw [h3, m3, hf.subnets, hf.bypass, imported_cons hread, or_assoc]
      exact Iff.rfl

/-- Flattening succeeds and collects what the chains reach. -/
theorem flatten_ok (hconnect : ∀ u d, ∃ a, fromReader P (connect u) d = .ok a) :
    ∀ n (a : Acl U), ∃ b, flatten P connect n a = .ok b ∧ Flattens P connect n a b := by
  intro n
  induction n with
  | zero =>
    intro a
    refine ⟨{ a with urls := [] }, rfl, rfl, rfl, ?_, ?_, ?_⟩
    · intro h; rw [collected_zero]
    · intro h; rw [collected_zero]
    · intro s; rw [collected_zero]
  | succ n ih =>
    intro a
    obtain ⟨b, hb, hby, h1, h2, h3⟩ := flatten_loop hconnect ih a.urls a
    refine ⟨{ b with urls := [] }, ?_, rfl, hby, ?_, ?_, ?_⟩
    · unfold flatten
      rw [hb]; rfl
    · intro h; rw [collected_succ]; exact h1 h
    · intro h; rw [collected_succ]; exact h2 h
    · intro s; rw [collected_succ]; exact h3 s

/-- **Flattening resolves the imports.** It succeeds whenever the imported texts can be read, keeps the
mode of the root, leaves no URL, and collects what the chains of at most `n` imports reach. In
particular nothing of the root is lost, and every subnet comes from a document with the root's mode. -/
theorem flatten_spec (P : Platform U) (connect : U → Str)
    (hconnect : ∀ u d, ∃ a, fromReader P (connect u) d = .ok a) (n : ℕ) (root : Acl U) :
    ∃ b, flatten P connect n root = .ok b ∧ Flattens P connect n root b ∧
      ((∀ h ∈ root.bypassHostnames, h ∈ b.bypassHostnames) ∧
        (∀ h ∈ root.proxyHostnames, h ∈ b.proxyHostnames) ∧ ∀ s ∈ root.subnets, s ∈ b.subnets) ∧
      ∀ s ∈ b.subnets, ∃ k doc, k ≤ n ∧ Chain P connect AnyImport root k doc ∧
        doc.bypass = root.bypass ∧ s ∈ doc.subnets := by
  obtain ⟨b, hb, hf⟩ := flatten_ok hconnect n root
  refine ⟨b, hb, hf, ⟨?_, ?_, ?_⟩, ?_⟩
  · intro h hh
    exact (hf.bypassHostnames h).2 ⟨0, root, Nat.zero_le n, Chain.here root, hh⟩
  · intro h hh
    exact (hf.proxyHostnames h).2 ⟨0, root, Nat.zero_le n, Chain.here root, hh⟩
  · intro s hs
    exact (hf.subnets s).2 ⟨0, root, Nat.zero_le n, Chain.here root, hs⟩
  · intro s hs
    obtain ⟨k, doc, hk, hc, hmem⟩ := (hf.subnets s).1 hs
    have hany : ∀ {a d : Acl U} {j : ℕ}, Chain P connect KeepsMode a j d → Chain P connect AnyImport a j d := by
      intro a d j hc
      induction hc with
      | here a => exact Chain.here a
      | next hu hread _ _ ih => exact Chain.next hu hread trivial ih
    exact ⟨k, doc, hk, hany hc, hc.bypass_eq, hmem⟩

/-- An import that refers to itself and changes the mode: a bypass rule and a subnet in bypass mode. -/
def selfImport : Str :=
  "[bypass_all]\n[proxy_list]\n10.3.0.0/16\n[bypass_list]\na\n#IMPORT_URL <http://a/b>\n".toList

/-- Every import leads back to the same document. -/
def connectSelf (_ : Str) : Str := selfImport

theorem flatten_spec_selfImport :
    (∀ u d, ∃ a, fromReader Platform.ipv4 (connectSelf u) d = .ok a) ∧
    ∃ root, fromReader Platform.ipv4 sampleText false = .ok root ∧ root.urls.length = 1 ∧
    ∃ b, flatten Platform.ipv4 connectSelf 2 root = .ok b ∧ Flattens Platform.ipv4 connectSelf 2 root b := by
  have hconnect : ∀ u d, ∃ a, fromReader Platform.ipv4 (connectSelf u) d = .ok a := by
    intro u d
    cases d
    · exact ⟨_, rfl⟩
    · exact ⟨_, rfl⟩
  have hread : fromReader Platform.ipv4 sampleText false = .ok _ := rfl
  obtain ⟨b, hb, hf, -⟩ := flatten_spec Platform.ipv4 connectSelf hconnect 2 _
  exact ⟨hconnect, _, hread, by decide, b, hb, hf⟩

end Acl

end BlackButton
