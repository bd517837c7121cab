import BlackButton.Share.RoundTrip

/-!
# Share links of older versions (`database/Profile.kt`)

The link of an older version has the Base64 text of `method:password@host:port` where a
link has its authority. The alphabet has `/`, at which the authority is over.

* `legacyMatch_link`: the groups of a complete text.
* `legacy_prefix`: no text that is cut off has these groups and the same port.
* `findAllUrls_legacy_iff`: **when a link of an older version is decoded.**
-/

namespace BlackButton

open Text

namespace Link

/-! ## The groups -/

variable {D : DigitClass}

/-- The groups of a match are the text; the host is not empty, and the last group is digits. -/
theorem legacyMatch_spec {s : Str} {g : Str × Str × Str × Str} (h : legacyMatch D s = some g) :
    s = g.1 ++ ':' :: (g.2.1 ++ '@' :: (g.2.2.1 ++ ':' :: g.2.2.2)) ∧ g.2.2.1 ≠ [] ∧ g.2.2.2 ≠ [] ∧
      ∀ c ∈ g.2.2.2, D.contains c = true := by
  unfold legacyMatch at h
  obtain ⟨g₁, hg₁, h⟩ := List.exists_of_findSome?_eq_some h
  split at h
  · obtain ⟨g₂, hg₂, h⟩ := List.exists_of_findSome?_eq_some h
    split at h
    · obtain ⟨g₃, hg₃, rfl⟩ := Option.map_eq_some_iff.1 h
      have hdigits := List.find?_some hg₃
      simp only [Bool.and_eq_true, decide_eq_true_eq, List.all_eq_true] at hdigits
      refine ⟨?_, hdigits.1.1.1, hdigits.1.2, hdigits.2⟩
      rw [eq_of_mem_splits hg₁, eq_of_mem_splits (List.mem_reverse.1 hg₂),
        eq_of_mem_splits (List.mem_of_find?_eq_some hg₃)]
    · cases h
  · cases h

/-- **The groups of a complete text**: the method ends at the first `:`, the password at the last `@`. -/
theorem legacyMatch_link {m pw h ds : Str} (hm : m ≠ []) (hcolon : ':' ∉ m) (hh : h ≠ []) (hat : '@' ∉ h)
    (hdm : isDots m = true) (hdpw : isDots pw = true) (hdh : isDots h = true) (hne : ds ≠ [])
    (hds : ∀ c ∈ ds, D.contains c = true) :
    legacyMatch D (m ++ ':' :: (pw ++ '@' :: (h ++ ':' :: ds))) = some (m, pw, h, ds) := by
  have hrest : '@' ∉ h ++ ':' :: ds := by
    rw [List.mem_append, List.mem_cons, not_or, not_or]
    exact ⟨hat, by decide, not_mem_of_forall hds (D.contains_ascii '@' (by decide))⟩
  have hcolon' : D.contains ':' = false := D.contains_ascii ':' (by decide)
  obtain ⟨gs, hgs, -⟩ := splits_concat hrest pw
  obtain ⟨gs', hgs', hmem⟩ := splits_concat (not_mem_of_forall hds hcolon') h
  have hport : (splits ':' (h ++ ':' :: ds)).find? (fun g =>
      g.1 ≠ [] && isDots g.1 && g.2 ≠ [] && g.2.all D.contains) = some (h, ds) := by
    have hbefore : ∀ g ∈ gs', ¬ (g.1 ≠ [] && isDots g.1 && g.2 ≠ [] && g.2.all D.contains) = true := by
      intro g hg hall
      rw [Bool.and_eq_true, List.all_eq_true] at hall
      exact absurd (hall.2 ':' (hmem g hg)) (by rw [hcolon']; decide)
    have hnone := List.find?_eq_none.2 hbefore
    rw [hgs', List.find?_append, hnone, Option.none_or]
    exact List.find?_cons_of_pos (by simp [hh, hdh, hne]; exact hds)
  unfold legacyMatch
  rw [splits_append hcolon, List.findSome?_cons, if_pos ⟨hm, hdm⟩]
  simp only
  rw [hgs, List.reverse_append, List.reverse_singleton, List.singleton_append, List.findSome?_cons, if_pos hdpw,
    hport]
  rfl

/-- A number that is cut off is not the number. -/
theorem eq_nil_of_decimal {ds e : Str} {n : ℕ} (h : ds ++ e = decimal n) (hpos : 1 ≤ n) (hle : n ≤ 2147483647)
    (hne : ds ≠ []) (hds : toInt ds = some (n : ℤ)) : e = [] := by
  have hdigits : ∀ c ∈ ds, c.isDigit = true := fun c hc =>
    isDigit_of_mem_decimal (h ▸ List.mem_append_left e hc)
  have hvalue : Nat.ofDigitChars 10 (ds ++ e) 0 = n := by
    rw [h]
    exact Nat.ofDigitChars_ten_toDigits
  rw [Nat.ofDigitChars_append, Nat.ofDigitChars_eq_ofDigitChars_zero] at hvalue
  have hpow : 0 < 10 ^ e.length := Nat.pow_pos (by decide)
  have hfirst : Nat.ofDigitChars 10 ds 0 ≤ 10 ^ e.length * Nat.ofDigitChars 10 ds 0 :=
    Nat.le_mul_of_pos_left _ hpow
  have hread := toInt_of_isDigit hne hdigits (by omega)
  rw [hds, Option.some.injEq, Int.natCast_inj] at hread
  rw [← hread] at hvalue
  by_contra hcut
  have hlen : 0 < e.length := List.length_pos_of_ne_nil hcut
  have htwo : 2 ≤ 10 ^ e.length := Nat.le_trans (by decide) (Nat.pow_le_pow_right (by decide : 0 < 10) hlen)
  have hdouble : 2 * n ≤ 10 ^ e.length * n := Nat.mul_le_mul_right n htwo
  omega

/-- A password does not start again after a `:`. -/
theorem password_ne {pw x r r' : Str} (hr : '@' ∉ r) : pw ++ '@' :: r ≠ x ++ ':' :: (pw ++ '@' :: r') := by
  intro heq
  have hcount := congrArg (List.count '@') heq
  simp only [List.count_append, List.count_cons_self, List.count_eq_zero_of_not_mem hr,
    List.count_cons_of_ne (show ':' ≠ '@' by decide)] at hcount
  have hr' : '@' ∉ r' := List.count_eq_zero.1 (by omega)
  rw [← List.cons_append, ← List.append_assoc] at heq
  have hlen := congrArg List.length (append_cons_inj hr hr' heq).1
  rw [List.length_append, List.length_cons] at hlen
  omega

/-- **No text that is cut off has the groups of the complete one**, with the same port. -/
theorem legacy_prefix {m m' pw h ds e : Str} {port : ℕ} (hcolon : ':' ∉ m) (hat : '@' ∉ h) (hport : 1 ≤ port)
    (hmax : port ≤ 65535) (hne : ds ≠ []) (hds : toInt ds = some (port : ℤ))
    (heq : m' ++ ':' :: (pw ++ '@' :: (h ++ ':' :: ds)) ++ e =
      m ++ ':' :: (pw ++ '@' :: (h ++ ':' :: decimal port))) : e = [] := by
  have hrest : '@' ∉ h ++ ':' :: decimal port := by
    rw [List.mem_append, List.mem_cons, not_or, not_or]
    exact ⟨hat, by decide, fun hmem => absurd (isDigit_of_mem_decimal hmem) (by decide)⟩
  simp only [List.append_assoc, List.cons_append] at heq
  rcases List.append_eq_append_iff.1 heq with ⟨x, hx, htail⟩ | ⟨x, hx, htail⟩
  · cases x with
    | nil =>
      have hdecimal : ds ++ e = decimal port := by simpa using htail
      exact eq_nil_of_decimal hdecimal hport (by omega) hne hds
    | cons c x =>
      rw [List.cons_append, List.cons.injEq] at htail
      exact absurd (hx ▸ List.mem_append_right m' (htail.1 ▸ List.mem_cons_self)) hcolon
  · cases x with
    | nil =>
      have hdecimal : ds ++ e = decimal port := by simpa using htail.symm
      exact eq_nil_of_decimal hdecimal hport (by omega) hne hds
    | cons c x =>
      rw [List.cons_append, List.cons.injEq] at htail
      exact absurd htail.2 (password_ne hrest)

/-! ## The authority -/

theorem inEnd_of_isStandard {c : Char} (h : Base64.isStandard c = true) : inEnd c = true := by
  simp only [Base64.isStandard, Bool.or_eq_true, decide_eq_true_eq] at h
  rcases h with (h | rfl) | rfl
  · rw [inEnd, Profile.isAlphanum_of_commonValue h, Bool.true_or]
  · decide
  · decide

/-- **An authority of Base64 text** is a host without user information. -/
theorem readLink_standard (P : LinkPlatform) {uri a : Str} (h : authority uri = a)
    (ha : ∀ c ∈ a, Base64.isStandard c = true) :
    userInfo P uri = none ∧ Link.host P uri = a := by
  have hsplits : splits '@' (authority uri) = [] := by
    rw [h]
    exact splits_of_not_mem (not_mem_of_forall ha (by decide))
  have hhost : hostAndPort uri = a := by
    unfold hostAndPort
    rw [hsplits, h]
    rfl
  have hport : (a.rdropWhile Char.isDigit).getLast? ≠ some ':' := by
    intro hlast
    have hmem : ':' ∈ a := (List.rdropWhile_prefix _ a).subset (List.mem_of_getLast? hlast)
    exact not_mem_of_forall ha (by decide) hmem
  constructor
  · unfold userInfo
    rw [hsplits]
    rfl
  · unfold Link.host
    simp only [hhost, hport, if_false]
    exact decode_plain P (not_mem_of_forall ha (by decide))

end Link

/-! ## Links -/

/-- The server in a link of an older version. -/
structure LegacyServer (P : LinkPlatform) where
  method : Str
  password : Str
  host : Str
  port : ℕ
  method_ne : method ≠ []
  method_colon : ':' ∉ method
  lowercase : P.lowercase method = method
  host_ne : host ≠ []
  host_at : '@' ∉ host
  one_le : 1 ≤ port
  port_le : port ≤ 65535
  method_dots : ∀ c ∈ method, isTerminator c = false
  password_dots : ∀ c ∈ password, isTerminator c = false
  host_dots : ∀ c ∈ host, isTerminator c = false

namespace LegacyServer

variable {P : LinkPlatform} (s : LegacyServer P)

/-- `method:password@host:port`. -/
def credentials : Str := s.method ++ ':' :: (s.password ++ '@' :: (s.host ++ ':' :: decimal s.port))

/-- Its Base64 text, unpadded and unwrapped. -/
def encoded : Str := Base64.encode Base64.standard (utf8 s.credentials)

/-- The link, with a fragment. -/
def link (fragment : Option Str) : Str := Link.scheme ++ s.encoded ++ fragment.elim [] fun t => '#' :: t

end LegacyServer

namespace Profile

open Link

/-- A fragment of unreserved characters that can be the end of a link. -/
structure IsFragment (t : Str) : Prop where
  unreserved : ∀ c ∈ t, (c.isAlphanum || ['-', '.', '_', '~'].contains c) = true
  inEnd : ∀ c ∈ t.getLast?, Link.inEnd c = true

/-- The profile has the data of the link. -/
structure SameServer {P : LinkPlatform} (s : LegacyServer P) (fragment : Option Str) (p : Profile) : Prop where
  method : p.method = s.method
  password : p.password = s.password
  host : p.host = s.host
  remotePort : p.remotePort = s.port
  name : p.name = fragment

section Legacy

variable {P : LinkPlatform} (s : LegacyServer P) {f : Option Str}

theorem encode_fragment {t : Str} (ht : IsFragment t) : Link.encode t = t := by
  have hun : ∀ c ∈ t, isUnreserved c = true := by
    intro c hc
    have hor := ht.unreserved c hc
    rw [Bool.or_eq_true, List.contains_iff_mem] at hor
    rcases hor with h | h
    · rw [isUnreserved, h, Bool.true_or]
    · have hall : ∀ c ∈ ['-', '.', '_', '~'], isUnreserved c = true := forall_mem_of_all (by decide)
      exact hall c h
  have hchar : ∀ c ∈ t, Percent.encodeChar isUnreserved c = [c] := fun c hc => if_pos (hun c hc)
  unfold Link.encode Percent.encode
  rw [List.flatMap_congr hchar, List.flatMap_singleton']

/-- The link is one that `Uri.Builder` could build. -/
theorem link_eq (hf : ∀ t ∈ f, IsFragment t) : s.link f = scheme ++ (s.encoded ++ parameters none f) := by
  unfold LegacyServer.link parameters
  rw [List.append_assoc, Option.elim_none, List.nil_append]
  cases f with
  | none => rfl
  | some t =>
    rw [Option.elim_some, Option.elim_some, encode_fragment (hf t rfl)]

theorem isStandard_encoded : ∀ c ∈ s.encoded, Base64.isStandard c = true := fun _ hc => Base64.isStandard_encode hc

theorem encoded_ne_nil : s.encoded ≠ [] := by
  intro hnil
  have hdecode : Base64.decode Base64.standard s.encoded = some (utf8 s.credentials) := Base64.decode_encode _ _
  rw [hnil] at hdecode
  have hempty : utf8 s.credentials = utf8 [] := (Option.some.inj hdecode).symm
  have hpre : utf8 s.credentials <+: utf8 [] := hempty ▸ List.prefix_refl (utf8 s.credentials)
  have hcredentials := List.prefix_nil.1 (utf8_prefix_iff.1 hpre)
  exact s.method_ne (List.append_eq_nil_iff.1 hcredentials).1

/-- The whole text is found, and nothing else. -/
theorem findAll_legacy (hf : ∀ t ∈ f, IsFragment t) : findAll 0 (s.link f) = [s.link f] := by
  have hlink : ∀ c ∈ s.encoded ++ parameters none f, inLink c = true := by
    intro c hc
    rcases List.mem_append.1 hc with hc | hc
    · exact inLink_of_inEnd (inEnd_of_isStandard (isStandard_encoded s c hc))
    · exact inLink_parameters none f c hc
  have hend : ∀ c ∈ (s.encoded ++ parameters none f).getLast?, inEnd c = true := by
    intro c hc
    rw [List.getLast?_append, Option.mem_def] at hc
    unfold parameters at hc
    rw [Option.elim_none, List.nil_append] at hc
    cases f with
    | none => exact inEnd_of_isStandard (isStandard_encoded s c (List.mem_of_getLast? hc))
    | some t =>
      rw [Option.elim_some, encode_fragment (hf t rfl), List.getLast?_cons] at hc
      cases hlast : t.getLast? with
      | none =>
        rw [hlast] at hc
        cases hc
        decide
      | some d =>
        rw [hlast] at hc
        cases hc
        exact (hf t rfl).inEnd d hlast
  have hne : s.encoded ++ parameters none f ≠ [] := fun hnil => encoded_ne_nil s (List.append_eq_nil_iff.1 hnil).1
  have htrim : trimEnd (s.encoded ++ parameters none f) = s.encoded ++ parameters none f := by
    unfold trimEnd
    rw [List.rdropWhile_eq_self_iff]
    intro hne
    simpa using hend _ (List.getLast?_eq_some_getLast hne)
  have hstops : Stops [] := by
    intro c hc
    cases hc
  have hfind := findAll_link hlink (by rwa [htrim]) hstops
  rw [htrim, List.append_nil] at hfind
  rw [link_eq s hf, hfind]
  rfl

/-- **How a link is read** whose authority is a part of the Base64 text. -/
theorem readLink_legacy (feature : Option Profile) {uri a : Str} (h : authority uri = a)
    (ha : ∀ c ∈ a, Base64.isStandard c = true) :
    readLink P feature uri = (Base64.decode Base64.standard a).bind fun bs =>
      (legacyMatch P.digits (Link.text P bs)).bind fun g =>
        (toInt g.2.2.2).map fun port =>
          { blank feature with
            method := P.lowercase g.1
            password := g.2.1
            host := g.2.2.1
            remotePort := port
            plugin := getQueryParameter P uri pluginKey
            name := fragment P uri } := by
  obtain ⟨hinfo, hhost⟩ := readLink_standard P h ha
  unfold readLink
  rw [hinfo]
  unfold readLegacy
  rw [hhost]

/-- A text without a slash is an authority. -/
theorem readLink_of_not_mem (feature : Option Profile) (hf : ∀ t ∈ f, IsFragment t) (h : '/' ∉ s.encoded) :
    ∃ p, readLink P feature (s.link f) = some p ∧ SameServer s f p := by
  have hstandard := isStandard_encoded s
  have hplain : Plain s.encoded := by
    intro c hc
    refine ⟨inLink_of_inEnd (inEnd_of_isStandard (hstandard c hc)), ?_, ?_, ?_⟩
    · rintro rfl
      exact h hc
    · rintro rfl
      exact not_mem_of_forall hstandard (by decide) hc
    · rintro rfl
      exact not_mem_of_forall hstandard (by decide) hc
  have hbuild : s.link f = build s.encoded none f := by rw [link_eq s hf, build_eq]
  have hgroups : legacyMatch P.digits s.credentials = some (s.method, s.password, s.host, decimal s.port) :=
    legacyMatch_link s.method_ne s.method_colon s.host_ne s.host_at (isDots_of_forall s.method_dots)
      (isDots_of_forall s.password_dots) (isDots_of_forall s.host_dots) (decimal_ne_nil _) fun c hc =>
        P.digits.contains_of_isDigit (isDigit_of_mem_decimal hc)
  have hport : toInt (decimal s.port) = some (s.port : ℤ) := toInt_decimal (by have := s.port_le; omega)
  have hdecode : Base64.decode Base64.standard s.encoded = some (utf8 s.credentials) := Base64.decode_encode _ _
  rw [hbuild, readLink_legacy feature (authority_build hplain none f) hstandard, hdecode, Option.bind_some,
    text_utf8, hgroups, Option.bind_some, hport, Option.map_some, fragment_build P hplain]
  exact ⟨_, rfl, s.lowercase, rfl, rfl, rfl, rfl⟩

/-- Malformed bytes at the end of a text are replaced. -/
def Replaces (P : LinkPlatform) : Prop :=
  ∀ t bs, bs <+: utf8 t → utf8Decode bs = none → (P.malformedBytes bs).getLast? = some '\uFFFD'

/-- **Bytes that are cut off** do not match as the same server. -/
theorem legacyMatch_cut (hP : Replaces P) {bs : List UInt8} (hpre : bs <+: utf8 s.credentials)
    (hcut : bs ≠ utf8 s.credentials) {g : Str × Str × Str × Str} (hg : legacyMatch P.digits (Link.text P bs) = some g)
    (hpassword : g.2.1 = s.password) (hhost : g.2.2.1 = s.host) : toInt g.2.2.2 ≠ some (s.port : ℤ) := by
  intro hport
  obtain ⟨htext, -, hne, hdigits⟩ := legacyMatch_spec hg
  cases hdecode : utf8Decode bs with
  | none =>
    -- the last character is no digit
    have hlast := hP s.credentials bs hpre hdecode
    have hbytes : Link.text P bs = P.malformedBytes bs := by
      unfold Link.text
      rw [hdecode]
      rfl
    rw [← hbytes, htext, List.getLast?_append_of_ne_nil _ (List.cons_ne_nil _ _), ← List.singleton_append,
      List.getLast?_append_of_ne_nil _ (by simp), List.getLast?_append_of_ne_nil _ (List.cons_ne_nil _ _),
      ← List.singleton_append, List.getLast?_append_of_ne_nil _ (by simp),
      List.getLast?_append_of_ne_nil _ (List.cons_ne_nil _ _), ← List.singleton_append,
      List.getLast?_append_of_ne_nil _ hne] at hlast
    exact absurd (hdigits _ (List.mem_of_getLast? hlast)) (by rw [P.digits.contains_replacement]; decide)
  | some t =>
    have ht : Link.text P bs = t := by
      unfold Link.text
      rw [hdecode]
      rfl
    have hbytes : utf8 t = bs := utf8_of_decode hdecode
    rw [← hbytes] at hpre hcut
    obtain ⟨e, he⟩ := utf8_prefix_iff.1 hpre
    have hwhole : e = [] := by
      rw [← ht, htext, hpassword, hhost] at he
      exact legacy_prefix s.method_colon s.host_at s.one_le s.port_le hne hport he
    rw [hwhole, List.append_nil] at he
    exact hcut (congrArg utf8 he)

/-- A text with a slash is cut off there, and read as another server if at all. -/
theorem not_sameServer_of_mem (hP : Replaces P) (feature : Option Profile) (h : '/' ∈ s.encoded) {p : Profile}
    (hp : readLink P feature (s.link f) = some p) : ¬ SameServer s f p := by
  intro hsame
  obtain ⟨a, b, hab, hslash⟩ := List.eq_append_cons_of_mem h
  have hstandard : ∀ c ∈ a, Base64.isStandard c = true := fun c hc =>
    isStandard_encoded s c (hab ▸ List.mem_append_left _ hc)
  have hauthority : authority (s.link f) = a := by
    have hdrop : (s.link f).drop 5 = a ++ '/' :: (b ++ f.elim [] fun t => '#' :: t) := by
      unfold LegacyServer.link
      rw [hab]
      simp [scheme]
    unfold authority
    rw [hdrop]
    apply takeWhile_stop
    · intro c hc
      have h1 : c ≠ '/' := fun heq => hslash (heq ▸ hc)
      have h2 : c ≠ '\\' := fun heq => not_mem_of_forall hstandard (by decide) (heq ▸ hc)
      have h3 : c ≠ '?' := fun heq => not_mem_of_forall hstandard (by decide) (heq ▸ hc)
      have h4 : c ≠ '#' := fun heq => not_mem_of_forall hstandard (by decide) (heq ▸ hc)
      simp [h1, h2, h3, h4]
    · intro c hc
      cases hc
      rfl
  rw [readLink_legacy feature hauthority hstandard] at hp
  obtain ⟨bs, hbs, hp⟩ := Option.bind_eq_some_iff.1 hp
  obtain ⟨g, hg, hp⟩ := Option.bind_eq_some_iff.1 hp
  obtain ⟨port, hport, rfl⟩ := Option.map_eq_some_iff.1 hp
  have htake : a = s.encoded.take a.length := by rw [hab, List.take_left]
  have hlen : a.length < s.encoded.length := by
    rw [hab, List.length_append, List.length_cons]
    omega
  rw [htake] at hbs
  obtain ⟨hpre, hcut⟩ := Base64.decode_take Base64.standard hlen hbs
  have hremote : port = s.port := hsame.remotePort
  exact legacyMatch_cut s hP hpre hcut hg hsame.password hsame.host (hremote ▸ hport)

/-- A link is one match of the expression. -/
theorem findAllUrls_legacy (feature : Option Profile) (hf : ∀ t ∈ f, IsFragment t) :
    findAllUrls P feature (s.link f) = (readLink P feature (s.link f)).toList := by
  unfold findAllUrls
  rw [findAll_legacy s hf]
  cases hread : readLink P feature (s.link f) with
  | none => rw [List.filterMap_cons_none hread]; rfl
  | some p => rw [List.filterMap_cons_some hread]; rfl

/-- **When a link of an older version is decoded**: its Base64 text has no slash. The platform is assumed to
replace malformed bytes. -/
theorem findAllUrls_legacy_iff (hP : Replaces P) (feature : Option Profile) (s : LegacyServer P)
    (hf : ∀ t ∈ f, IsFragment t) :
    (∃ p, findAllUrls P feature (s.link f) = [p] ∧ SameServer s f p) ↔ '/' ∉ s.encoded := by
  rw [findAllUrls_legacy s feature hf]
  constructor
  · rintro ⟨p, hlist, hsame⟩ hmem
    exact not_sameServer_of_mem s hP feature hmem (Option.toList_eq_singleton_iff.1 hlist) hsame
  · intro hnot
    obtain ⟨p, hread, hsame⟩ := readLink_of_not_mem s feature hf hnot
    exact ⟨p, by rw [hread, Option.toList_some], hsame⟩

end Legacy

/-! ## Two servers -/

/-- A platform that replaces malformed bytes. -/
def replacingPlatform : LinkPlatform := { serverPlatform with malformedBytes := fun _ => ['\uFFFD'] }

theorem replaces_replacingPlatform : Replaces replacingPlatform := fun _ _ _ _ => rfl

/-- A server of method `m` at `h:1`, with a password. -/
def legacyServer (password : Str) (h : ∀ c ∈ password, isTerminator c = false) :
    LegacyServer replacingPlatform where
  method := ['m']
  password := password
  host := ['h']
  port := 1
  method_ne := by decide
  method_colon := by decide
  lowercase := by decide
  host_ne := by decide
  host_at := by decide
  one_le := by decide
  port_le := by decide
  method_dots := forall_mem_of_all (by decide)
  password_dots := h
  host_dots := forall_mem_of_all (by decide)

/-- The password `@:`, with an empty fragment. -/
theorem findAllUrls_legacy_iff_at :
    ∃ p, findAllUrls replacingPlatform none
        ((legacyServer ['@', ':'] (forall_mem_of_all (by decide))).link (some [])) = [p] ∧
      SameServer (legacyServer ['@', ':'] (forall_mem_of_all (by decide))) (some []) p := by
  apply (findAllUrls_legacy_iff replaces_replacingPlatform none _ _).2
  · decide
  · intro t ht
    cases ht
    exact ⟨fun _ hc => absurd hc List.not_mem_nil, fun _ hc => by cases hc⟩

/-- The password `?`: the link is `ss://bTo/QGg6MQ`. -/
theorem findAllUrls_legacy_slash :
    ((legacyServer ['?'] (forall_mem_of_all (by decide))).link none = "ss://bTo/QGg6MQ".toList) ∧
      ¬ ∃ p, findAllUrls replacingPlatform none
          ((legacyServer ['?'] (forall_mem_of_all (by decide))).link none) = [p] ∧
        SameServer (legacyServer ['?'] (forall_mem_of_all (by decide))) none p := by
  refine ⟨by decide, ?_⟩
  rintro ⟨p, hlist, hsame⟩
  have hnone : ∀ t ∈ (none : Option Str), IsFragment t := by
    intro t ht
    cases ht
  rw [findAllUrls_legacy _ none hnone] at hlist
  have hread := Option.toList_eq_singleton_iff.1 hlist
  exact not_sameServer_of_mem _ replaces_replacingPlatform none (by decide) hread hsame

end Profile

end BlackButton
