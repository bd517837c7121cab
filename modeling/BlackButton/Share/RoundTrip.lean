import BlackButton.Share.Find

/-!
# The round trip of share links

`Uri.encode` leaves `_` and `!` as they are, but the expression that finds links does
not let a link end with them: they are cut off the end of a name, or of the plugin
options of a profile without a name.

* `readLink_build`: what a link is read as, whatever its query and fragment.
* `trimEnd_body`: what is found of a link.
-/

namespace BlackButton

open Text

namespace Link

/-! ## Characters -/

/-- The characters of encoded text. -/
def isEncoded (c : Char) : Bool := isUnreserved c || c = '%'

theorem isEncoded_encode {s : Str} {c : Char} (h : c ∈ encode s) : isEncoded c = true := by
  have hhex : ∀ n < 16, isEncoded (Percent.hexDigit n) = true := by decide
  rcases Percent.mem_encode h with h | rfl | ⟨n, hn, rfl⟩
  · simp [isEncoded, h]
  · decide
  · exact hhex n hn

theorem inLink_of_isEncoded {c : Char} (h : isEncoded c = true) : inLink c = true := by
  rw [isEncoded, Bool.or_eq_true, decide_eq_true_eq] at h
  rcases h with h | rfl
  · exact inLink_of_or (forall_mem_of_all (by decide)) h
  · decide

/-- A delimiter of links is not in encoded text. -/
theorem not_mem_encode {d : Char} (hd : isEncoded d = false) (s : Str) : d ∉ encode s :=
  not_mem_of_forall (fun _ hc => isEncoded_encode hc) hd

/-- What `Uri.encode` leaves as it is and a link cannot end with. -/
def isLost (c : Char) : Bool := c = '_' || c = '!'

theorem inEnd_of_isUnreserved {c : Char} (h : isUnreserved c = true) : inEnd c = !isLost c := by
  by_cases ha : c.isAlphanum = true
  · have h1 : c ≠ '_' := by rintro rfl; exact absurd ha (by decide)
    have h2 : c ≠ '!' := by rintro rfl; exact absurd ha (by decide)
    simp [inEnd, isLost, ha, h1, h2]
  · simp only [isUnreserved, ha, Bool.false_or, List.contains_iff_mem, List.mem_cons, List.not_mem_nil,
      or_false] at h
    rcases h with rfl | rfl | rfl | rfl | rfl | rfl | rfl | rfl | rfl <;> decide

/-! ## The parts of a link -/

section Parts

variable (P : LinkPlatform)

theorem decode_encode (plus : Bool) (s : Str) : decode P plus (encode s) = s := by
  have hallowed : ∀ c, isUnreserved c = true → c ≠ '%' ∧ c ≠ '+' := by
    intro c hc
    constructor
    · rintro rfl; exact absurd hc (by decide)
    · rintro rfl; exact absurd hc (by decide)
  have hbytes := Percent.bytes_encode plus hallowed s []
  simp only [List.append_nil, Percent.bytes, Option.map_some] at hbytes
  unfold decode encode
  rw [hbytes, Option.bind_some, utf8Decode_utf8, Option.getD_some]

theorem decode_plain {s : Str} (h : '%' ∉ s) : decode P false s = s := by
  unfold decode
  rw [Percent.bytes_plain h, Option.bind_some, utf8Decode_utf8, Option.getD_some]

theorem text_utf8 (s : Str) : text P (utf8 s) = s := by
  unfold text
  rw [utf8Decode_utf8, Option.getD_some]

end Parts

/-- The query and the fragment of a link. -/
def parameters (plugin fragment : Option Str) : Str :=
  plugin.elim [] (fun t => '?' :: pluginKey ++ '=' :: encode t) ++ fragment.elim [] (fun t => '#' :: encode t)

theorem build_eq (a : Str) (q f : Option Str) : build a q f = scheme ++ (a ++ parameters q f) := by
  simp [build, parameters]

/-- What an authority has none of. -/
def Plain (a : Str) : Prop := ∀ c ∈ a, inLink c = true ∧ c ≠ '/' ∧ c ≠ '?' ∧ c ≠ '#'

theorem authority_build {a : Str} (ha : Plain a) (q f : Option Str) : authority (build a q f) = a := by
  have hdrop : (build a q f).drop 5 = a ++ parameters q f := by
    rw [build_eq]
    simp [scheme]
  unfold authority
  rw [hdrop]
  apply takeWhile_stop
  · intro c hc
    obtain ⟨hlink, h1, h2, h3⟩ := ha c hc
    have h4 : c ≠ '\\' := by rintro rfl; exact absurd hlink (by decide)
    simp [h1, h2, h3, h4]
  · intro c hc
    unfold parameters at hc
    cases q with
    | some t => simp at hc; simp [← hc]
    | none =>
      cases f with
      | some t => simp at hc; simp [← hc]
      | none => cases hc

theorem not_mem_front {a : Str} (ha : Plain a) (q : Option Str) : '#' ∉ build a q none := by
  intro h
  simp only [build, Option.elim_none, List.append_nil, List.mem_append] at h
  rcases h with (h | h) | h
  · exact absurd h (by decide)
  · exact (ha _ h).2.2.2 rfl
  · cases q with
    | none => cases h
    | some t =>
      simp only [Option.elim_some, List.cons_append, List.mem_cons, List.mem_append] at h
      rcases h with h | h | h | h
      · exact absurd h (by decide)
      · exact absurd h (by decide)
      · exact absurd h (by decide)
      · exact not_mem_encode (by decide) t h

theorem splitOnce_build {a : Str} (ha : Plain a) (q f : Option Str) :
    splitOnce '#' (build a q f) = (build a q none, f.map encode) := by
  have hfront := not_mem_front ha q
  cases f with
  | none => exact splitOnce_of_not_mem hfront
  | some t =>
    have : build a q (some t) = build a q none ++ '#' :: encode t := by simp [build]
    rw [this, splitOnce_append hfront]
    rfl

theorem fragment_build (P : LinkPlatform) {a : Str} (ha : Plain a) (q f : Option Str) :
    fragment P (build a q f) = f := by
  unfold fragment
  rw [splitOnce_build ha, Option.map_map]
  cases f with
  | none => rfl
  | some t => simp [decode_encode]

theorem query_build {a : Str} (ha : Plain a) (q f : Option Str) :
    query (build a q f) = q.map fun t => pluginKey ++ '=' :: encode t := by
  have hfront : '?' ∉ scheme ++ a := by
    rw [List.mem_append, not_or]
    exact ⟨by decide, fun h => (ha _ h).2.2.1 rfl⟩
  unfold query
  rw [splitOnce_build ha]
  cases q with
  | none =>
    have : build a none none = scheme ++ a := by simp [build]
    rw [this, splitOnce_of_not_mem hfront]
    rfl
  | some t =>
    have : build a (some t) none = (scheme ++ a) ++ '?' :: (pluginKey ++ '=' :: encode t) := by simp [build]
    rw [this, splitOnce_append hfront]
    rfl

theorem getQueryParameter_build (P : LinkPlatform) {a : Str} (ha : Plain a) (q f : Option Str) :
    getQueryParameter P (build a q f) pluginKey = q := by
  unfold getQueryParameter
  rw [query_build ha]
  cases q with
  | none => rfl
  | some t =>
    have hamp : '&' ∉ pluginKey ++ '=' :: encode t := by
      rw [List.mem_append, List.mem_cons, not_or, not_or]
      exact ⟨by decide, by decide, not_mem_encode (by decide) t⟩
    have hkey : splitOnce '=' (pluginKey ++ '=' :: encode t) = (pluginKey, some (encode t)) :=
      splitOnce_append (by decide) _
    rw [Option.map_some, Option.bind_some, List.splitOn_eq_singleton hamp]
    simp [hkey, decode_encode]

theorem userInfo_build (P : LinkPlatform) {u h : Str} (ha : Plain (u ++ '@' :: h)) (hu : '@' ∉ u) (hh : '@' ∉ h)
    (hp : '%' ∉ u) (q f : Option Str) : userInfo P (build (u ++ '@' :: h) q f) = some u := by
  unfold userInfo
  rw [authority_build ha, splits_append hu, splits_of_not_mem hh]
  simp [decode_plain P hp]

theorem isDots_of_forall {s : Str} (h : ∀ c ∈ s, isTerminator c = false) : isDots s = true := by
  rw [isDots, List.all_eq_true]
  intro c hc
  rw [h c hc]
  rfl

theorem userInfoMatch_append {m pw : Str} (hne : m ≠ []) (hcolon : ':' ∉ m) (hm : isDots m = true)
    (hpw : isDots pw = true) : userInfoMatch (m ++ ':' :: pw) = some (m, pw) := by
  unfold userInfoMatch
  rw [splits_append hcolon]
  simp [hne, hm, hpw]

/-! ## What is found of a link -/

/-- The last character of an escape can end a link. -/
theorem trimEnd_encodeChar {c : Char} (h : isLost c = false) (x : Str) :
    trimEnd (x ++ Percent.encodeChar isUnreserved c) = x ++ Percent.encodeChar isUnreserved c := by
  unfold Percent.encodeChar
  by_cases hc : isUnreserved c = true
  · rw [if_pos hc]
    apply trimEnd_concat
    rw [inEnd_of_isUnreserved hc, h]
    rfl
  · rw [if_neg hc]
    have hne := String.utf8EncodeChar_ne_nil (c := c)
    obtain ⟨bs, b, hb⟩ := (List.eq_nil_or_concat' (String.utf8EncodeChar c)).resolve_left hne
    have hhex : ∀ n < 16, inEnd (Percent.hexDigit n) = true := by decide
    have hend := hhex (b.toNat % 16) (by omega)
    have htext : x ++ (String.utf8EncodeChar c).flatMap Percent.escape =
        (x ++ bs.flatMap Percent.escape ++ ['%', Percent.hexDigit (b.toNat / 16)]) ++
          [Percent.hexDigit (b.toNat % 16)] := by
      rw [hb]
      simp [Percent.escape]
    rw [htext, trimEnd_concat hend]

/-- **Of encoded text at the end of a link, only lost characters are cut off.** -/
theorem trimEnd_encode {e : Char} (he : inEnd e = true) (x s : Str) :
    trimEnd (x ++ e :: encode s) = x ++ e :: encode (s.rdropWhile isLost) := by
  induction s using List.reverseRecOn with
  | nil => exact trimEnd_concat he
  | append_singleton s c ih =>
    have hsplit : x ++ e :: encode (s ++ [c]) = (x ++ e :: encode s) ++ Percent.encodeChar isUnreserved c := by
      simp [encode, Percent.encode]
    by_cases hc : isLost c = true
    · have hun : isUnreserved c = true := by
        simp only [isLost, Bool.or_eq_true, decide_eq_true_eq] at hc
        rcases hc with rfl | rfl <;> decide
      have hend : inEnd c = false := by rw [inEnd_of_isUnreserved hun, hc]; rfl
      have hchar : Percent.encodeChar isUnreserved c = [c] := by simp [Percent.encodeChar, hun]
      have hcut : trimEnd ((x ++ e :: encode s) ++ [c]) = trimEnd (x ++ e :: encode s) :=
        List.rdropWhile_concat_pos _ _ _ (by simp [hend])
      rw [hsplit, hchar, hcut, ih, List.rdropWhile_concat_pos _ _ _ hc]
    · have hkeep := trimEnd_encodeChar (by simpa using hc) (x ++ e :: encode s)
      rw [hsplit, hkeep, List.rdropWhile_concat_neg _ _ _ hc, hsplit]

/-- The query and the fragment that are found of a link with these. -/
def found (plugin fragment : Option Str) : Option Str × Option Str :=
  match fragment with
  | some t => (plugin, some (t.rdropWhile isLost))
  | none => (plugin.map (List.rdropWhile isLost), none)

/-- What is found of a link: its last text is cut. -/
theorem trimEnd_body {a : Str} {e : Char} (he : inEnd e = true) (q f : Option Str) :
    trimEnd (a ++ [e] ++ parameters q f) = a ++ [e] ++ parameters (found q f).1 (found q f).2 := by
  cases f with
  | some t =>
    have := trimEnd_encode (e := '#') (by decide) (a ++ [e] ++ parameters q none) t
    simpa [parameters, found] using this
  | none =>
    cases q with
    | some t =>
      have := trimEnd_encode (e := '=') (by decide) (a ++ [e] ++ '?' :: pluginKey) t
      simpa [parameters, found] using this
    | none => simpa [parameters, found] using trimEnd_concat (x := a) he

/-- Nothing is lost exactly if the last text does not end with a lost character. -/
theorem found_eq_self {q f : Option Str} :
    found q f = (q, f) ↔ ∀ c, ((f.or q).getD []).getLast? = some c → isLost c = false := by
  have hkeep : ∀ t : Str, t.rdropWhile isLost = t ↔ ∀ c, t.getLast? = some c → isLost c = false := by
    intro t
    rw [List.rdropWhile_eq_self_iff]
    constructor
    · intro h c hc
      have hne : t ≠ [] := by rintro rfl; cases hc
      rw [List.getLast?_eq_some_getLast hne, Option.some.injEq] at hc
      rw [← hc]
      simpa using h hne
    · intro h hne
      rw [h _ (List.getLast?_eq_some_getLast hne)]
      simp
  cases f with
  | some t => simpa [found] using hkeep t
  | none =>
    cases q with
    | none => simp [found]
    | some t => simpa [found] using hkeep t

theorem inLink_parameters (q f : Option Str) : ∀ c ∈ parameters q f, inLink c = true := by
  intro c hc
  have henc : ∀ t : Str, c ∈ encode t → inLink c = true := fun t h => inLink_of_isEncoded (isEncoded_encode h)
  have hkey : ∀ c ∈ pluginKey, inLink c = true := forall_mem_of_all (by decide)
  rcases List.mem_append.1 hc with h | h
  · cases q with
    | none => cases h
    | some t =>
      simp only [Option.elim_some, List.cons_append, List.mem_cons, List.mem_append] at h
      rcases h with rfl | h | rfl | h
      · decide
      · exact hkey c h
      · decide
      · exact henc t h
  · cases f with
    | none => cases h
    | some t =>
      rcases List.mem_cons.1 h with rfl | h
      · decide
      · exact henc t h

end Link

namespace Profile

open Link

/-- The characters of a host: those of a name or an IPv4 address, or of an IPv6 address. -/
def isNameChar (c : Char) : Bool := c.isAlphanum || c = '-' || c = '.'

def isAddressChar (c : Char) : Bool := (Percent.hexValue c).isSome || c = ':' || c = '.'

/-- A host: a name, an IPv4 address or an IPv6 address. -/
def IsHost (host : Str) : Prop :=
  (host ≠ [] ∧ ∀ c ∈ host, isNameChar c = true) ∨ (':' ∈ host ∧ ∀ c ∈ host, isAddressChar c = true)

/-- A profile that can be shared. -/
structure Shareable (p : Profile) : Prop where
  host : IsHost p.host
  port : 1 ≤ p.remotePort ∧ p.remotePort ≤ 65535
  method_ne : p.method ≠ []
  method_colon : ':' ∉ p.method
  method : ∀ c ∈ p.method, isTerminator c = false
  password : ∀ c ∈ p.password, isTerminator c = false
  plugin : ∃ c, PluginConfiguration.parse (p.plugin.getD []) = some c

/-- What a profile and the profile read from its link have in common. A name that is null is the empty
name. -/
structure SameLink (H : HashOrder) (defaultConfig : Str → Option Str) (p r : Profile) : Prop where
  host : r.host = p.host
  remotePort : r.remotePort = p.remotePort
  method : r.method = p.method
  password : r.password = p.password
  name : r.name.getD [] = p.name.getD []
  plugin : some r.plugin = p.selectedText H defaultConfig

/-- The text that a link ends with: the name or, without one, the selected plugin options. -/
def lastText (H : HashOrder) (defaultConfig : Str → Option Str) (p : Profile) : Str :=
  (p.givenName.or ((p.selectedText H defaultConfig).getD none)).getD []

/-- The last text ends neither with `_` nor with `!`. -/
def EndsWell (H : HashOrder) (defaultConfig : Str → Option Str) (p : Profile) : Prop :=
  ∀ c, (p.lastText H defaultConfig).getLast? = some c → c ≠ '_' ∧ c ≠ '!'

/-! ## The authority -/

/-- The characters of the authority after `@`. -/
def isHostText (c : Char) : Bool := isNameChar c || isAddressChar c || c = '[' || c = ']'

theorem isAlphanum_iff {c : Char} : c.isAlphanum = true ↔
    ('A' ≤ c ∧ c ≤ 'Z') ∨ ('a' ≤ c ∧ c ≤ 'z') ∨ ('0' ≤ c ∧ c ≤ '9') := by
  have heq : c.isAlphanum = (decide ('A' ≤ c ∧ c ≤ 'Z') || decide ('a' ≤ c) && decide (c ≤ 'z') ||
      decide ('0' ≤ c) && decide (c ≤ '9')) := rfl
  rw [heq]
  simp only [Bool.or_eq_true, Bool.and_eq_true, decide_eq_true_eq, or_assoc]

theorem isAlphanum_of_hexValue {c : Char} (h : (Percent.hexValue c).isSome = true) : c.isAlphanum = true := by
  rw [isAlphanum_iff]
  unfold Percent.hexValue at h
  split_ifs at h with h1 h2 h3
  · exact Or.inr (Or.inr h1)
  · have hFZ : 'F' ≤ 'Z' := by decide
    exact Or.inl ⟨h2.1, Char.le_trans h2.2 hFZ⟩
  · have hfz : 'f' ≤ 'z' := by decide
    exact Or.inr (Or.inl ⟨h3.1, Char.le_trans h3.2 hfz⟩)
  · cases h

theorem isAlphanum_of_commonValue {c : Char} (h : (Base64.commonValue c).isSome = true) :
    c.isAlphanum = true := by
  rw [isAlphanum_iff]
  unfold Base64.commonValue at h
  split_ifs at h with h1 h2 h3
  · exact Or.inl h1
  · exact Or.inr (Or.inl h2)
  · exact Or.inr (Or.inr h3)
  · cases h

theorem inLink_of_isHostText {c : Char} (h : isHostText c = true) : inLink c = true := by
  simp only [isHostText, isNameChar, isAddressChar, Bool.or_eq_true, decide_eq_true_eq] at h
  rcases h with ((((h | rfl) | rfl) | (h | rfl) | rfl) | rfl) | rfl
  · exact inLink_of_isAlphanum h
  · decide
  · decide
  · exact inLink_of_isAlphanum (isAlphanum_of_hexValue h)
  all_goals decide

theorem inLink_of_isUrlSafe {c : Char} (h : Base64.isUrlSafe c = true) : inLink c = true := by
  simp only [Base64.isUrlSafe, Bool.or_eq_true, decide_eq_true_eq] at h
  rcases h with (h | rfl) | rfl
  · exact inLink_of_isAlphanum (isAlphanum_of_commonValue h)
  · decide
  · decide

theorem isHostText_of_isDigit {c : Char} (h : c.isDigit = true) : isHostText c = true := by
  simp [isHostText, isNameChar, Char.isAlphanum, h]

section Shareable

variable {p : Profile} (hp : Shareable p)
include hp

/-- The port is written with digits, and ends with one. -/
theorem Shareable.port_text : ∃ ds d, intText p.remotePort = ds ++ [d] ∧
    ∀ c ∈ ds ++ [d], c.isDigit = true := by
  obtain ⟨n, hn⟩ := Int.eq_ofNat_of_zero_le (show 0 ≤ p.remotePort by have := hp.port.1; omega)
  have htext : intText p.remotePort = decimal n := by rw [hn]; rfl
  obtain ⟨ds, d, hd⟩ := (List.eq_nil_or_concat' (decimal n)).resolve_left (decimal_ne_nil n)
  refine ⟨ds, d, by rw [htext, hd], ?_⟩
  rw [← hd]
  exact fun c hc => isDigit_of_mem_decimal hc

theorem Shareable.hostText : ∀ c ∈ p.wrappedHost ++ ':' :: intText p.remotePort, isHostText c = true := by
  have hhost : ∀ c ∈ p.host, isHostText c = true := by
    intro c hc
    rcases hp.host with ⟨-, h⟩ | ⟨-, h⟩
    · simp [isHostText, h c hc]
    · simp [isHostText, h c hc]
  have hwrapped : ∀ c ∈ p.wrappedHost, isHostText c = true := by
    unfold wrappedHost
    split
    · intro c hc
      simp only [List.cons_append, List.mem_cons, List.mem_append, List.not_mem_nil, or_false] at hc
      rcases hc with rfl | hc | rfl
      · decide
      · exact hhost c hc
      · decide
    · exact hhost
  obtain ⟨ds, d, htext, hdigits⟩ := hp.port_text
  intro c hc
  rcases List.mem_append.1 hc with hc | hc
  · exact hwrapped c hc
  · rcases List.mem_cons.1 hc with rfl | hc
    · decide
    · exact isHostText_of_isDigit (hdigits c (htext ▸ hc))

theorem Shareable.plain : Plain p.authorityText := by
  have hne : ∀ (q : Char → Bool) {c d : Char}, q c = true → q d = false → c ≠ d := by
    rintro q c d hc hd rfl
    rw [hc] at hd
    cases hd
  intro c hc
  rw [authorityText, List.append_assoc, List.mem_append, List.cons_append, List.mem_cons] at hc
  rcases hc with hc | rfl | hc
  · have hsafe := Base64.isUrlSafe_encode hc
    exact ⟨inLink_of_isUrlSafe hsafe, hne _ hsafe (by decide), hne _ hsafe (by decide), hne _ hsafe (by decide)⟩
  · decide
  · have htext := hp.hostText c hc
    exact ⟨inLink_of_isHostText htext, hne _ htext (by decide), hne _ htext (by decide),
      hne _ htext (by decide)⟩

theorem Shareable.userInfo (P : LinkPlatform) (q f : Option Str) :
    userInfo P (build p.authorityText q f) = some p.auth := by
  have hplain := hp.plain
  have hsafe : ∀ c ∈ p.auth, Base64.isUrlSafe c = true := fun c hc => Base64.isUrlSafe_encode hc
  rw [authorityText, List.append_assoc, List.cons_append] at hplain ⊢
  apply userInfo_build P hplain
  · exact not_mem_of_forall hsafe (by decide)
  · exact not_mem_of_forall hp.hostText (by decide)
  · exact not_mem_of_forall hsafe (by decide)

theorem Shareable.unwrappedHost : unwrappedHost p.wrappedHost = p.host := by
  unfold wrappedHost
  split
  · have hlast : ('[' :: p.host ++ [']']).getLast? = some ']' := List.getLast?_concat
    unfold Profile.unwrappedHost
    rw [if_pos ⟨rfl, hlast⟩]
    simp
  · rename_i hcolon
    rcases hp.host with ⟨hne, h⟩ | ⟨hc, -⟩
    · unfold Profile.unwrappedHost
      rw [if_neg]
      rintro ⟨hhead, -⟩
      have hmem : '[' ∈ p.host := List.mem_of_mem_head? hhead
      exact absurd (h _ hmem) (by decide)
    · exact absurd hc hcolon

/-- **How the link of a profile is read**, whatever its query and its fragment. -/
theorem Shareable.readLink (P : LinkPlatform) (feature : Option Profile) (q f : Option Str) :
    readLink P feature (build p.authorityText q f) = (P.javaURI (build p.authorityText q f)).map fun javaURI =>
      { blank feature with
        method := p.method
        password := p.password
        host := Profile.unwrappedHost (javaURI.1.getD [])
        remotePort := javaURI.2
        plugin := q
        name := some (f.getD []) } := by
  have hgroups := userInfoMatch_append hp.method_ne hp.method_colon (isDots_of_forall hp.method)
    (isDots_of_forall hp.password)
  unfold Profile.readLink
  rw [hp.userInfo P q f]
  simp only [readUserInfo, auth, Base64.decode_encode, Option.bind_some, text_utf8, hgroups,
    getQueryParameter_build P hp.plain, fragment_build P hp.plain]

/-- The selected options have a text. -/
theorem Shareable.selectedText (H : HashOrder) (defaultConfig : Str → Option Str) :
    ∃ t, p.selectedText H defaultConfig = some t := by
  obtain ⟨c, hc⟩ := hp.plugin
  obtain ⟨o, ho, -, -⟩ := PluginConfiguration.getOptions_selected hc defaultConfig
  unfold Profile.selectedText
  rw [hc, Option.bind_some]
  split
  · exact ⟨none, rfl⟩
  · exact ⟨_, by rw [ho]; rfl⟩

end Shareable

/-! ## The round trip -/

section RoundTrip

variable (P : LinkPlatform) (H : HashOrder) (defaultConfig : Str → Option Str) (feature : Option Profile)

/-- The link of a profile. -/
def link (p : Profile) : Str :=
  build p.authorityText ((p.selectedText H defaultConfig).getD none) p.givenName

/-- What is found of it. -/
def foundLink (p : Profile) : Str :=
  build p.authorityText (found ((p.selectedText H defaultConfig).getD none) p.givenName).1
    (found ((p.selectedText H defaultConfig).getD none) p.givenName).2

variable {P H defaultConfig}

theorem toString_eq {p : Profile} (hp : Shareable p) :
    p.toString H defaultConfig = some (p.link H defaultConfig) := by
  obtain ⟨t, ht⟩ := hp.selectedText H defaultConfig
  unfold toString link
  rw [ht]
  rfl

/-- The links that are found in the joined texts. -/
theorem findAll_links {ps : List Profile} (hps : ∀ p ∈ ps, Shareable p) :
    findAll 0 (List.intercalate ['\n'] (ps.map (link H defaultConfig))) = ps.map (foundLink H defaultConfig) := by
  let body (p : Profile) := p.authorityText ++ parameters ((p.selectedText H defaultConfig).getD none) p.givenName
  have htrim : ∀ p ∈ ps, scheme ++ trimEnd (body p) = p.foundLink H defaultConfig ∧ trimEnd (body p) ≠ [] := by
    intro p hp
    obtain ⟨ds, d, hport, hdigits⟩ := (hps p hp).port_text
    have hd : inEnd d = true := by
      have := hdigits d (by simp)
      simp [inEnd, Char.isAlphanum, this]
    have hauth : p.authorityText = (p.auth ++ '@' :: p.wrappedHost ++ ':' :: ds) ++ [d] := by
      rw [authorityText, hport]
      simp
    have hbody := trimEnd_body (a := p.auth ++ '@' :: p.wrappedHost ++ ':' :: ds) hd
      ((p.selectedText H defaultConfig).getD none) p.givenName
    rw [← hauth] at hbody
    refine ⟨?_, ?_⟩
    · rw [hbody, foundLink, build_eq]
    · rw [hbody, hauth]
      simp
  have hlink : ∀ p ∈ ps, link H defaultConfig p = scheme ++ body p := fun p _ => build_eq _ _ _
  have hbodies : ∀ b ∈ ps.map body, (∀ c ∈ b, inLink c = true) ∧ trimEnd b ≠ [] := by
    intro b hb
    obtain ⟨p, hp, rfl⟩ := List.mem_map.1 hb
    refine ⟨?_, (htrim p hp).2⟩
    intro c hc
    rcases List.mem_append.1 hc with hc | hc
    · exact ((hps p hp).plain c hc).1
    · exact inLink_parameters _ _ c hc
  have hjoin := findAll_join hbodies
  rw [List.map_map, List.map_map] at hjoin
  rw [List.map_congr_left hlink, List.map_congr_left fun p hp => (htrim p hp).1.symm]
  exact hjoin

/-- A profile is read back from its link exactly if the last text ends well. -/
theorem readLink_foundLink {p : Profile} (hp : Shareable p)
    (hP : P.javaURI (p.link H defaultConfig) = some (some p.wrappedHost, p.remotePort)) :
    (∃ r, readLink P feature (p.foundLink H defaultConfig) = some r ∧ SameLink H defaultConfig p r) ↔
      EndsWell H defaultConfig p := by
  obtain ⟨t, ht⟩ := hp.selectedText H defaultConfig
  have hends : EndsWell H defaultConfig p ↔ found t p.givenName = (t, p.givenName) := by
    rw [found_eq_self]
    simp [EndsWell, lastText, ht, isLost]
  have hfound : p.foundLink H defaultConfig =
      build p.authorityText (found t p.givenName).1 (found t p.givenName).2 := by
    rw [foundLink, ht, Option.getD_some]
  rw [hends, hfound, hp.readLink]
  constructor
  · rintro ⟨r, hr, hsame⟩
    obtain ⟨uri, -, rfl⟩ := Option.map_eq_some_iff.1 hr
    have hplugin : (found t p.givenName).1 = t := Option.some.inj (hsame.plugin.trans ht)
    have hname : (found t p.givenName).2.getD [] = p.name.getD [] := hsame.name
    apply Prod.ext hplugin
    cases hgiven : p.givenName with
    | none => rfl
    | some n =>
      have hn : p.name = some n := by
        unfold givenName at hgiven
        split at hgiven
        · cases hgiven
        · exact hgiven
      rw [hgiven, hn] at hname
      exact congrArg some hname
  · intro hself
    rw [link, ht, Option.getD_some] at hP
    rw [hself, hP, Option.map_some]
    refine ⟨_, rfl, hp.unwrappedHost, rfl, rfl, rfl, ?_, ht.symm⟩
    unfold givenName
    split
    · rename_i hnil
      rw [hnil]
      rfl
    · rfl

theorem findAllUrls_links {ps : List Profile} (hps : ∀ p ∈ ps, Shareable p) :
    findAllUrls P feature (List.intercalate ['\n'] (ps.map (link H defaultConfig))) =
      ps.filterMap fun p => readLink P feature (p.foundLink H defaultConfig) := by
  unfold findAllUrls
  rw [findAll_links hps, List.filterMap_map]
  rfl

/-- **The round trip of share links.** Profiles that can be shared are read back from their joined links,
each once and in order, exactly if no link ends with a character that is lost. `java.net.URI` is assumed to
report the host and the port of each link. -/
theorem findAllUrls_roundtrip {ps : List Profile} (hps : ∀ p ∈ ps, Shareable p)
    (hP : ∀ p ∈ ps, ∀ link, p.toString H defaultConfig = some link →
      P.javaURI link = some (some p.wrappedHost, p.remotePort)) :
    (∃ links, ps.mapM (toString H defaultConfig) = some links ∧
      List.Forall₂ (SameLink H defaultConfig) ps
        (findAllUrls P feature (List.intercalate ['\n'] links))) ↔
      ∀ p ∈ ps, EndsWell H defaultConfig p := by
  have hlinks : ps.mapM (toString H defaultConfig) = some (ps.map (link H defaultConfig)) :=
    mapM_eq_map fun p hp => toString_eq (hps p hp)
  have hread : ∀ p ∈ ps, (∃ r, readLink P feature (p.foundLink H defaultConfig) = some r ∧
      SameLink H defaultConfig p r) ↔ EndsWell H defaultConfig p := fun p hp =>
    readLink_foundLink feature (hps p hp) (hP p hp _ (toString_eq (hps p hp)))
  constructor
  · rintro ⟨links, hmap, hall⟩
    obtain rfl := Option.some.inj (hlinks.symm.trans hmap)
    rw [findAllUrls_links feature hps, forall₂_filterMap] at hall
    exact fun p hp => (hread p hp).1 (hall p hp)
  · intro hends
    refine ⟨_, hlinks, ?_⟩
    rw [findAllUrls_links feature hps, forall₂_filterMap]
    exact fun p hp => (hread p hp).2 (hends p hp)

end RoundTrip

/-! ## Two profiles -/

/-- A platform that reads authorities with a host and a port, and nothing of malformed text. -/
def serverPlatform : LinkPlatform where
  digits := .ten
  malformedBytes _ := []
  malformedEscapes _ _ := []
  lowercase s := s.map Char.toLower
  javaURI uri :=
    let rest := (hostAndPort uri).rdropWhile Char.isDigit
    (toInt ((hostAndPort uri).drop rest.length)).map fun port => (some rest.dropLast, port)

/-- A server with an IPv6 address and a plugin. -/
def bracketed : Profile :=
  { name := some ['a', '_', 'b', ' ', 'é'], host := [':', ':', '1'], remotePort := 8388, method := ['m', '-', '1'],
    password := ['p', ':', '@'], plugin := some ['v', ';', 't', '=', 'x', '!'] }

/-- A name that ends with `_`. -/
def underscored : Profile :=
  { name := some ['a', '_'], host := ['h', '.', 'x'], remotePort := 443, method := ['m'], password := ['p'] }

theorem shareable_bracketed : Shareable bracketed where
  host := Or.inr ⟨by decide, forall_mem_of_all (by decide)⟩
  port := by decide
  method_ne := by decide
  method_colon := by decide
  method := forall_mem_of_all (by decide)
  password := forall_mem_of_all (by decide)
  plugin := ⟨_, rfl⟩

theorem shareable_underscored : Shareable underscored where
  host := Or.inl ⟨by decide, forall_mem_of_all (by decide)⟩
  port := by decide
  method_ne := by decide
  method_colon := by decide
  method := forall_mem_of_all (by decide)
  password := forall_mem_of_all (by decide)
  plugin := ⟨_, rfl⟩

theorem hostAndPort_build {p : Profile} (hp : Shareable p) (q f : Option Str) :
    hostAndPort (build p.authorityText q f) = p.wrappedHost ++ ':' :: intText p.remotePort := by
  have hauth : '@' ∉ p.auth := fun h => absurd (Base64.isUrlSafe_encode h) (by decide)
  have hhost : '@' ∉ p.wrappedHost ++ ':' :: intText p.remotePort := fun h => absurd (hp.hostText _ h) (by decide)
  unfold hostAndPort
  rw [authority_build hp.plain, authorityText, List.append_assoc, List.cons_append, splits_append hauth,
    splits_of_not_mem hhost]
  rfl

/-- This platform reports the host and the port of every link that is written. -/
theorem javaURI_serverPlatform {p : Profile} (hp : Shareable p) (q f : Option Str) :
    serverPlatform.javaURI (build p.authorityText q f) = some (some p.wrappedHost, p.remotePort) := by
  obtain ⟨n, hn⟩ := Int.eq_ofNat_of_zero_le (show 0 ≤ p.remotePort by have := hp.port.1; omega)
  have htext : intText p.remotePort = decimal n := by rw [hn]; rfl
  have hsplit : p.wrappedHost ++ ':' :: decimal n = (p.wrappedHost ++ [':']) ++ decimal n := by simp
  have hrest : (p.wrappedHost ++ [':'] ++ decimal n).rdropWhile Char.isDigit = p.wrappedHost ++ [':'] := by
    have hdigits : ∀ c ∈ (decimal n).reverse, c.isDigit = true := fun c hc =>
      isDigit_of_mem_decimal (List.mem_reverse.1 hc)
    rw [List.rdropWhile, List.reverse_append, List.dropWhile_append_of_pos hdigits]
    exact List.rdropWhile_concat_neg _ _ _ (by decide)
  have hport : toInt (decimal n) = some p.remotePort := by
    rw [hn]
    exact toInt_decimal (by have := hp.port.2; omega)
  simp only [serverPlatform, hostAndPort_build hp, htext, hsplit, hrest, List.drop_left, hport, Option.map_some,
    List.dropLast_concat]

theorem findAllUrls_roundtrip_bracketed :
    ∃ links, [bracketed, bracketed].mapM (toString HashOrder.insertion fun _ => none) = some links ∧
      List.Forall₂ (SameLink HashOrder.insertion fun _ => none) [bracketed, bracketed]
        (findAllUrls serverPlatform none (List.intercalate ['\n'] links)) := by
  have hall : ∀ p ∈ [bracketed, bracketed], p = bracketed := by
    intro p hp
    simpa using hp
  refine (findAllUrls_roundtrip none ?_ ?_).2 ?_
  · intro p hp
    rw [hall p hp]
    exact shareable_bracketed
  · intro p hp link hlink
    rw [hall p hp] at hlink ⊢
    rw [toString_eq shareable_bracketed] at hlink
    cases hlink
    exact javaURI_serverPlatform shareable_bracketed _ _
  · intro p hp c hc
    rw [hall p hp] at hc
    cases hc
    decide

/-- The name `a_` is not read back. -/
theorem findAllUrls_underscored : Shareable underscored ∧
    (∀ link, underscored.toString HashOrder.insertion (fun _ => none) = some link →
      serverPlatform.javaURI link = some (some underscored.wrappedHost, underscored.remotePort)) ∧
    ¬ ∃ links, [underscored].mapM (toString HashOrder.insertion fun _ => none) = some links ∧
      List.Forall₂ (SameLink HashOrder.insertion fun _ => none) [underscored]
        (findAllUrls serverPlatform none (List.intercalate ['\n'] links)) := by
  have hone : ∀ p ∈ [underscored], Shareable p := by
    intro p hp
    rw [List.mem_singleton.1 hp]
    exact shareable_underscored
  refine ⟨shareable_underscored, ?_, ?_⟩
  · intro link hlink
    rw [toString_eq shareable_underscored] at hlink
    cases hlink
    exact javaURI_serverPlatform shareable_underscored _ _
  · rintro ⟨links, hmap, hall⟩
    have hlinks : [underscored].mapM (toString HashOrder.insertion fun _ => none) =
        some ([underscored].map (link HashOrder.insertion fun _ => none)) :=
      mapM_eq_map fun p hp => toString_eq (hone p hp)
    obtain rfl := Option.some.inj (hlinks.symm.trans hmap)
    rw [findAllUrls_links none hone, forall₂_filterMap] at hall
    have hends := (readLink_foundLink none shareable_underscored
      (javaURI_serverPlatform shareable_underscored _ _)).1 (hall _ (List.mem_singleton_self _))
    exact (hends '_' rfl).1 rfl

end Profile

end BlackButton
