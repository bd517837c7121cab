import BlackButton.Database.Handed
import BlackButton.Share.Legacy

/-!
# Which imported profiles can be used (`database/Profile.kt`)

A link is decoded by a regular expression with `toInt`, or by `java.net.URI` with `null`
and -1 for what is missing; neither is checked.

* `ReadsServers`: what `java.net.URI` documents of the host and the port.
* `usable_links_iff`: the profiles of a text.
* `usable_iff`: **imported profiles can be used exactly if the links and objects they
  were read from name a host and a port in the range.**
-/

namespace BlackButton

open Text

namespace Link

/-! ## `java.net.URI` -/

/-- The authority `[user-info@]host[:port]` of a link, with a port that is an `Int`. -/
structure Server (IsHost : Str → Prop) (uri h : Str) (port : Option Str) : Prop where
  authority : ∃ user : Option Str, '@' ∉ user.getD [] ∧
    authority uri = user.elim [] (· ++ ['@']) ++ h ++ port.elim [] (':' :: ·)
  host : IsHost h
  digits : ∀ c ∈ port.getD [], c.isDigit = true
  port_le : Nat.ofDigitChars 10 (port.getD []) 0 ≤ 2147483647

/-- A port that is missing or empty is undefined. -/
def portNumber (port : Option Str) : ℤ :=
  if port.getD [] = [] then -1 else Nat.ofDigitChars 10 (port.getD []) 0

/-- `URI` reports the host and the port of a server, and `null` and -1 for any other authority. A host is
a domain name, an IPv4 address, or an IPv6 address in brackets. -/
structure ReadsServers (P : LinkPlatform) (IsHost : Str → Prop) : Prop where
  host_ne : ∀ h, IsHost h → h ≠ [] ∧ h ≠ ['[', ']']
  server : ∀ uri host number h port, (uri.take 5).map Char.toLower = scheme →
    P.javaURI uri = some (host, number) → Server IsHost uri h port → host = some h ∧ number = portNumber port
  registry : ∀ uri host number, (uri.take 5).map Char.toLower = scheme →
    P.javaURI uri = some (host, number) → (∀ h port, ¬Server IsHost uri h port) → host = none ∧ number = -1

theorem findAll_scheme {k : ℕ} {s value : Str} (h : value ∈ findAll k s) :
    (value.take 5).map Char.toLower = scheme := by
  induction s generalizing k with
  | nil => cases k <;> simp [findAll] at h
  | cons c cs ih =>
    cases k with
    | succ k => exact ih h
    | zero =>
      have hlongest := matchAt_longest (c :: cs)
      rw [findAll] at h
      split at h
      · exact ih h
      · rename_i v hv
        rcases List.mem_cons.1 h with rfl | h
        · rw [hv] at hlongest
          exact hlongest.2.1.1
        · exact ih h

end Link

namespace Profile

open Link

variable (P : LinkPlatform) (IsHost : Str → Prop)

/-! ## The links of a text -/

/-- The link names a host and a port in the range, if it is read at all: a link of older versions in the
digits of its text, if they are an `Int`, the others in their authority. -/
def LinkInRange (value : Str) : Prop :=
  match userInfo P value with
  | none => ∀ bs, Base64.decode Base64.standard (Link.host P value) = some bs →
      (legacyMatch P.digits (text P bs)).isSome →
        ∀ front ds n, text P bs = front ++ ':' :: ds → (∀ c ∈ ds, P.digits.contains c = true) →
          digits 0 ds = some n → PortInRange n ∨ 2147483647 < n
  | some info => ∀ bs, Base64.decode Base64.urlSafe info = some bs → (userInfoMatch (text P bs)).isSome →
      (P.javaURI value).isSome →
        ∃ h ds, Server IsHost value h (some ds) ∧ PortInRange (Nat.ofDigitChars 10 ds 0)

theorem unwrappedHost_eq_nil {h : Str} : unwrappedHost h = [] ↔ h = [] ∨ h = ['[', ']'] := by
  unfold unwrappedHost
  split
  · rename_i hbrackets
    match h, hbrackets with
    | [c], hbrackets =>
      obtain ⟨hopen, hclose⟩ := hbrackets
      rw [List.head?_cons] at hopen
      rw [List.getLast?_singleton, hopen] at hclose
      exact absurd hclose (by decide)
    | [c, d], hbrackets =>
      obtain ⟨hopen, hclose⟩ := hbrackets
      simp only [List.head?_cons, Option.some.injEq] at hopen
      simp only [List.getLast?_cons_cons, List.getLast?_singleton, Option.some.injEq] at hclose
      simp [hopen, hclose]
    | c :: d :: e :: h, _ => simp
  · rename_i hbrackets
    constructor
    · exact Or.inl
    · rintro (h | rfl)
      · exact h
      · exact absurd ⟨rfl, rfl⟩ hbrackets

/-- The port of a link of older versions, as its text has it. -/
theorem readLegacy_usable_iff (feature : Option Profile) {value : Str} {bs : List UInt8}
    (hbs : Base64.decode Base64.standard (Link.host P value) = some bs) {g : Str × Str × Str × Str}
    (hg : legacyMatch P.digits (text P bs) = some g) :
    (∀ p, readLegacy P feature value = some p → p.Usable) ↔
      ∀ front ds n, text P bs = front ++ ':' :: ds → (∀ c ∈ ds, P.digits.contains c = true) →
        digits 0 ds = some n → PortInRange n ∨ 2147483647 < n := by
  obtain ⟨htext, hhost, hne, hdigits⟩ := legacyMatch_spec hg
  have hascii : ∀ {ds : Str}, (∀ c ∈ ds, P.digits.contains c = true) → ∀ c : Char, c.toNat < 128 →
      c.isDigit = false → c ∉ ds :=
    fun hds c hc hdigit => not_mem_of_forall hds ((P.digits.contains_ascii c hc).trans hdigit)
  have hread' : toInt g.2.2.2 = (digits 0 g.2.2.2).bind fun n => if n ≤ 2147483647 then some (n : ℤ) else none :=
    toInt_of_no_sign hne (hascii hdigits '-' (by decide) (by decide)) (hascii hdigits '+' (by decide) (by decide))
  have htext : text P bs = (g.1 ++ ':' :: (g.2.1 ++ '@' :: g.2.2.1)) ++ ':' :: g.2.2.2 := by simp [htext]
  have hread : ∀ p, readLegacy P feature value = some p →
      p.host = g.2.2.1 ∧ toInt g.2.2.2 = some p.remotePort := by
    intro p hp
    simp only [readLegacy, hbs, Option.bind_some, hg] at hp
    obtain ⟨port, hport, rfl⟩ := Option.map_eq_some_iff.1 hp
    exact ⟨rfl, hport⟩
  constructor
  · intro h front ds n hfront hds hvalue
    obtain ⟨-, rfl⟩ := append_cons_inj (hascii hds ':' (by decide) (by decide))
      (hascii hdigits ':' (by decide) (by decide)) (hfront.symm.trans htext)
    rcases Nat.lt_or_ge 2147483647 n with hlarge | hint
    · exact Or.inr hlarge
    · have hint : toInt g.2.2.2 = some (n : ℤ) := by rw [hread', hvalue, Option.bind_some, if_pos hint]
      obtain ⟨p, hp⟩ : ∃ p, readLegacy P feature value = some p := by
        simp only [readLegacy, hbs, Option.bind_some, hg, hint, Option.map_some]
        exact ⟨_, rfl⟩
      have hport := (hread p hp).2
      rw [hint, Option.some_inj] at hport
      exact Or.inl (hport ▸ (h p hp).port)
  · intro h p hp
    obtain ⟨hhost', hport⟩ := hread p hp
    rw [hread'] at hport
    obtain ⟨n, hvalue, hport⟩ := Option.bind_eq_some_iff.1 hport
    split at hport
    · rename_i hint
      rcases h _ _ n htext hdigits hvalue with hrange | hlarge
      · rw [Option.some_inj] at hport
        exact ⟨hhost' ▸ hhost, hport ▸ hrange⟩
      · exact absurd hint (by omega)
    · cases hport

/-- The host and the port that `URI` reports, as the authority of the link has them. -/
theorem javaURI_usable_iff {P : LinkPlatform} {IsHost : Str → Prop} (hP : ReadsServers P IsHost) {value : Str}
    (hscheme : (value.take 5).map Char.toLower = scheme) {host : Option Str} {number : ℤ}
    (huri : P.javaURI value = some (host, number)) :
    (unwrappedHost (host.getD []) ≠ [] ∧ PortInRange number) ↔
      ∃ h ds, Server IsHost value h (some ds) ∧ PortInRange (Nat.ofDigitChars 10 ds 0) := by
  constructor
  · rintro ⟨-, hnumber⟩
    by_cases hserver : ∃ h port, Server IsHost value h port
    · obtain ⟨h, port, hserver⟩ := hserver
      obtain ⟨-, rfl⟩ := hP.server value host number h port hscheme huri hserver
      cases port with
      | none => exact absurd hnumber.1 (by decide)
      | some ds =>
        by_cases hempty : ds = []
        · subst hempty
          exact absurd hnumber.1 (by decide)
        · rw [portNumber, Option.getD_some, if_neg hempty] at hnumber
          exact ⟨h, ds, hserver, hnumber⟩
    · obtain ⟨-, rfl⟩ := hP.registry value host number hscheme huri fun h port hs => hserver ⟨h, port, hs⟩
      exact absurd hnumber.1 (by decide)
  · rintro ⟨h, ds, hserver, hrange⟩
    obtain ⟨rfl, rfl⟩ := hP.server value host number h (some ds) hscheme huri hserver
    obtain ⟨hne, hbrackets⟩ := hP.host_ne h hserver.host
    have hds : ds ≠ [] := by
      rintro rfl
      exact absurd hrange.1 (by decide)
    refine ⟨fun hnil => ?_, ?_⟩
    · rcases unwrappedHost_eq_nil.1 hnil with hnil | hnil
      · exact hne hnil
      · exact hbrackets hnil
    · rw [portNumber, Option.getD_some, if_neg hds]
      exact hrange

theorem readUserInfo_usable_iff {P : LinkPlatform} {IsHost : Str → Prop} (hP : ReadsServers P IsHost)
    (feature : Option Profile) {value info : Str} (hscheme : (value.take 5).map Char.toLower = scheme) {bs : List UInt8}
    (hbs : Base64.decode Base64.urlSafe info = some bs) (hg : (userInfoMatch (text P bs)).isSome)
    (huri : (P.javaURI value).isSome) :
    (∀ p, readUserInfo P feature value info = some p → p.Usable) ↔
      ∃ h ds, Server IsHost value h (some ds) ∧ PortInRange (Nat.ofDigitChars 10 ds 0) := by
  obtain ⟨g, hg⟩ := Option.isSome_iff_exists.1 hg
  obtain ⟨⟨host, number⟩, huri⟩ := Option.isSome_iff_exists.1 huri
  rw [← javaURI_usable_iff hP hscheme huri]
  simp only [readUserInfo, hbs, Option.bind_some, hg, huri, Option.map_some, Option.some_inj]
  constructor
  · intro h
    exact ⟨(h _ rfl).host, (h _ rfl).port⟩
  · rintro ⟨hhost, hnumber⟩ p rfl
    exact ⟨hhost, hnumber⟩

theorem readLink_usable_iff {P : LinkPlatform} {IsHost : Str → Prop} (hP : ReadsServers P IsHost)
    (feature : Option Profile) {value : Str} (hscheme : (value.take 5).map Char.toLower = scheme) :
    (∀ p, readLink P feature value = some p → p.Usable) ↔ LinkInRange P IsHost value := by
  unfold readLink LinkInRange
  cases userInfo P value with
  | none =>
    constructor
    · intro h bs hbs hg
      obtain ⟨g, hg⟩ := Option.isSome_iff_exists.1 hg
      exact (readLegacy_usable_iff P feature hbs hg).1 h
    · intro h p hp
      obtain ⟨bs, hbs, hp'⟩ := Option.bind_eq_some_iff.1 hp
      obtain ⟨g, hg, -⟩ := Option.bind_eq_some_iff.1 hp'
      exact (readLegacy_usable_iff P feature hbs hg).2 (h bs hbs (hg ▸ rfl)) p hp
  | some info =>
    constructor
    · intro h bs hbs hg huri
      exact (readUserInfo_usable_iff hP feature hscheme hbs hg huri).1 h
    · intro h p hp
      obtain ⟨bs, hbs, hp'⟩ := Option.bind_eq_some_iff.1 hp
      obtain ⟨g, hg, hp'⟩ := Option.bind_eq_some_iff.1 hp'
      obtain ⟨uri, huri, -⟩ := Option.map_eq_some_iff.1 hp'
      have hg : (userInfoMatch (text P bs)).isSome := hg ▸ rfl
      have huri : (P.javaURI value).isSome := huri ▸ rfl
      exact (readUserInfo_usable_iff hP feature hscheme hbs hg huri).2 (h bs hbs hg huri) p hp

/-- **The profiles of a text.** -/
theorem usable_links_iff {P : LinkPlatform} {IsHost : Str → Prop} (hP : ReadsServers P IsHost)
    (feature : Option Profile) (data : Str) :
    (∀ p ∈ findAllUrls P feature data, p.Usable) ↔ ∀ value ∈ findAll 0 data, LinkInRange P IsHost value := by
  have hall : (∀ p ∈ findAllUrls P feature data, p.Usable) ↔
      ∀ value ∈ findAll 0 data, ∀ p, readLink P feature value = some p → p.Usable := by
    unfold findAllUrls
    constructor
    · intro h value hvalue p hp
      exact h p (List.mem_filterMap.2 ⟨value, hvalue, hp⟩)
    · intro h p hp
      obtain ⟨value, hvalue, hp⟩ := List.mem_filterMap.1 hp
      exact h value hvalue p hp
  rw [hall]
  exact forall₂_congr fun value hvalue => readLink_usable_iff hP feature (findAll_scheme hvalue)

/-! ## A platform whose hosts are names -/

/-- Letters, digits, `-` and `.`. -/
def inName (c : Char) : Bool := c.isAlphanum || c = '-' || c = '.'

def IsName (h : Str) : Prop := h ≠ [] ∧ h.all inName = true

instance (h : Str) : Decidable (IsName h) := inferInstanceAs (Decidable (_ ∧ _))

/-- The host and the port of an authority, without its user information. -/
def hostPort (uri : Str) : Str × Option Str :=
  let user := splitOnce '@' (authority uri)
  splitOnce ':' (user.2.getD user.1)

/-- The platform, with links whose hosts are names and whose ports are of the `Int` range, and with other authorities
as they are documented. -/
def namesPlatform : LinkPlatform where
  digits := .ten
  malformedBytes _ := []
  malformedEscapes _ _ := []
  lowercase s := s.map Char.toLower
  javaURI uri :=
    let server := hostPort uri
    if IsName server.1 ∧ (server.2.getD []).all Char.isDigit = true ∧
        Nat.ofDigitChars 10 (server.2.getD []) 0 ≤ 2147483647 then
      some (some server.1, portNumber server.2)
    else some (none, -1)

theorem hostPort_of_server {uri h : Str} {port : Option Str} (hserver : Server IsName uri h port) :
    hostPort uri = (h, port) := by
  obtain ⟨user, hat, hauthority⟩ := hserver.authority
  have hname : ∀ c ∈ h, inName c = true := List.all_eq_true.1 hserver.host.2
  have hdigits := hserver.digits
  have hcolon : ':' ∉ h := fun hc => absurd (hname _ hc) (by decide)
  have hport : '@' ∉ h ++ port.elim [] (':' :: ·) := by
    rw [List.mem_append, not_or]
    refine ⟨fun hc => absurd (hname _ hc) (by decide), ?_⟩
    cases port with
    | none => exact List.not_mem_nil
    | some ds =>
      rw [Option.elim_some, List.mem_cons, not_or]
      exact ⟨by decide, not_mem_of_forall hdigits (by decide)⟩
  have hsplit : splitOnce ':' (h ++ port.elim [] (':' :: ·)) = (h, port) := by
    cases port with
    | none => rw [Option.elim_none, List.append_nil, splitOnce_of_not_mem hcolon]
    | some ds => exact splitOnce_append hcolon ds
  unfold hostPort
  cases user with
  | none =>
    rw [hauthority, Option.elim_none, List.nil_append, splitOnce_of_not_mem hport]
    exact hsplit
  | some user =>
    have hjoin : authority uri = user ++ '@' :: (h ++ port.elim [] (':' :: ·)) := by simp [hauthority]
    rw [Option.getD_some] at hat
    rw [hjoin, splitOnce_append hat]
    exact hsplit

theorem server_of_hostPort {uri : Str} (hname : IsName (hostPort uri).1)
    (hdigits : ∀ c ∈ (hostPort uri).2.getD [], c.isDigit = true)
    (hle : Nat.ofDigitChars 10 ((hostPort uri).2.getD []) 0 ≤ 2147483647) :
    Server IsName uri (hostPort uri).1 (hostPort uri).2 := by
  refine ⟨?_, hname, hdigits, hle⟩
  have hrest : (hostPort uri).1 ++ (hostPort uri).2.elim [] (':' :: ·) =
      (splitOnce '@' (authority uri)).2.getD (splitOnce '@' (authority uri)).1 := splitOnce_elim ':' _
  have hauthority := splitOnce_elim '@' (authority uri)
  cases huser : (splitOnce '@' (authority uri)).2 with
  | none =>
    rw [huser] at hauthority hrest
    rw [Option.getD_none] at hrest
    rw [Option.elim_none, List.append_nil] at hauthority
    exact ⟨none, List.not_mem_nil, by rw [Option.elim_none, List.nil_append, hrest, hauthority]⟩
  | some rest =>
    rw [huser] at hauthority hrest
    rw [Option.getD_some] at hrest
    refine ⟨some (splitOnce '@' (authority uri)).1, not_mem_splitOnce '@' _, ?_⟩
    rw [Option.elim_some, List.append_assoc, hrest, List.append_assoc, List.singleton_append]
    exact hauthority.symm

theorem readsServers_namesPlatform : ReadsServers namesPlatform IsName where
  host_ne h hname := by
    refine ⟨hname.1, ?_⟩
    rintro rfl
    exact absurd hname.2 (by decide)
  server uri host number h port _ huri hserver := by
    have hparts := hostPort_of_server hserver
    simp only [namesPlatform, hparts] at huri
    rw [if_pos ⟨hserver.host, List.all_eq_true.2 hserver.digits, hserver.port_le⟩, Option.some_inj,
      Prod.mk.injEq] at huri
    exact ⟨huri.1.symm, huri.2.symm⟩
  registry uri host number _ huri hnone := by
    simp only [namesPlatform] at huri
    split at huri
    · rename_i hserver
      exact absurd (server_of_hostPort hserver.1 (List.all_eq_true.1 hserver.2.1) hserver.2.2) (hnone _ _)
    · rw [Option.some_inj, Prod.mk.injEq] at huri
      exact ⟨huri.1.symm, huri.2.symm⟩

/-- **When the imported profiles can be used**, of a text and of a document, for every callback and
every table. -/
theorem usable_iff {P : LinkPlatform} {IsHost : Str → Prop} (hP : ReadsServers P IsHost) (H : HashOrder)
    (feature : Option Profile) (data : Str) (json : Json) :
    ((∀ p ∈ findAllUrls P feature data, p.Usable) ↔ ∀ value ∈ findAll 0 data, LinkInRange P IsHost value) ∧
      ((∀ (τ : Type) (create : World τ → Profile → World τ × ℤ) (w : World τ),
        ∀ p ∈ JsonParser.handed create H feature json w, p.Usable) ↔
          JsonParser.DocumentInRange H feature json) :=
  ⟨usable_links_iff hP feature data, JsonParser.usable_document_iff H feature json⟩

/-- Two links with a host and a port. -/
def sampleLinks : Str := "ss://bTpw@h:80 ss://bTpw@g:443".toList

theorem usable_iff_names : (findAllUrls namesPlatform none sampleLinks).length = 2 ∧
    ∀ value ∈ findAll 0 sampleLinks, LinkInRange namesPlatform IsName value := by
  have hhosts : (findAllUrls namesPlatform none sampleLinks).map Profile.host = [['h'], ['g']] := by decide +kernel
  have hports : (findAllUrls namesPlatform none sampleLinks).map Profile.remotePort = [80, 443] := by decide +kernel
  have husable : ∀ p ∈ findAllUrls namesPlatform none sampleLinks, p.Usable := by
    intro p hp
    have hhost := List.mem_map_of_mem (f := Profile.host) hp
    have hport := List.mem_map_of_mem (f := Profile.remotePort) hp
    rw [hhosts] at hhost
    rw [hports] at hport
    simp only [List.mem_cons, List.not_mem_nil, or_false] at hhost hport
    refine ⟨?_, ?_⟩
    · rcases hhost with hhost | hhost <;> simp [hhost]
    · unfold PortInRange
      rcases hport with hport | hport <;> rw [hport] <;> decide
  refine ⟨?_, (usable_iff readsServers_namesPlatform .insertion none sampleLinks .null).1.1 husable⟩
  rw [← List.length_map (f := Profile.host), hhosts]
  rfl

/-- A server with a port that is too large. -/
def largePort : Json :=
  .obj [("server".toList, .str ['a']), ("server_port".toList, .num "70000".toList (some 70000)),
    ("password".toList, .str ['p']), ("method".toList, .str ['m'])]

theorem not_usable_of_port {ps : List Profile} {port : ℤ} (hmem : port ∈ ps.map Profile.remotePort)
    (hport : ¬PortInRange port) : ¬∀ p ∈ ps, p.Usable := by
  intro h
  obtain ⟨p, hp, rfl⟩ := List.mem_map.1 hmem
  exact hport (h p hp).port

/-- A port that is too large, and the link `ss://bTpw@h`, which has none. -/
theorem not_usable_largePort :
    (¬∀ p ∈ JsonParser.handed World.createProfile .insertion none largePort ⟨Table.empty, [], ()⟩, p.Usable) ∧
      ¬∀ p ∈ findAllUrls namesPlatform none "ss://bTpw@h".toList, p.Usable := by
  have hdocument : (JsonParser.handed World.createProfile .insertion none largePort ⟨Table.empty, [], ()⟩).map
      Profile.remotePort = [70000] := rfl
  have hlink : (findAllUrls namesPlatform none "ss://bTpw@h".toList).map Profile.remotePort = [-1] := by
    decide +kernel
  constructor
  · refine not_usable_of_port (?_ : (70000 : ℤ) ∈ _) ?_
    · rw [hdocument]
      exact List.mem_singleton_self _
    · exact fun h => absurd h.2 (by decide)
  · refine not_usable_of_port (?_ : (-1 : ℤ) ∈ _) ?_
    · rw [hlink]
      exact List.mem_singleton_self _
    · exact fun h => absurd h.1 (by decide)

end Profile

end BlackButton
