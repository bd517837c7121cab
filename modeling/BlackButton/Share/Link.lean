import BlackButton.Database.Profile
import BlackButton.Lib.Encoding

/-!
# Share links (`database/Profile.kt`)

`Profile.toString` writes a profile as a link `ss://…@host:port?plugin=…#name`.
`findAllUrls` finds the links of a text with a regular expression and reads each one
with `android.net.Uri`, `java.net.URI` and two more expressions.

Both expressions that find text backtrack; `matchAt` and `legacyMatch` compute the
match that backtracking ends with. `java.net.URI`, and what the platform makes of
malformed text, are given by `LinkPlatform`.
-/

namespace BlackButton

open Text

/-- The class `\d` of the regular expressions: the ten digits, and those of other scripts on Android. -/
structure DigitClass where
  contains : Char → Bool
  contains_ascii : ∀ c : Char, c.toNat < 128 → contains c = c.isDigit
  -- what malformed bytes are replaced by
  contains_replacement : contains '\uFFFD' = false

/-- The ten digits. -/
def DigitClass.ten : DigitClass := ⟨Char.isDigit, fun _ _ => rfl, rfl⟩

theorem DigitClass.contains_of_isDigit (D : DigitClass) {c : Char} (h : c.isDigit = true) : D.contains c = true := by
  have hc : c.toNat ≤ 57 := by
    simp only [Char.isDigit, Bool.and_eq_true, decide_eq_true_eq, UInt32.le_iff_toNat_le] at h
    exact h.2
  rw [D.contains_ascii c (by omega)]
  exact h

/-- What the platform does that is not in the repository. -/
structure LinkPlatform where
  digits : DigitClass
  /-- `String(bytes)`, for bytes that are not UTF-8. -/
  malformedBytes : List UInt8 → Str
  /-- The decoding of `Uri`, for text that is no percent-encoding; with `+` for a blank in queries. -/
  malformedEscapes : Bool → Str → Str
  /-- `lowercase(Locale.ENGLISH)`. -/
  lowercase : Str → Str
  /-- `host` and `port` of `URI(text)`; `none` is `URISyntaxException`. -/
  javaURI : Str → Option (Option Str × ℤ)

namespace Link

/-! ## The regular expressions -/

/-- The characters of a link. -/
def inLink (c : Char) : Bool :=
  c.isAlphanum || ['-', '+', '&', '@', '#', '/', '%', '?', '=', '.', '~', '*', '\'', '(', ')', '|', '!', ':',
    ',', ';', '_', '[', ']'].contains c

/-- The characters that a link can end with. -/
def inEnd (c : Char) : Bool :=
  c.isAlphanum || ['-', '+', '&', '@', '#', '/', '%', '=', '.', '~', '*', '\'', '(', ')', '|', '[', ']'].contains c

/-- `ss://`. -/
def scheme : Str := ['s', 's', ':', '/', '/']

/-- The run of link characters, given back up to one that can be the last. -/
def trimEnd (run : Str) : Str := run.rdropWhile fun c => !inEnd c

/-- The match of `pattern` that starts here. -/
def matchAt (s : Str) : Option Str :=
  if (s.take 5).map Char.toLower = scheme then
    let body := trimEnd ((s.drop 5).takeWhile inLink)
    if body = [] then none else some (s.take 5 ++ body)
  else none

/-- `pattern.findAll`, after as many characters as the last match still covers. -/
def findAll : ℕ → Str → List Str
  | _, [] => []
  | k + 1, _ :: cs => findAll k cs
  | 0, c :: cs =>
    match matchAt (c :: cs) with
    | none => findAll 0 cs
    | some v => v :: findAll (v.length - 1) cs

/-- The texts that `.*` matches. -/
def isDots (s : Str) : Bool := s.all fun c => !isTerminator c

/-- `userInfoPattern.matchEntire`: the groups. -/
def userInfoMatch (s : Str) : Option (Str × Str) :=
  (splits ':' s).find? fun g => g.1 ≠ [] && isDots g.1 && isDots g.2

/-- `legacyPattern.matchEntire`: the groups. The second one is greedy, the others are not. -/
def legacyMatch (D : DigitClass) (s : Str) : Option (Str × Str × Str × Str) :=
  (splits ':' s).findSome? fun g =>
    if g.1 ≠ [] ∧ isDots g.1 then
      (splits '@' g.2).reverse.findSome? fun g' =>
        if isDots g'.1 then
          ((splits ':' g'.2).find? fun g'' =>
            g''.1 ≠ [] && isDots g''.1 && g''.2 ≠ [] && g''.2.all D.contains).map fun g'' =>
              (g.1, g'.1, g''.1, g''.2)
        else none
    else none

/-! ## `android.net.Uri` -/

section Uri

variable (P : LinkPlatform) (uri : Str)

/-- `String(bytes)`. -/
def text (bs : List UInt8) : Str := (utf8Decode bs).getD (P.malformedBytes bs)

/-- `UriCodec.decode`. -/
def decode (plus : Bool) (s : Str) : Str :=
  ((Percent.bytes plus s).bind utf8Decode).getD (P.malformedEscapes plus s)

/-- `encodedAuthority`: what follows `ss://`, up to a path, a query or a fragment. -/
def authority : Str := (uri.drop 5).takeWhile fun c => !(c = '/' || c = '\\' || c = '?' || c = '#')

/-- `userInfo`: what stands before the last `@`. -/
def userInfo : Option Str := ((splits '@' (authority uri)).getLast?).map fun g => decode P false g.1

/-- The authority without the user information. -/
def hostAndPort : Str := ((splits '@' (authority uri)).getLast?).elim (authority uri) Prod.snd

/-- `host`: digits after a last `:` are the port. -/
def host : Str :=
  let rest := (hostAndPort uri).rdropWhile Char.isDigit
  decode P false (if rest.getLast? = some ':' then rest.dropLast else hostAndPort uri)

/-- `encodedQuery`. A question mark in the fragment is none. -/
def query : Option Str := (splitOnce '?' (splitOnce '#' uri).1).2

/-- `fragment`. -/
def fragment : Option Str := (splitOnce '#' uri).2.map (decode P false)

/-- `getQueryParameter`. -/
def getQueryParameter (key : Str) : Option Str :=
  (query uri).bind fun q =>
    ((q.splitOn '&').find? fun part => (splitOnce '=' part).1 = key).map fun part =>
      ((splitOnce '=' part).2.map (decode P true)).getD []

end Uri

/-- `Uri.encode`: letters, digits and these characters are left as they are. -/
def isUnreserved (c : Char) : Bool := c.isAlphanum || ['_', '-', '!', '.', '~', '\'', '(', ')', '*'].contains c

def encode (s : Str) : Str := Percent.encode isUnreserved s

/-- `Key.plugin`. -/
def pluginKey : Str := ['p', 'l', 'u', 'g', 'i', 'n']

/-- What `Uri.Builder` builds. -/
def build (encodedAuthority : Str) (plugin fragment : Option Str) : Str :=
  scheme ++ encodedAuthority ++ plugin.elim [] (fun t => '?' :: pluginKey ++ '=' :: encode t) ++
    fragment.elim [] (fun t => '#' :: encode t)

end Link

namespace Profile

open Link

/-! ## Reading -/

/-- The new profile that a link is read into. -/
def blank (feature : Option Profile) : Profile := feature.elim {} fun f => f.copyFeatureSettingsTo {}

/-- A host without its brackets. -/
def unwrappedHost (host : Str) : Str :=
  if host.head? = some '[' ∧ host.getLast? = some ']' then (host.drop 1).dropLast else host

/-- A link with user information. -/
def readUserInfo (P : LinkPlatform) (feature : Option Profile) (value info : Str) : Option Profile :=
  (Base64.decode Base64.urlSafe info).bind fun bs =>
    (userInfoMatch (text P bs)).bind fun g =>
      (P.javaURI value).map fun javaURI =>
        { blank feature with
          method := g.1
          password := g.2
          host := unwrappedHost (javaURI.1.getD [])
          remotePort := javaURI.2
          plugin := getQueryParameter P value pluginKey
          name := some ((fragment P value).getD []) }

/-- A link of older versions. A port that is no `Int` is an `IllegalArgumentException` too. -/
def readLegacy (P : LinkPlatform) (feature : Option Profile) (value : Str) : Option Profile :=
  (Base64.decode Base64.standard (Link.host P value)).bind fun bs =>
    (legacyMatch P.digits (text P bs)).bind fun g =>
      (toInt g.2.2.2).map fun port =>
        { blank feature with
          method := P.lowercase g.1
          password := g.2.1
          host := g.2.2.1
          remotePort := port
          plugin := getQueryParameter P value pluginKey
          name := fragment P value }

/-- The profile of a link; `none` is logged as an error. -/
def readLink (P : LinkPlatform) (feature : Option Profile) (value : Str) : Option Profile :=
  match userInfo P value with
  | none => readLegacy P feature value
  | some info => readUserInfo P feature value info

/-- `findAllUrls`. -/
def findAllUrls (P : LinkPlatform) (feature : Option Profile) (data : Str) : List Profile :=
  (findAll 0 data).filterMap (readLink P feature)

/-! ## Writing -/

/-- `auth`. -/
def auth (p : Profile) : Str := Base64.encode Base64.urlSafe (utf8 (p.method ++ ':' :: p.password))

/-- `wrappedHost`. -/
def wrappedHost (p : Profile) : Str := if ':' ∈ p.host then '[' :: p.host ++ [']'] else p.host

/-- The authority of the link. -/
def authorityText (p : Profile) : Str := p.auth ++ '@' :: p.wrappedHost ++ ':' :: intText p.remotePort

/-- The text of the selected options, if a plugin is selected; the outer `none` is an exception. -/
def selectedText (H : HashOrder) (defaultConfig : Str → Option Str) (p : Profile) : Option (Option Str) :=
  (PluginConfiguration.parse (p.plugin.getD [])).bind fun c =>
    if c.selected = [] then some none
    else (PluginConfiguration.getOptions defaultConfig c c.selected).map fun o =>
      some (PluginOptions.toString H false o)

/-- The name, if it is not null or empty. -/
def givenName (p : Profile) : Option Str := if p.name.getD [] = [] then none else p.name

/-- `toUri().toString()`; `none` is the exception of `PluginConfiguration`. -/
def toString (H : HashOrder) (defaultConfig : Str → Option Str) (p : Profile) : Option Str :=
  (p.selectedText H defaultConfig).map fun plugin => build p.authorityText plugin p.givenName

end Profile

end BlackButton
