import BlackButton.Acl.Subnet
import BlackButton.Lib.Collections

/-!
# Access control lists (`acl/Acl.kt`)

The text format of an ACL: lines that switch the mode (`[bypass_all]`,
`[proxy_all]`), lines that switch the section (`[bypass_list]`, `[proxy_list]`,
`[outbound_block_list]`), and rules, each a subnet or a host expression. What
follows a `#` is a comment, except for an `IMPORT_URL` directive.

`Acl.parse` reads both lists of subnets and keeps, at the end, the one the final
mode needs. `Acl.flatten` merges the imported documents.
-/

namespace BlackButton

open Text

/-- `java.util.regex`'s `\s`. -/
def isRegexSpace (c : Char) : Bool :=
  c = ' ' || c = '\t' || c = '\n' || c = '\x0b' || c = '\x0c' || c = '\r'

/-- `networkAclParser.matchEntire(..)?.groupValues?.getOrNull(1)`, for the pattern
`^IMPORT_URL\s*<(.+)>\s*$`. -/
def networkAclParser (s : Str) : Option Str :=
  if "IMPORT_URL".toList.isPrefixOf s then
    match (s.drop "IMPORT_URL".toList.length).dropWhile isRegexSpace with
    | '<' :: rest =>
      match (rest.rdropWhile isRegexSpace).reverse with
      | '>' :: url =>
        if url ≠ [] ∧ url.all (fun c => !isTerminator c) then some url.reverse else none
      | _ => none
    | _ => none
  else none

/-- The exceptions of `Acl.parse`. -/
inductive ReadError
  -- `error("Unrecognized block: $input")`
  | unrecognizedBlock (input : Str)
  -- `MalformedURLException`
  | malformedUrl (spec : Str)
  deriving Repr, DecidableEq

/-- `Acl`. The fields are `SortedList`s. -/
structure Acl (U : Type) where
  bypassHostnames : List Str
  proxyHostnames : List Str
  subnets : List Subnet
  urls : List U
  bypass : Bool

/-- Which `hostnames` and `subnets` the loop of `Acl.parse` adds to. -/
inductive Block
  | bypass
  | proxy
  deriving Repr, DecidableEq

/-- The variables of the loop of `Acl.parse`, and the lists its callbacks add to. `block` is `none`
in `[outbound_block_list]`, where `hostnames` and `subnets` are null. -/
structure Reading (U : Type) where
  bypass : Bool
  bypassSubnets : List Subnet
  proxySubnets : List Subnet
  block : Option Block
  bypassHostnames : List Str
  proxyHostnames : List Str
  urls : List U

/-- The UTF-16 code units of a character. -/
def utf16 (c : Char) : List ℕ :=
  if c.toNat < 0x10000 then [c.toNat]
  else [0xD800 + (c.toNat - 0x10000) / 0x400, 0xDC00 + (c.toNat - 0x10000) % 0x400]

/-- The order of `StringSorter` (`String.compareTo`). -/
def strLe (a b : Str) : Bool := decide (a.flatMap utf16 ≤ b.flatMap utf16)

/-- The order of `SubnetSorter`. -/
def subnetLe (a b : Subnet) : Bool := a.compareTo b != .gt

namespace Acl

variable {U : Type} [DecidableEq U] (P : Platform U)

/-- `Acl()`. -/
def new : Acl U := ⟨[], [], [], [], false⟩

/-- The loop variables of `Acl.parse` before the first line, called from `fromReader`. -/
def start (defaultBypass : Bool) : Reading U :=
  ⟨defaultBypass, [], [], some (if defaultBypass then .proxy else .bypass), [], [], []⟩

/-- A line that starts with `[`. -/
def readHeader (r : Reading U) (input : Str) : Except ReadError (Reading U) :=
  if input = "[outbound_block_list]".toList then .ok { r with block := none }
  else if input = "[black_list]".toList ∨ input = "[bypass_list]".toList then
    .ok { r with block := some .bypass }
  else if input = "[white_list]".toList ∨ input = "[proxy_list]".toList then
    .ok { r with block := some .proxy }
  else if input = "[reject_all]".toList ∨ input = "[bypass_all]".toList then .ok { r with bypass := true }
  else if input = "[accept_all]".toList ∨ input = "[proxy_all]".toList then .ok { r with bypass := false }
  else .error (.unrecognizedBlock input)

/-- `hostnames!!(input)`. -/
def addHost (r : Reading U) (b : Block) (input : Str) : Reading U :=
  match b with
  | .bypass => { r with bypassHostnames := SortedList.add strLe r.bypassHostnames input }
  | .proxy => { r with proxyHostnames := SortedList.add strLe r.proxyHostnames input }

/-- `subnets!!.add(subnet)`. -/
def addSubnet (r : Reading U) (b : Block) (s : Subnet) : Reading U :=
  match b with
  | .bypass => { r with bypassSubnets := r.bypassSubnets ++ [s] }
  | .proxy => { r with proxySubnets := r.proxySubnets ++ [s] }

/-- Any other line. -/
def readRule (r : Reading U) (input : Str) : Reading U :=
  match r.block with
  | none => r
  | some b =>
    if input = [] then r
    else
      match Subnet.fromString P input with
      | none => addHost r b input
      | some s => addSubnet r b s

/-- The directive in the comment of a line. -/
def readComment (r : Reading U) (comment : Str) : Except ReadError (Reading U) :=
  match networkAclParser comment with
  | none => .ok r
  | some spec =>
    match P.url spec with
    | none => .error (.malformedUrl spec)
    | some u => .ok { r with urls := SortedList.add P.urlLe r.urls u }

/-- One turn of the loop of `Acl.parse`. -/
def readLine (r : Reading U) (line : Str) : Except ReadError (Reading U) := do
  let blocks := splitOnce '#' line
  let r ← readComment P r (blocks.2.getD [])
  let input := trim blocks.1
  if input.head? = some '[' then readHeader r input else .ok (readRule P r input)

/-- `Acl.parse`, up to the choice of the subnets. -/
def parse (text : Str) (defaultBypass : Bool) : Except ReadError (Reading U) :=
  (lines text).foldlM (readLine P) (start defaultBypass)

/-- The subnets `Acl.parse` returns. -/
def kept (r : Reading U) : List Subnet := if r.bypass then r.proxySubnets else r.bypassSubnets

/-- `Acl.fromReader`. -/
def fromReader (text : Str) (defaultBypass : Bool) : Except ReadError (Acl U) := do
  let r ← parse P text defaultBypass
  .ok ⟨r.bypassHostnames, r.proxyHostnames, SortedList.addAll subnetLe [] (kept r), r.urls, r.bypass⟩

/-- `Acl.fromAcl`. -/
def fromAcl (other : Acl U) : Acl U where
  bypassHostnames := SortedList.addAll strLe [] other.bypassHostnames
  proxyHostnames := SortedList.addAll strLe [] other.proxyHostnames
  subnets := SortedList.addAll subnetLe [] other.subnets
  urls := SortedList.addAll P.urlLe [] other.urls
  bypass := other.bypass

/-- The end of one turn of the loop of `Acl.flatten`: the flattened child is merged. Subnets for a
different mode are discarded. -/
def merge (a child : Acl U) : Acl U :=
  let child := if a.bypass ≠ child.bypass then { child with subnets := [], bypass := a.bypass } else child
  { a with
    bypassHostnames := SortedList.addAll strLe a.bypassHostnames child.bypassHostnames
    proxyHostnames := SortedList.addAll strLe a.proxyHostnames child.proxyHostnames
    subnets := SortedList.addAll subnetLe a.subnets child.subnets }

/-- `Acl.flatten`; `connect` gives the text behind a URL. -/
def flatten (connect : U → Str) : ℕ → Acl U → Except ReadError (Acl U)
  | 0, a => .ok { a with urls := [] }
  | n + 1, a => do
    let a ← a.urls.foldlM (fun acc url => do
      let child ← fromReader P (connect url) acc.bypass
      let child ← flatten connect n child
      .ok (merge acc child)) a
    .ok { a with urls := [] }

/-- The `bypassList` of `Acl.toString`. -/
def bypassList (a : Acl U) : List Str :=
  if a.bypass then a.bypassHostnames else a.subnets.map (Subnet.print P) ++ a.bypassHostnames

/-- The `proxyList` of `Acl.toString`. -/
def proxyList (a : Acl U) : List Str :=
  if a.bypass then a.subnets.map (Subnet.print P) ++ a.proxyHostnames else a.proxyHostnames

/-- `Acl.toString`. -/
def print (a : Acl U) : Str :=
  (if a.bypass then "[bypass_all]\n".toList else "[proxy_all]\n".toList) ++
    (if bypassList P a ≠ [] then
      "[bypass_list]\n".toList ++ List.intercalate ['\n'] (bypassList P a) ++ ['\n'] else []) ++
    (if proxyList P a ≠ [] then
      "[proxy_list]\n".toList ++ List.intercalate ['\n'] (proxyList P a) ++ ['\n'] else []) ++
    a.urls.flatMap (fun u => "#IMPORT_URL <".toList ++ P.external u ++ ">\n".toList)

/-- The getter of `Acl.customRules`; `file` is the text of `custom-rules-user.acl`, if it can be
read. -/
def customRules (file : Option Str) : Except ReadError (Acl U) := do
  let acl ← match file with
    | some text => fromReader P text true
    | none => .ok new
  .ok (if !acl.bypass then { acl with bypass := true, subnets := [] } else acl)

/-- The setter of `Acl.customRules`, and `Acl.save`: the text that is written. -/
def save (a : Acl U) : Option Str := some (print P a)

/-- The ACLs that reading, copying and flattening make. -/
inductive Reachable : Acl U → Prop
  | new : Reachable new
  | fromReader {text : Str} {defaultBypass : Bool} {a : Acl U} :
      Acl.fromReader P text defaultBypass = .ok a → Reachable a
  | fromAcl {a : Acl U} : Reachable a → Reachable (Acl.fromAcl P a)
  | flatten {connect : U → Str} {n : ℕ} {a b : Acl U} :
      Reachable a → Acl.flatten P connect n a = .ok b → Reachable b

end Acl

end BlackButton
