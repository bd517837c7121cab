import Mathlib.Algebra.GroupWithZero.Nat
import BlackButton.Acl.RoundTrip

/-!
# The reader of `sslocal` (`acl/mod.rs`)

The file that the app saves is read by `AccessControl::load_from_file` of
shadowsocks-rust, which does not trim lines, takes only whole lines as comments and
headers, and has its own parsers for networks and addresses.

`load_print`: **the rules that `sslocal` loads from a saved ACL are the rules of the
ACL**, and it consults the IP rules of the section in which they were saved.
-/

namespace BlackButton

open Text

namespace Sslocal

/-- `Mode`. -/
inductive Mode
  | blackList
  | whiteList
  deriving DecidableEq

/-- `IpNet`; the bytes of an address tell `V4` from `V6`. -/
structure IpNet where
  addr : List UInt8
  prefixLen : ℕ
  deriving DecidableEq

def IpNet.isV4 (n : IpNet) : Bool := n.addr.length = 4

/-- The crate `regex`, with `case_insensitive`: whether a pattern matches somewhere in a host; and the crate
`ipnet`: whether a network contains an address. -/
structure Crates where
  isMatch (pattern host : Str) : Bool
  contains (net : IpNet) (ip : List UInt8) : Bool

/-- `Rules`; an `IpRange` is the networks that were added to it, a `RegexSet` its patterns. -/
structure Rules where
  ipv4 : List IpNet
  ipv6 : List IpNet
  rule : List Str
  deriving DecidableEq

def Rules.empty : Rules := ⟨[], [], []⟩

/-- `curr_ipv4.add` or `curr_ipv6.add`. -/
def Rules.addNet (r : Rules) (n : IpNet) : Rules :=
  if n.isV4 then { r with ipv4 := r.ipv4 ++ [n] } else { r with ipv6 := r.ipv6 ++ [n] }

/-- `curr_rules.push`. -/
def Rules.push (r : Rules) (line : Str) : Rules := { r with rule := r.rule ++ [line] }

/-- `Rules::check_ip_matched`. -/
def Rules.checkIpMatched (X : Crates) (r : Rules) (ip : List UInt8) : Bool :=
  if ip.length = 4 then r.ipv4.any (X.contains · ip) else r.ipv6.any (X.contains · ip)

/-- What `curr_ipv4`, `curr_ipv6` and `curr_rules` point to. -/
inductive Section
  | outboundBlock
  | bypass
  | proxy
  deriving DecidableEq

/-- The loop variables of `load_from_file`. -/
structure Loading where
  mode : Mode
  outboundBlock : Rules
  bypass : Rules
  proxy : Rules
  curr : Section
  deriving DecidableEq

def Loading.start : Loading := ⟨.blackList, .empty, .empty, .empty, .bypass⟩

def Loading.modify (l : Loading) (f : Rules → Rules) : Loading :=
  match l.curr with
  | .outboundBlock => { l with outboundBlock := f l.outboundBlock }
  | .bypass => { l with bypass := f l.bypass }
  | .proxy => { l with proxy := f l.proxy }

/-- `IpNet::from_str` of the crate `ipnet`, and `IpAddr::from_str`. -/
structure Parsers where
  ipNet : Str → Option IpNet
  ipAddr : Str → Option (List UInt8)

/-- One turn of the loop of `load_from_file`. -/
def loadLine (R : Parsers) (l : Loading) (line : Str) : Loading :=
  if line = [] then l
  else if line.head? = some '#' then l
  else if line = "[reject_all]".toList ∨ line = "[bypass_all]".toList then { l with mode := .whiteList }
  else if line = "[accept_all]".toList ∨ line = "[proxy_all]".toList then { l with mode := .blackList }
  else if line = "[outbound_block_list]".toList then { l with curr := .outboundBlock }
  else if line = "[black_list]".toList ∨ line = "[bypass_list]".toList then { l with curr := .bypass }
  else if line = "[white_list]".toList ∨ line = "[proxy_list]".toList then { l with curr := .proxy }
  else
    match R.ipNet line with
    | some n => l.modify (·.addNet n)
    | none =>
      match R.ipAddr line with
      | some a => l.modify (·.addNet ⟨a, 8 * a.length⟩)
      | none => l.modify (·.push line)

/-- A line that ends in `\r\n` loses both. -/
def stripCr (line : Str) : Str := if line.getLast? = some '\r' then line.dropLast else line

/-- `BufRead::lines`; `cur` is the line read so far. -/
def bufLines (cur : Str) : Str → List Str
  | [] => if cur = [] then [] else [cur]
  | c :: cs => if c = '\n' then stripCr cur :: bufLines [] cs else bufLines (cur ++ [c]) cs

/-- `AccessControl`, up to the compilation of the patterns. -/
structure AccessControl where
  outboundBlock : Rules
  blackList : Rules
  whiteList : Rules
  mode : Mode
  deriving DecidableEq

/-- The loop of `load_from_file`. -/
def loadLines (R : Parsers) (text : Str) : AccessControl :=
  let l := (bufLines [] text).foldl (loadLine R) .start
  ⟨l.outboundBlock, l.bypass, l.proxy, l.mode⟩

/-- `check_ip_in_proxy_list`. -/
def AccessControl.checkIpInProxyList (X : Crates) (c : AccessControl) (ip : List UInt8) : Bool :=
  match c.mode with
  | .blackList => !c.blackList.checkIpMatched X ip
  | .whiteList => c.whiteList.checkIpMatched X ip

/-- `is_default_in_proxy_list`. -/
def AccessControl.isDefaultInProxyList (c : AccessControl) : Bool :=
  match c.mode with
  | .blackList => true
  | .whiteList => false

/-- The section that `check_ip_in_proxy_list` consults. -/
def AccessControl.consulted (c : AccessControl) : Rules :=
  match c.mode with
  | .blackList => c.blackList
  | .whiteList => c.whiteList

/-- The section that it does not. -/
def AccessControl.ignored (c : AccessControl) : Rules :=
  match c.mode with
  | .blackList => c.whiteList
  | .whiteList => c.blackList

/-- The bits of an address, the most significant first. -/
def bits (addr : List UInt8) : List Bool :=
  addr.flatMap fun b => (List.range 8).map fun i => b.toNat.testBit (7 - i)

/-- A network contains the addresses of its kind with its first bits. -/
def Crates.Lawful (X : Crates) : Prop :=
  ∀ n ip, X.contains n ip = true ↔
    n.addr.length = ip.length ∧ (bits n.addr).take n.prefixLen = (bits ip).take n.prefixLen

/-- The Java and the Rust parsers of addresses accept the same texts and agree on them; no address
has a `/`. A network is an address, a `/` and a number of bits in decimal digits. -/
structure Agrees {U : Type} (P : Platform U) (R : Parsers) : Prop where
  eq : ∀ t, R.ipAddr t = P.parseNumericAddress t
  no_slash : ∀ t a, R.ipAddr t = some a → '/' ∉ t
  ipNet_text : ∀ line n, R.ipNet line = some n → ∃ addr size, line = addr ++ '/' :: size ∧ R.ipAddr addr = some n.addr ∧
    size ≠ [] ∧ (∀ c ∈ size, c.isDigit = true) ∧ Nat.ofDigitChars 10 size 0 ≤ 8 * n.addr.length
  ipNet_decimal : ∀ addr a n, R.ipAddr addr = some a → n ≤ 8 * a.length →
    R.ipNet (addr ++ '/' :: decimal n) = some ⟨a, n⟩

/-! ## Networks and addresses -/

section Networks

variable {U : Type} {P : Platform U} {R : Parsers}

/-- The network of a subnet. -/
def ofSubnet (s : Subnet) : IpNet := ⟨s.address, s.prefixSize⟩

/-- **What Rust reads as a network or an address, Java reads as a subnet.** -/
theorem fromString_ne_none (hP : P.Lawful) (hR : Agrees P R) {line : Str}
    (h : R.ipNet line ≠ none ∨ R.ipAddr line ≠ none) : Subnet.fromString P line ≠ none := by
  unfold Subnet.fromString
  rcases h with h | h
  · obtain ⟨n, hn⟩ := Option.ne_none_iff_exists'.1 h
    obtain ⟨addr, size, rfl, ha, hne, hdigits, hle⟩ := hR.ipNet_text _ _ hn
    have hslash := hR.no_slash _ _ ha
    rw [hR.eq] at ha
    have hlen := hP.address_length _ _ ha
    simp only [splitOnce_append hslash, ha, toInt_of_isDigit hne hdigits (by omega)]
    rw [dif_pos ⟨by omega, by omega⟩]
    exact Option.some_ne_none _
  · obtain ⟨a, ha⟩ := Option.ne_none_iff_exists'.1 h
    have hslash := hR.no_slash _ _ ha
    rw [hR.eq] at ha
    simp [splitOnce_of_not_mem hslash, ha]

/-- A printed subnet is read as its network. -/
theorem read_print (hP : P.Lawful) (hR : Agrees P R) {s : Subnet} {t : Str}
    (ht : P.parseNumericAddress t = some s.address) :
    R.ipNet (Subnet.print P s) = some (ofSubnet s) ∨
      R.ipNet (Subnet.print P s) = none ∧ R.ipAddr (Subnet.print P s) = some s.address ∧
        ofSubnet s = ⟨s.address, 8 * s.address.length⟩ := by
  obtain ⟨-, hc⟩ := hP.host_text _ _ ht
  have hslash : '/' ∉ P.hostAddress s.address := fun h => (hc _ h).2.2.1 rfl
  have hhost : R.ipAddr (P.hostAddress s.address) = some s.address := by
    rw [hR.eq]; exact hP.parse_host _ _ ht
  have hlen := hP.address_length _ _ ht
  have hle := s.le
  unfold Subnet.print
  split
  · rename_i hfull
    refine Or.inr ⟨?_, hhost, by unfold ofSubnet; rw [hfull]⟩
    by_contra hnet
    obtain ⟨n, hn⟩ := Option.ne_none_iff_exists'.1 hnet
    obtain ⟨addr, size, htext, -⟩ := hR.ipNet_text _ _ hn
    rw [htext] at hslash
    simp at hslash
  · exact Or.inl (hR.ipNet_decimal _ _ _ hhost s.le)

end Networks

/-! ## Loading the printed lines -/

theorem bufLines_append {l : Str} (hl : '\n' ∉ l) (cur rest : Str) :
    bufLines cur (l ++ '\n' :: rest) = stripCr (cur ++ l) :: bufLines [] rest := by
  induction l generalizing cur with
  | nil => simp [bufLines]
  | cons c l ih =>
    rw [List.mem_cons, not_or] at hl
    rw [List.cons_append, bufLines, if_neg (fun h => hl.1 h.symm), ih hl.2]
    simp

/-- Lines without breaks are read back. -/
theorem bufLines_unlines {ls : List Str} (h : ∀ l ∈ ls, ∀ c ∈ l, isBreak c = false) :
    bufLines [] (unlines ls) = ls := by
  induction ls with
  | nil => rfl
  | cons l ls ih =>
    have hl := h l List.mem_cons_self
    have hn : '\n' ∉ l := fun hm => absurd (hl _ hm) (by decide)
    have hr : stripCr l = l := by
      unfold stripCr
      rw [if_neg]
      intro hlast
      exact absurd (hl _ (List.mem_of_getLast? hlast)) (by decide)
    have hsplit : unlines (l :: ls) = l ++ '\n' :: unlines ls := by simp [unlines]
    rw [hsplit, bufLines_append hn, List.nil_append, hr, ih (fun m hm => h m (List.mem_cons_of_mem l hm))]

variable {U : Type} {P : Platform U} {R : Parsers}

/-- A line that does not start with `#` or `[` is a rule. -/
theorem loadLine_rule {l : Loading} {line : Str} (hne : line ≠ []) (hhash : line.head? ≠ some '#')
    (hbracket : line.head? ≠ some '[') :
    loadLine R l line =
      match R.ipNet line with
      | some n => l.modify (·.addNet n)
      | none =>
        match R.ipAddr line with
        | some a => l.modify (·.addNet ⟨a, 8 * a.length⟩)
        | none => l.modify (·.push line) := by
  have hheader : ∀ h : Str, h.head? = some '[' → line ≠ h := by
    rintro h hh rfl
    exact hbracket hh
  have hpair : ∀ h h' : Str, h.head? = some '[' → h'.head? = some '[' → ¬(line = h ∨ line = h') := by
    rintro h h' hh hh' (heq | heq)
    · exact hheader h hh heq
    · exact hheader h' hh' heq
  unfold loadLine
  rw [if_neg hne, if_neg hhash, if_neg (hpair _ _ rfl rfl), if_neg (hpair _ _ rfl rfl),
    if_neg (hheader _ rfl), if_neg (hpair _ _ rfl rfl), if_neg (hpair _ _ rfl rfl)]

theorem loadLine_host (hP : P.Lawful) (hR : Agrees P R) {l : Loading} {h : Str}
    (hh : Acl.HostRule P h) : loadLine R l h = l.modify (·.push h) := by
  have hnone : R.ipNet h = none ∧ R.ipAddr h = none := by
    constructor
    · by_contra hn
      exact fromString_ne_none hP hR (Or.inl hn) hh.no_subnet
    · by_contra hn
      exact fromString_ne_none hP hR (Or.inr hn) hh.no_subnet
  have hhash : h.head? ≠ some '#' := fun hm => hh.no_hash (List.mem_of_head? hm)
  rw [loadLine_rule hh.ne_nil hhash hh.no_bracket, hnone.1, hnone.2]

theorem loadLine_subnet (hP : P.Lawful) (hR : Agrees P R) {l : Loading} {s : Subnet}
    (hs : Acl.ReadSubnet P s) :
    loadLine R l (Subnet.print P s) = l.modify (·.addNet (ofSubnet s)) := by
  obtain ⟨t, ht⟩ := hs
  obtain ⟨hne, hc⟩ := Subnet.print_text hP ht
  have hhash : (Subnet.print P s).head? ≠ some '#' := fun hm => (hc _ (List.mem_of_head? hm)).2.1 rfl
  have hbracket : (Subnet.print P s).head? ≠ some '[' := fun hm => (hc _ (List.mem_of_head? hm)).2.2 rfl
  rw [loadLine_rule hne hhash hbracket]
  rcases read_print hP hR ht with hnet | ⟨hnet, haddr, hfull⟩
  · rw [hnet]
  · rw [hnet, haddr, hfull]

/-- The rules of a section after a printed list. -/
def Rules.extend (r : Rules) (ss : List Subnet) (hs : List Str) : Rules where
  ipv4 := r.ipv4 ++ (ss.map ofSubnet).filter IpNet.isV4
  ipv6 := r.ipv6 ++ (ss.map ofSubnet).filter (fun n => !n.isV4)
  rule := r.rule ++ hs

theorem Rules.extend_nil (r : Rules) : r.extend [] [] = r := by
  simp [Rules.extend]

theorem Rules.extend_subnet (r : Rules) (s : Subnet) (ss : List Subnet) (hs : List Str) :
    r.extend (s :: ss) hs = (r.addNet (ofSubnet s)).extend ss hs := by
  unfold Rules.extend Rules.addNet
  cases hv : (ofSubnet s).isV4 with
  | true => simp [hv]
  | false => simp [hv]

theorem Rules.extend_host (r : Rules) (h : Str) (hs : List Str) :
    r.extend [] (h :: hs) = (r.push h).extend [] hs := by
  simp [Rules.extend, Rules.push]

theorem Loading.modify_modify (l : Loading) (f g : Rules → Rules) :
    (l.modify f).modify g = l.modify (fun r => g (f r)) := by
  unfold Loading.modify
  cases hcurr : l.curr <;> rfl

theorem Loading.modify_id (l : Loading) : l.modify (fun r => r) = l := by
  obtain ⟨mode, outboundBlock, bypass, proxy, curr⟩ := l
  cases curr <;> rfl

theorem load_hosts (hP : P.Lawful) (hR : Agrees P R) {hs : List Str}
    (hh : ∀ h ∈ hs, Acl.HostRule P h) (l : Loading) :
    hs.foldl (loadLine R) l = l.modify (·.extend [] hs) := by
  induction hs generalizing l with
  | nil => simp only [List.foldl_nil, Rules.extend_nil, Loading.modify_id]
  | cons h hs ih =>
    rw [List.foldl_cons, loadLine_host hP hR (hh h List.mem_cons_self),
      ih (fun x hx => hh x (List.mem_cons_of_mem h hx)), Loading.modify_modify]
    simp only [Rules.extend_host]

theorem load_rules (hP : P.Lawful) (hR : Agrees P R) {ss : List Subnet} {hs : List Str}
    (hss : ∀ s ∈ ss, Acl.ReadSubnet P s) (hhs : ∀ h ∈ hs, Acl.HostRule P h) (l : Loading) :
    (ss.map (Subnet.print P) ++ hs).foldl (loadLine R) l = l.modify (·.extend ss hs) := by
  induction ss generalizing l with
  | nil => exact load_hosts hP hR hhs l
  | cons s ss ih =>
    rw [List.map_cons, List.cons_append, List.foldl_cons,
      loadLine_subnet hP hR (hss s List.mem_cons_self),
      ih (fun x hx => hss x (List.mem_cons_of_mem s hx)), Loading.modify_modify]
    simp only [Rules.extend_subnet]

/-- A printed list, with its header, loaded from any section. -/
theorem load_block (hP : P.Lawful) (hR : Agrees P R) {c : Section} {header : Str}
    (hheader : ∀ l, loadLine R l header = { l with curr := c }) {ss : List Subnet} {hs : List Str}
    (hss : ∀ s ∈ ss, Acl.ReadSubnet P s) (hhs : ∀ h ∈ hs, Acl.HostRule P h) (l : Loading) :
    ∃ c', (Acl.blockLines header (ss.map (Subnet.print P) ++ hs)).foldl (loadLine R) l =
      { ({ l with curr := c }).modify (·.extend ss hs) with curr := c' } := by
  unfold Acl.blockLines
  split
  · refine ⟨c, ?_⟩
    rw [List.foldl_cons, hheader, load_rules hP hR hss hhs]
    cases c <;> rfl
  · rename_i h
    simp only [ne_eq, not_not, List.append_eq_nil_iff, List.map_eq_nil_iff] at h
    obtain ⟨rfl, rfl⟩ := h
    refine ⟨l.curr, ?_⟩
    rw [show (fun r : Rules => r.extend [] []) = fun r => r from funext Rules.extend_nil,
      Loading.modify_id]
    rfl

/-- An import is a comment to `sslocal`. -/
theorem load_imports (us : List U) (l : Loading) :
    (us.map (Acl.importLine P)).foldl (loadLine R) l = l := by
  induction us with
  | nil => rfl
  | cons u us ih => exact ih

/-! ## Loading a saved ACL -/

/-- What `sslocal` has to make of an ACL. -/
structure Means (a : Acl U) (c : AccessControl) : Prop where
  mode : c.isDefaultInProxyList = !a.bypass
  bypassRules : c.blackList.rule = a.bypassHostnames
  proxyRules : c.whiteList.rule = a.proxyHostnames
  -- the IP rules, in the section that is consulted
  ipv4 : c.consulted.ipv4 = (a.subnets.map ofSubnet).filter IpNet.isV4
  ipv6 : c.consulted.ipv6 = (a.subnets.map ofSubnet).filter (fun n => !n.isV4)
  noIp : c.ignored.ipv4 = [] ∧ c.ignored.ipv6 = []
  noBlock : c.outboundBlock = .empty

variable {X : Crates}

/-- Networks that cannot contain the address may be left out. -/
theorem any_contains {subnets : List Subnet} {ip : List UInt8} {p : IpNet → Bool}
    (hp : ∀ n : IpNet, X.contains n ip = true → p n = true) :
    ((subnets.map ofSubnet).filter p).any (X.contains · ip) = subnets.any fun s => X.contains (ofSubnet s) ip := by
  rw [Bool.eq_iff_iff]
  simp only [List.any_eq_true, List.mem_filter, List.mem_map]
  constructor
  · rintro ⟨n, ⟨⟨s, hs, rfl⟩, -⟩, hc⟩
    exact ⟨s, hs, hc⟩
  · rintro ⟨s, hs, hc⟩
    exact ⟨_, ⟨⟨s, hs, rfl⟩, hp _ hc⟩, hc⟩

/-- An address is proxied if a subnet of the ACL contains it, or, where unlisted addresses are
proxied, if none does. -/
theorem Means.checkIpInProxyList (hX : X.Lawful) {a : Acl U} {c : AccessControl} (h : Means a c) {ip : List UInt8}
    (hip : ip.length = 4 ∨ ip.length = 16) :
    c.checkIpInProxyList X ip =
      if a.bypass then a.subnets.any (fun s => X.contains (ofSubnet s) ip)
      else !a.subnets.any (fun s => X.contains (ofSubnet s) ip) := by
  have hmatched : c.consulted.checkIpMatched X ip = a.subnets.any (fun s => X.contains (ofSubnet s) ip) := by
    unfold Rules.checkIpMatched
    rw [h.ipv4, h.ipv6]
    rcases hip with hip | hip
    · rw [if_pos hip]
      refine any_contains fun n hn => ?_
      simp [IpNet.isV4, ((hX n ip).1 hn).1, hip]
    · have hne : ¬ip.length = 4 := by omega
      rw [if_neg hne]
      refine any_contains fun n hn => ?_
      simp [IpNet.isV4, ((hX n ip).1 hn).1, hne]
  have hmode := h.mode
  unfold AccessControl.isDefaultInProxyList at hmode
  unfold AccessControl.checkIpInProxyList
  unfold AccessControl.consulted at hmatched
  cases hm : c.mode with
  | blackList =>
    simp only [hm] at hmode hmatched
    have hb : a.bypass = false := by simpa using hmode.symm
    rw [hb, hmatched]
    rfl
  | whiteList =>
    simp only [hm] at hmode hmatched
    have hb : a.bypass = true := by simpa using hmode.symm
    rw [hb, hmatched]
    rfl

/-- The loop variables after the printed lines. -/
theorem foldl_print (hP : P.Lawful) (hR : Agrees P R) {a : Acl U} (hw : Acl.WellFormed P a) :
    ∃ c, (bufLines [] (Acl.print P a)).foldl (loadLine R) .start =
      ⟨if a.bypass then .whiteList else .blackList, .empty,
        Rules.empty.extend (if a.bypass then [] else a.subnets) a.bypassHostnames,
        Rules.empty.extend (if a.bypass then a.subnets else []) a.proxyHostnames, c⟩ := by
  have hB : ∀ l, loadLine R l "[bypass_list]".toList = { l with curr := .bypass } := fun l => rfl
  have hX : ∀ l, loadLine R l "[proxy_list]".toList = { l with curr := .proxy } := fun l => rfl
  have hM : loadLine R .start (Acl.modeLine a) =
      ⟨if a.bypass then .whiteList else .blackList, .empty, .empty, .empty, .bypass⟩ := by
    unfold Acl.modeLine
    cases a.bypass <;> rfl
  obtain ⟨hsb, hsp⟩ := Acl.readSubnet_of_mode hw
  obtain ⟨c1, h1⟩ := load_block hP hR hB hsb hw.bypassHost
    ⟨if a.bypass then .whiteList else .blackList, .empty, .empty, .empty, .bypass⟩
  obtain ⟨c2, h2⟩ := load_block hP hR hX hsp hw.proxyHost
    ⟨if a.bypass then .whiteList else .blackList, .empty,
      Rules.empty.extend (if a.bypass then [] else a.subnets) a.bypassHostnames, .empty, c1⟩
  refine ⟨c2, ?_⟩
  rw [Acl.print_eq, bufLines_unlines (Acl.isBreak_printLines hP hw)]
  unfold Acl.printLines
  rw [List.foldl_append, List.foldl_append, List.foldl_append, Acl.bypassList_eq, Acl.proxyList_eq,
    List.foldl_cons, List.foldl_nil, hM, h1, load_imports]
  exact h2

/-- **A saved ACL means the same to `sslocal`.** -/
theorem load_print [DecidableEq U] (hP : P.Lawful) (hR : Agrees P R) (hX : X.Lawful) {a : Acl U}
    (ha : Acl.Reachable P a) :
    Means a (loadLines R (Acl.print P a)) ∧
      ∀ ip : List UInt8, ip.length = 4 ∨ ip.length = 16 →
        (loadLines R (Acl.print P a)).checkIpInProxyList X ip =
          if a.bypass then a.subnets.any (fun s => X.contains (ofSubnet s) ip)
          else !a.subnets.any (fun s => X.contains (ofSubnet s) ip) := by
  obtain ⟨c, hload⟩ := foldl_print hP hR ha.wellFormed
  have hmeans : Means a (loadLines R (Acl.print P a)) := by
    unfold loadLines
    rw [hload]
    cases hb : a.bypass with
    | true => exact ⟨by rw [hb]; rfl, rfl, rfl, rfl, rfl, ⟨rfl, rfl⟩, rfl⟩
    | false => exact ⟨by rw [hb]; rfl, rfl, rfl, rfl, rfl, ⟨rfl, rfl⟩, rfl⟩
  exact ⟨hmeans, fun ip hip => hmeans.checkIpInProxyList hX hip⟩

/-! ## Parsers over a parser of addresses -/

/-- The number after the `/` of a network: at most `maxDigits` digits, below `upto`. -/
def readNumber (maxDigits upto : ℕ) (s : Str) : Option ℕ :=
  if s ≠ [] ∧ s.length ≤ maxDigits ∧ s.all Char.isDigit ∧ Nat.ofDigitChars 10 s 0 < upto then
    some (Nat.ofDigitChars 10 s 0)
  else none

/-- An address, a `/` and the number of its bits. -/
def readNet (ipAddr : Str → Option (List UInt8)) (line : Str) : Option IpNet :=
  match splitOnce '/' line with
  | (_, none) => none
  | (addr, some size) =>
    match ipAddr addr with
    | none => none
    | some a => (if a.length = 4 then readNumber 2 33 size else readNumber 3 129 size).map (⟨a, ·⟩)

theorem readNumber_decimal {maxDigits upto n : ℕ} (hn : n < upto) (hup : upto ≤ 10 ^ maxDigits)
    (hmax : 0 < maxDigits) : readNumber maxDigits upto (decimal n) = some n := by
  have hval : Nat.ofDigitChars 10 (decimal n) 0 = n := Nat.ofDigitChars_ten_toDigits
  have hlen : (decimal n).length ≤ maxDigits := by
    unfold decimal
    rw [Nat.length_toDigits_le_iff (by decide) hmax]
    omega
  have hdigit : (decimal n).all Char.isDigit = true := by
    rw [List.all_eq_true]
    intro c hc
    exact isDigit_of_mem_decimal hc
  unfold readNumber
  rw [hval, if_pos ⟨decimal_ne_nil n, hlen, hdigit, hn⟩]

theorem of_readNumber {maxDigits upto n : ℕ} {s : Str} (h : readNumber maxDigits upto s = some n) :
    s ≠ [] ∧ (∀ c ∈ s, c.isDigit = true) ∧ Nat.ofDigitChars 10 s 0 = n ∧ n < upto := by
  unfold readNumber at h
  split at h
  · rename_i hs
    obtain ⟨hne, -, hdigit, hlt⟩ := hs
    cases h
    exact ⟨hne, List.all_eq_true.1 hdigit, rfl, hlt⟩
  · cases h

/-- Networks that are read with the parser of addresses. -/
def Parsers.over (ipAddr : Str → Option (List UInt8)) : Parsers := ⟨readNet ipAddr, ipAddr⟩

theorem agrees_over {U : Type} {P : Platform U} (hP : P.Lawful)
    (hslash : ∀ t a, P.parseNumericAddress t = some a → '/' ∉ t) : Agrees P (.over P.parseNumericAddress) where
  eq _ := rfl
  no_slash := hslash
  ipNet_text line n h := by
    have hline := splitOnce_eq '/' line
    simp only [Parsers.over, readNet] at h
    split at h
    · cases h
    · rename_i addr size hsplit
      rw [hsplit] at hline
      split at h
      · cases h
      · rename_i a ha
        have hlen := hP.address_length _ _ ha
        obtain ⟨k, hk, rfl⟩ := Option.map_eq_some_iff.1 h
        have hsize : size ≠ [] ∧ (∀ c ∈ size, c.isDigit = true) ∧ Nat.ofDigitChars 10 size 0 ≤ 8 * a.length := by
          split at hk
          · obtain ⟨hne, hdigits, hval, hlt⟩ := of_readNumber hk
            exact ⟨hne, hdigits, by omega⟩
          · obtain ⟨hne, hdigits, hval, hlt⟩ := of_readNumber hk
            exact ⟨hne, hdigits, by omega⟩
        exact ⟨addr, size, hline, ha, hsize⟩
  ipNet_decimal addr a n ha hle := by
    have ha : P.parseNumericAddress addr = some a := ha
    have hlen := hP.address_length _ _ ha
    have hsize : (if a.length = 4 then readNumber 2 33 (decimal n) else readNumber 3 129 (decimal n)) = some n := by
      split
      · exact readNumber_decimal (by omega) (by decide) (by decide)
      · exact readNumber_decimal (by omega) (by decide) (by decide)
    simp only [Parsers.over, readNet, splitOnce_append (hslash _ _ ha), ha, hsize, Option.map_some]

/-- Patterns are the hosts that they match; networks are compared bit by bit. -/
def Crates.plain : Crates where
  isMatch pattern host := pattern = host
  contains n ip := n.addr.length = ip.length && (bits n.addr).take n.prefixLen = (bits ip).take n.prefixLen

theorem Crates.plain_lawful : Crates.plain.Lawful := by
  intro n ip
  simp [Crates.plain]

theorem load_print_sample :
    ∃ a, Acl.fromReader Platform.ipv4 Acl.sampleText false = .ok a ∧ a.subnets.length = 1 ∧
      Means a (loadLines (.over Platform.ipv4.parseNumericAddress) (Acl.print Platform.ipv4 a)) := by
  have hread : Acl.fromReader Platform.ipv4 Acl.sampleText false = .ok _ := rfl
  have hagrees : Agrees Platform.ipv4 (.over Platform.ipv4.parseNumericAddress) := by
    refine agrees_over Platform.ipv4_lawful ?_
    intro t a ht hslash
    obtain ⟨-, hc⟩ := Platform.ipv4_lawful.host_text t a ht
    rw [Platform.ipv4_text ht] at hc
    exact (hc '/' hslash).2.2.1 rfl
  exact ⟨_, hread, by decide, (load_print Platform.ipv4_lawful hagrees Crates.plain_lawful (.fromReader hread)).1⟩

end Sslocal

end BlackButton
