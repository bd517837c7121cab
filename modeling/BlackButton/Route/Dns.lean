import Mathlib.Data.List.Dedup
import BlackButton.Route.PtrName

/-!
# The local DNS server (`local/dns/server.rs`)

A name is looked up at the local or at the remote server. Where the ACL cannot tell from
the name, both are asked, and the local answer is looked at to see which of the two to
use. The crate `trust_dns` is a parameter (`Names`).

* `shouldForwardByResponse_evidence`: **a local answer is used only on evidence** in it: a record
  of the name asked for, or of one that records in front of it lead to, that points to
  what the ACL bypasses. The branch that the code marks as unreachable is taken only at
  a `PTR` record of such a name.
* `Select.run_picks`: **the answer does not depend on which server is faster**, and there is one.
* `resolve_routes`: a connection to an address that was given out goes the way the name
  was looked up.
-/

namespace BlackButton

namespace Sslocal

/-! ## Names, records, messages -/

/-- The names of the crate `trust_dns`. -/
structure Names where
  Name : Type
  -- `==`
  same : Name → Name → Bool
  -- `cmp` gives `Equal`
  equal : Name → Name → Bool
  isFqdn : Name → Bool
  toAscii : Name → Str
  -- `iter`
  labels : Name → List Bytes
  -- `from_str`
  fromStr : Str → Option Name

inductive RecordType
  | a
  | aaaa
  | cname
  | mx
  | ns
  | ptr
  | any
  | other (code : UInt16)
  deriving DecidableEq

/-- `RData`, with the fields that are looked at. -/
inductive RData (N : Names)
  | a (ip : Relay.Ipv4Addr)
  | aaaa (ip : Relay.Ipv6Addr)
  | cname (name : N.Name)
  | mx (exchange : N.Name)
  | ns (name : N.Name)
  | ptr (name : N.Name)
  | other

structure Record (N : Names) where
  name : N.Name
  recordType : RecordType
  rdata : RData N

structure Query (N : Names) where
  name : N.Name
  queryType : RecordType
  -- `query_class() == DNSClass::IN`
  isIn : Bool

inductive ResponseCode
  | noError
  | servFail
  | notImp
  | other (code : UInt16)
  deriving DecidableEq

structure Message (N : Names) where
  id : UInt16
  -- `message_type() == MessageType::Query`
  isQuery : Bool
  -- `op_code() == OpCode::Query`
  opQuery : Bool
  recursionDesired : Bool
  recursionAvailable : Bool
  responseCode : ResponseCode
  queries : List (Query N)
  answers : List (Record N)
  additionals : List (Record N)

variable {N : Names} (X : Crates)

/-- The octets of an IPv6 address. -/
def octets (ip : Relay.Ipv6Addr) : List UInt8 := ip.val.flatMap Relay.putU16

/-! ## Which side to ask -/

/-- `check_name_in_proxy_list`. -/
def checkNameInProxyList (acl : AccessControl) (name : N.Name) : Option Bool :=
  -- "remove the last dot from FQDN"
  if N.isFqdn name then acl.checkHostInProxyList X (N.toAscii name).dropLast
  else some acl.isDefaultInProxyList

/-- `ServerAddr`. -/
inductive ServerAddr
  | socketAddr (addr : Relay.SocketAddr)
  | domainName (dn : Str) (port : UInt16)
  deriving DecidableEq

/-- Whether a query is for the name of one of the proxy servers. -/
def asksForServer (servers : List ServerAddr) (query : Query N) : Bool :=
  servers.any fun
    | .domainName dn _ =>
      match N.fromStr dn with
      | some name => N.equal query.name name
      | none => false
    | .socketAddr _ => false

/-- `should_forward_by_query`. -/
def shouldForwardByQuery (acl : Option AccessControl) (servers : List ServerAddr) (query : Query N) : Option Bool :=
  if asksForServer servers query = true then some false
  else
    match acl with
    | none => some true
    | some acl =>
      if query.isIn = false then some acl.isDefaultInProxyList
      else if query.queryType = .ptr then some (shouldForwardByPtrName X acl (N.labels query.name))
      else
        match checkNameInProxyList X acl query.name with
        | some value => some value
        | none => if acl.isIpEmpty && acl.isHostEmpty then some acl.isDefaultInProxyList else none

/-- What `should_forward_by_response` returns, or `unreachable!()`. -/
inductive Verdict
  | forward (value : Bool)
  | unreachable
  deriving DecidableEq

/-- `examine_name!`: the names with a new one, and whether to forward. -/
def examineName (acl : AccessControl) (names : List N.Name) (name : N.Name) (isAnswer : Bool) : List N.Name × Bool :=
  (name :: names,
    if isAnswer then (checkNameInProxyList X acl name).getD acl.isDefaultInProxyList else acl.isDefaultInProxyList)

/-- The data of a record: the names with those in it, and whether to forward. -/
def examineRData (acl : AccessControl) (names : List N.Name) (isAnswer : Bool) : RData N → Option (List N.Name × Bool)
  | .a ip => some (names, acl.checkIpInProxyList X ip.val)
  | .aaaa ip => some (names, acl.checkIpInProxyList X (octets ip))
  | .mx exchange => some (examineName X acl names exchange isAnswer)
  | .ns name => some (examineName X acl names name isAnswer)
  | .ptr _ => none
  | .cname _ => some (names, acl.isDefaultInProxyList)
  | .other => some (names, acl.isDefaultInProxyList)

/-- `examine_record!`: a verdict, or the names to go on with. -/
def examineRecord (acl : AccessControl) (query : Query N) (names : List N.Name) (rec : Record N) (isAnswer : Bool) :
    Verdict ⊕ List N.Name :=
  match rec.rdata with
  | .cname name =>
    match if isAnswer then checkNameInProxyList X acl name else none with
    | some value => .inl (.forward value)
    | none => .inr (name :: names)
  | rdata =>
    if isAnswer = true ∧ query.queryType ≠ .any ∧ rec.recordType ≠ query.queryType then .inl (.forward true)
    else
      match examineRData X acl names isAnswer rdata with
      | none => .inl .unreachable
      | some (names, forward) => if forward = false then .inl (.forward false) else .inr names

/-- Whether one of the names is the owner of a record. -/
def owns (names : List N.Name) (rec : Record N) : Bool := names.any fun name => N.same rec.name name

/-- The loop over the answers. -/
def examineAnswers (acl : AccessControl) (query : Query N) : List N.Name → List (Record N) → Verdict ⊕ List N.Name
  | names, [] => .inr names
  | names, rec :: recs =>
    if owns names rec = false then .inl (.forward true)
    else
      match examineRecord X acl query names rec true with
      | .inl v => .inl v
      | .inr names => examineAnswers acl query names recs

/-- The loop over the additional records. -/
def examineAdditionals (acl : AccessControl) (query : Query N) :
    List N.Name → List (Record N) → Verdict ⊕ List N.Name
  | names, [] => .inr names
  | names, rec :: recs =>
    if owns names rec = true then
      match examineRecord X acl query names rec false with
      | .inl v => .inl v
      | .inr names => examineAdditionals acl query names recs
    else examineAdditionals acl query names recs

/-- `should_forward_by_response`, with an ACL; `none` is a response that has failed. -/
def shouldForwardByResponse (acl : AccessControl) (query : Query N) : Option (Message N) → Verdict
  | none => .forward true
  | some response =>
    match examineAnswers X acl query [query.name] response.answers with
    | .inl v => v
    | .inr names =>
      match examineAdditionals X acl query names response.additionals with
      | .inl v => v
      | .inr _ => .forward true

/-! ## What a local answer is used for -/

/-- The name that the data of a record leads to. -/
def RData.target : RData N → Option N.Name
  | .cname name => some name
  | .mx exchange => some exchange
  | .ns name => some name
  | _ => none

/-- The names that some records lead to from `names`, in their order. -/
def reached : List N.Name → List (Record N) → List N.Name
  | names, [] => names
  | names, rec :: recs =>
    if owns names rec = true then reached (rec.rdata.target.toList ++ names) recs else reached names recs

/-- A record that says that the ACL bypasses what it points to. -/
inductive Bypassed (acl : AccessControl) (rec : Record N) : Prop
  | a (ip : Relay.Ipv4Addr) (h : rec.rdata = .a ip) (hip : acl.checkIpInProxyList X ip.val = false)
  | aaaa (ip : Relay.Ipv6Addr) (h : rec.rdata = .aaaa ip) (hip : acl.checkIpInProxyList X (octets ip) = false)
  | name (name : N.Name) (h : rec.rdata.target = some name) (hname : checkNameInProxyList X acl name = some false)
  -- by default
  | default (h : acl.isDefaultInProxyList = false)

variable {X} {acl : AccessControl} {query : Query N} {names : List N.Name} {rec : Record N} {isAnswer : Bool}

theorem examineName_false {name : N.Name} {names' : List N.Name}
    (h : examineName X acl names name isAnswer = (names', false)) :
    checkNameInProxyList X acl name = some false ∨ acl.isDefaultInProxyList = false := by
  have hfalse := congrArg Prod.snd h
  unfold examineName at hfalse
  cases isAnswer with
  | false => exact Or.inr hfalse
  | true =>
    cases hcheck : checkNameInProxyList X acl name with
    | none =>
      rw [hcheck] at hfalse
      exact Or.inr hfalse
    | some value =>
      rw [hcheck] at hfalse
      exact Or.inl (congrArg some hfalse)

theorem examineRData_spec (rec : Record N) {d : RData N} {names' : List N.Name} {forward : Bool} (hd : ∀ name, d ≠ .cname name)
    (h : examineRData X acl names isAnswer d = some (names', forward)) :
    names' = d.target.toList ++ names ∧ (forward = false → rec.rdata = d → Bypassed X acl rec) := by
  cases d with
  | cname name => exact absurd rfl (hd name)
  | a ip =>
    cases h
    exact ⟨rfl, fun hf hr => .a ip hr hf⟩
  | aaaa ip =>
    cases h
    exact ⟨rfl, fun hf hr => .aaaa ip hr hf⟩
  | mx exchange =>
    obtain hname : examineName X acl names exchange isAnswer = (names', forward) := by simpa [examineRData] using h
    refine ⟨(congrArg Prod.fst hname).symm, fun hf hr => ?_⟩
    subst hf
    rcases examineName_false hname with hfalse | hfalse
    · exact .name exchange (by rw [hr]; rfl) hfalse
    · exact .default hfalse
  | ns name =>
    obtain hname : examineName X acl names name isAnswer = (names', forward) := by simpa [examineRData] using h
    refine ⟨(congrArg Prod.fst hname).symm, fun hf hr => ?_⟩
    subst hf
    rcases examineName_false hname with hfalse | hfalse
    · exact .name name (by rw [hr]; rfl) hfalse
    · exact .default hfalse
  | ptr name => cases h
  | other =>
    cases h
    exact ⟨rfl, fun hf _ => .default hf⟩

/-- A record that is no alias. -/
theorem examineRecord_data (hd : ∀ name, rec.rdata ≠ .cname name) :
    examineRecord X acl query names rec isAnswer =
      if isAnswer = true ∧ query.queryType ≠ .any ∧ rec.recordType ≠ query.queryType then .inl (.forward true)
      else
        match examineRData X acl names isAnswer rec.rdata with
        | none => .inl .unreachable
        | some (names, forward) => if forward = false then .inl (.forward false) else .inr names := by
  unfold examineRecord
  cases hdata : rec.rdata with
  | cname name => exact absurd hdata (hd name)
  | _ => rfl

/-- **What one record can do**: bypass on its own evidence, be a pointer, or lead on to the name in it. -/
theorem examineRecord_spec (X : Crates) (acl : AccessControl) (query : Query N) (names : List N.Name) (rec : Record N)
    (isAnswer : Bool) :
    (examineRecord X acl query names rec isAnswer = .inl (.forward false) → Bypassed X acl rec) ∧
      (examineRecord X acl query names rec isAnswer = .inl .unreachable → ∃ name, rec.rdata = .ptr name) ∧
      ∀ names', examineRecord X acl query names rec isAnswer = .inr names' →
        names' = rec.rdata.target.toList ++ names := by
  by_cases hd : ∃ name, rec.rdata = .cname name
  · obtain ⟨name, hname⟩ := hd
    unfold examineRecord
    simp only [hname]
    cases hcheck : (if isAnswer then checkNameInProxyList X acl name else none) with
    | some value =>
      refine ⟨fun hv => ?_, nofun, nofun⟩
      cases hv
      cases isAnswer with
      | false => cases hcheck
      | true => exact .name name (by rw [hname]; rfl) hcheck
    | none =>
      refine ⟨nofun, nofun, fun names' hn => ?_⟩
      cases hn
      rfl
  · have hd : ∀ name, rec.rdata ≠ .cname name := fun name hname => hd ⟨name, hname⟩
    rw [examineRecord_data hd]
    by_cases htype : isAnswer = true ∧ query.queryType ≠ .any ∧ rec.recordType ≠ query.queryType
    · rw [if_pos htype]
      exact ⟨nofun, nofun, nofun⟩
    rw [if_neg htype]
    cases hdata : examineRData X acl names isAnswer rec.rdata with
    | none =>
      refine ⟨nofun, fun _ => ?_, nofun⟩
      cases hr : rec.rdata with
      | ptr name => exact ⟨name, rfl⟩
      | _ => rw [hr] at hdata; cases hdata
    | some x =>
      obtain ⟨names', forward⟩ := x
      obtain ⟨hnames, hfalse⟩ := examineRData_spec rec hd hdata
      cases forward with
      | false => exact ⟨fun _ => hfalse rfl rfl, nofun, nofun⟩
      | true =>
        refine ⟨nofun, nofun, fun names'' hn => ?_⟩
        cases hn
        exact hnames

theorem reached_append (recs recs' : List (Record N)) :
    ∀ names : List N.Name, reached names (recs ++ recs') = reached (reached names recs) recs' := by
  induction recs with
  | nil => intro names; rfl
  | cons rec recs ih =>
    intro names
    rw [List.cons_append, reached, reached]
    by_cases h : owns names rec = true
    · rw [if_pos h, if_pos h, ih]
    · rw [if_neg h, if_neg h, ih]

/-- A record among others that is looked at, and what it says. -/
def Shows (names : List N.Name) (recs : List (Record N)) (P : Record N → Prop) : Prop :=
  ∃ before rec after, recs = before ++ rec :: after ∧ owns (reached names before) rec = true ∧ P rec

theorem shows_cons {recs : List (Record N)} {P : Record N → Prop} {names' : List N.Name}
    (hnames : reached names [rec] = names') (h : Shows names' recs P) : Shows names (rec :: recs) P := by
  obtain ⟨before, rec', after, rfl, howns, hP⟩ := h
  refine ⟨rec :: before, rec', after, rfl, ?_, hP⟩
  rw [← hnames, ← reached_append] at howns
  exact howns

theorem shows_append {recs recs' : List (Record N)} {P : Record N → Prop} {names' : List N.Name}
    (hnames : reached names recs = names') (h : Shows names' recs' P) : Shows names (recs ++ recs') P := by
  obtain ⟨before, rec', after, rfl, howns, hP⟩ := h
  refine ⟨recs ++ before, rec', after, by simp, ?_, hP⟩
  rw [reached_append, hnames]
  exact howns

theorem Shows.left {recs : List (Record N)} {P : Record N → Prop} (h : Shows names recs P) (recs' : List (Record N)) :
    Shows names (recs ++ recs') P := by
  obtain ⟨before, rec', after, rfl, howns, hP⟩ := h
  exact ⟨before, rec', after ++ recs', by simp, howns, hP⟩

/-- What a loop over records comes to. -/
structure Examined (X : Crates) (acl : AccessControl) (names : List N.Name) (recs : List (Record N))
    (result : Verdict ⊕ List N.Name) : Prop where
  bypass : result = .inl (.forward false) → Shows names recs (Bypassed X acl)
  unreachable : result = .inl .unreachable → Shows names recs fun rec => ∃ name, rec.rdata = .ptr name
  names : ∀ names', result = .inr names' → names' = reached names recs

theorem reached_singleton (h : owns names rec = true) : reached names [rec] = rec.rdata.target.toList ++ names := by
  rw [reached, if_pos h, reached]

/-- A record that is looked at, in front of others. -/
theorem examined_cons {recs : List (Record N)} {next : List N.Name → Verdict ⊕ List N.Name}
    (howns : owns names rec = true) (h : ∀ names, Examined X acl names recs (next names)) :
    Examined X acl names (rec :: recs)
      (match examineRecord X acl query names rec isAnswer with
      | .inl v => .inl v
      | .inr names => next names) := by
  obtain ⟨hbypass, hunreachable, hnames⟩ := examineRecord_spec X acl query names rec isAnswer
  have hhead {P : Record N → Prop} (hP : P rec) : Shows names (rec :: recs) P := ⟨[], rec, recs, rfl, howns, hP⟩
  cases hrec : examineRecord X acl query names rec isAnswer with
  | inl v =>
    rw [hrec] at hbypass hunreachable
    exact ⟨fun hv => hhead (hbypass hv), fun hv => hhead (hunreachable hv), nofun⟩
  | inr names' =>
    have hreached : reached names [rec] = names' := (reached_singleton howns).trans (hnames names' hrec).symm
    obtain ⟨hb, hu, hn⟩ := h names'
    refine ⟨fun hv => shows_cons hreached (hb hv), fun hv => shows_cons hreached (hu hv), fun names'' hv => ?_⟩
    rw [hn names'' hv, ← hreached, ← reached_append]
    rfl

theorem examined_answers (X : Crates) (acl : AccessControl) (query : Query N) (recs : List (Record N)) :
    ∀ names, Examined X acl names recs (examineAnswers X acl query names recs) := by
  induction recs with
  | nil => exact fun names => ⟨nofun, nofun, fun names' h => by cases h; rfl⟩
  | cons rec recs ih =>
    intro names
    rw [examineAnswers]
    by_cases howns : owns names rec = false
    · rw [if_pos howns]
      exact ⟨nofun, nofun, nofun⟩
    · rw [if_neg howns]
      exact examined_cons (by simpa using howns) ih

theorem examined_additionals (X : Crates) (acl : AccessControl) (query : Query N) (recs : List (Record N)) :
    ∀ names, Examined X acl names recs (examineAdditionals X acl query names recs) := by
  induction recs with
  | nil => exact fun names => ⟨nofun, nofun, fun names' h => by cases h; rfl⟩
  | cons rec recs ih =>
    intro names
    rw [examineAdditionals]
    by_cases howns : owns names rec = true
    · rw [if_pos howns]
      exact examined_cons howns ih
    · rw [if_neg howns]
      -- a record of another name is passed over
      have hskip : reached names [rec] = names := by rw [reached, if_neg howns, reached]
      obtain ⟨hb, hu, hn⟩ := ih names
      refine ⟨fun hv => shows_cons hskip (hb hv), fun hv => shows_cons hskip (hu hv), fun names' hv => ?_⟩
      rw [hn names' hv, reached, if_neg howns]

/-- **A local answer is used only on evidence** in it: a record of the name that was asked for, or of one that the
records in front of it lead to, that points to what the ACL bypasses. The branch marked as unreachable is taken only
at a pointer of such a name. -/
theorem shouldForwardByResponse_evidence (response : Option (Message N)) :
    (shouldForwardByResponse X acl query response = .forward false → ∃ m, response = some m ∧
        Shows [query.name] (m.answers ++ m.additionals) (Bypassed X acl)) ∧
      (shouldForwardByResponse X acl query response = .unreachable → ∃ m, response = some m ∧
        Shows [query.name] (m.answers ++ m.additionals) fun rec => ∃ name, rec.rdata = .ptr name) := by
  cases response with
  | none => exact ⟨nofun, nofun⟩
  | some m =>
    obtain ⟨hb, hu, hn⟩ := examined_answers X acl query m.answers [query.name]
    simp only [shouldForwardByResponse]
    cases hanswers : examineAnswers X acl query [query.name] m.answers with
    | inl v =>
      rw [hanswers] at hb hu
      simp only
      refine ⟨fun hv => ⟨m, rfl, ?_⟩, fun hv => ⟨m, rfl, ?_⟩⟩
      · exact (hb (congrArg Sum.inl hv)).left _
      · exact (hu (congrArg Sum.inl hv)).left _
    | inr names =>
      have hreached := (hn names hanswers).symm
      obtain ⟨hb', hu', -⟩ := examined_additionals X acl query m.additionals names
      cases hadd : examineAdditionals X acl query names m.additionals with
      | inl v =>
        rw [hadd] at hb' hu'
        simp only [hadd]
        refine ⟨fun hv => ⟨m, rfl, ?_⟩, fun hv => ⟨m, rfl, ?_⟩⟩
        · exact shows_append hreached (hb' (congrArg Sum.inl hv))
        · exact shows_append hreached (hu' (congrArg Sum.inl hv))
      | inr names' =>
        simp only [hadd]
        exact ⟨nofun, nofun⟩

/-! ## Two servers at once -/

/-- The loop variables of `acl_lookup`, and what it returns. -/
structure Select (α : Type) where
  useRemote : Bool
  remoteResponse : Option α
  picked : Option (α × Bool)
  deriving DecidableEq

namespace Select

variable {α : Type}

/-- Which of the two futures is done first is open. -/
inductive Event (α : Type)
  | response (r : α)
  -- the local response, unless the remote one is to be used
  | decision (d : Option α)

/-- A turn of the loop around `select!`; a branch whose condition does not hold is not taken. -/
def step (s : Select α) : Event α → Option (Select α)
  | .response r =>
    if s.picked.isNone ∧ s.remoteResponse.isNone then
      if s.useRemote then some { s with picked := some (r, true) } else some { s with remoteResponse := some r }
    else none
  | .decision d =>
    if s.picked.isNone ∧ s.useRemote = false then
      match d, s.remoteResponse with
      | some l, _ => some { s with picked := some (l, false) }
      | none, some r => some { s with picked := some (r, true) }
      | none, none => some { s with useRemote := true }
    else none

def machine (α : Type) : Machine (Select α) (Event α) where
  init := ⟨false, none, none⟩
  step := step

/-- The futures that are asked give the response `r` and the decision `d`. -/
def Event.Gives (r : α) (d : Option α) : Event α → Prop
  | .response r' => r' = r
  | .decision d' => d' = d

/-- What is picked. -/
def outcome (r : α) : Option α → α × Bool
  | some l => (l, false)
  | none => (r, true)

/-- What a loop that is not done has found. -/
structure Inv (r : α) (d : Option α) (s : Select α) : Prop where
  response : ∀ r', s.remoteResponse = some r' → r' = r
  waits : s.useRemote = true → d = none ∧ s.remoteResponse = none
  picked : ∀ x, s.picked = some x → x = outcome r d

theorem Inv.step {r : α} {d : Option α} {s s' : Select α} (h : Inv r d s) {e : Event α} (he : e.Gives r d)
    (hs : s.step e = some s') : Inv r d s' := by
  cases e with
  | response r' =>
    obtain rfl : r' = r := he
    obtain ⟨⟨hpick, -⟩, hs⟩ := Option.ite_none_right_eq_some.1 hs
    by_cases huse : s.useRemote = true
    · rw [if_pos huse] at hs
      cases hs
      have hd := (h.waits huse).1
      refine ⟨h.response, h.waits, fun x hx => ?_⟩
      cases hx
      rw [hd]
      rfl
    · rw [if_neg huse] at hs
      cases hs
      refine ⟨fun r'' hr => ?_, fun huse' => absurd huse' huse, fun x hx => ?_⟩
      · cases hr
        rfl
      · exact h.picked x hx
  | decision d' =>
    obtain rfl : d' = d := he
    obtain ⟨⟨hpick, huse⟩, hs⟩ := Option.ite_none_right_eq_some.1 hs
    cases d' with
    | some l =>
      cases hs
      refine ⟨h.response, h.waits, fun x hx => ?_⟩
      cases hx
      rfl
    | none =>
      obtain ⟨useRemote, remoteResponse, picked⟩ := s
      cases remoteResponse with
      | some r' =>
        cases hs
        obtain rfl := h.response r' rfl
        refine ⟨h.response, h.waits, fun x hx => ?_⟩
        cases hx
        rfl
      | none =>
        cases hs
        exact ⟨h.response, fun _ => ⟨rfl, rfl⟩, h.picked⟩

theorem inv_init (r : α) (d : Option α) : Inv r d (machine α).init := by
  refine ⟨fun r' h => ?_, fun h => ?_, fun x h => ?_⟩
  · cases h
  · cases h
  · cases h

/-- **The answer does not depend on which server is faster**, and as long as there is none, one of the branches is
open: the last branch of `select!` is not reached. -/
theorem run_picks {r : α} {d : Option α} {es : List (Event α)} {s : Select α} (hes : ∀ e ∈ es, e.Gives r d)
    (h : (machine α).run (machine α).init es = some s) :
    (∀ x, s.picked = some x → x = outcome r d) ∧
      (s.picked = none → (s.step (.response r)).isSome ∨ (s.step (.decision d)).isSome) := by
  have hinv : ∀ {es : List (Event α)} {s s' : Select α}, (∀ e ∈ es, e.Gives r d) → Inv r d s →
      (machine α).run s es = some s' → Inv r d s' := by
    intro es
    induction es with
    | nil =>
      intro s s' _ hi hrun
      cases hrun
      exact hi
    | cons e es ih =>
      intro s s' hes hi hrun
      obtain ⟨s₁, hs₁, hrest⟩ := Option.bind_eq_some_iff.1 hrun
      exact ih (fun e' he' => hes e' (List.mem_cons_of_mem e he')) (hi.step (hes e List.mem_cons_self) hs₁) hrest
  have hi : Inv r d s := hinv hes (inv_init r d) h
  refine ⟨hi.picked, fun hnone => ?_⟩
  have hpick : s.picked.isNone := by rw [hnone]; rfl
  by_cases huse : s.useRemote = true
  · left
    have hresponse : s.remoteResponse.isNone := by rw [(hi.waits huse).2]; rfl
    unfold Select.step
    simp only [if_pos (And.intro hpick hresponse), if_pos huse, Option.isSome_some]
  · right
    have huse' : s.useRemote = false := by simpa using huse
    unfold Select.step
    simp only [if_pos (And.intro hpick huse')]
    cases d with
    | some l => rfl
    | none => cases s.remoteResponse <;> rfl

/-- The remote response is there first, and is not used. -/
theorem run_picks_remote_first :
    ∃ s, (machine ℕ).run (machine ℕ).init [.response 1, .decision (some 2)] = some s ∧ s.picked = some (2, false) := by
  obtain ⟨s, hrun, hx⟩ : ∃ s, (machine ℕ).run (machine ℕ).init [.response 1, .decision (some 2)] = some s ∧
      s.picked.isSome := ⟨_, rfl, rfl⟩
  obtain ⟨x, hx⟩ := Option.isSome_iff_exists.1 hx
  have hpicks := (run_picks (r := 1) (d := some 2) (by simp [Event.Gives]) hrun).1 x hx
  exact ⟨s, hrun, by rw [hx, hpicks]; rfl⟩

end Select

/-! ## A request -/

/-- The decision of the local future: `none` if it panics. -/
def decider (localResponse : Option (Message N)) : Verdict → Option (Option (Option (Message N)))
  | .forward true => some none
  | .forward false => some (some localResponse)
  | .unreachable => none

/-- **`acl_lookup`**: the response that it returns, and from which side, for what the two servers would answer. -/
inductive Looked (X : Crates) (acl : Option AccessControl) (servers : List ServerAddr) (query : Query N)
    (localResponse remoteResponse : Option (Message N)) : Option (Message N) × Bool → Prop
  | remote (h : shouldForwardByQuery X acl servers query = some true) :
      Looked X acl servers query localResponse remoteResponse (remoteResponse, true)
  | direct (h : shouldForwardByQuery X acl servers query = some false) :
      Looked X acl servers query localResponse remoteResponse (localResponse, false)
  | both (a : AccessControl) (d : Option (Option (Message N))) (es : List (Select.Event (Option (Message N))))
      (s : Select (Option (Message N))) (x : Option (Message N) × Bool) (ha : acl = some a)
      (h : shouldForwardByQuery X acl servers query = none)
      (hd : decider localResponse (shouldForwardByResponse X a query localResponse) = some d)
      (hes : ∀ e ∈ es, e.Gives remoteResponse d)
      (hrun : (Select.machine _).run (Select.machine _).init es = some s) (hx : s.picked = some x) :
      Looked X acl servers query localResponse remoteResponse x

/-- The addresses of the answers, for `add_to_reverse_lookup_cache`. -/
def learnedFrom (m : Message N) (forward : Bool) : List (List UInt8 × Bool) :=
  m.answers.filterMap fun rec =>
    match rec.rdata with
    | .a ip => some (ip.val, forward)
    | .aaaa ip => some (octets ip, forward)
    | _ => none

/-- `resolve`: the response, and what is learned; `looked` is what `acl_lookup` returns for the first query. -/
def resolve (request : Message N) (looked : Option (Message N) × Bool) : Message N × List (List UInt8 × Bool) :=
  let message : Message N := ⟨request.id, false, true, true, true, .noError, [], [], []⟩
  if request.recursionDesired = false then
    ({ message with recursionDesired := false, responseCode := .notImp }, [])
  else if request.opQuery = false ∨ request.isQuery = false then ({ message with responseCode := .notImp }, [])
  else
    match request.queries with
    | [] => (message, [])
    | _ :: _ =>
      match looked with
      | (some result, forward) => ({ result with id := request.id }, learnedFrom result forward)
      | (none, _) => ({ message with responseCode := .servFail }, [])

/-- **Which side a response is from**, and why. -/
theorem looked_spec {acl : AccessControl} {servers : List ServerAddr} {query : Query N}
    {localResponse remoteResponse : Option (Message N)} {x : Option (Message N) × Bool}
    (h : Looked X (some acl) servers query localResponse remoteResponse x) :
    (x = (remoteResponse, true) ∧ (shouldForwardByQuery X (some acl) servers query = some true ∨
        (shouldForwardByQuery X (some acl) servers query = none ∧
          shouldForwardByResponse X acl query localResponse = .forward true))) ∨
      (x = (localResponse, false) ∧ (shouldForwardByQuery X (some acl) servers query = some false ∨
        (shouldForwardByQuery X (some acl) servers query = none ∧
          shouldForwardByResponse X acl query localResponse = .forward false))) := by
  cases h with
  | remote h => exact Or.inl ⟨rfl, Or.inl h⟩
  | direct h => exact Or.inr ⟨rfl, Or.inl h⟩
  | both a d es s x ha h hd hes hrun hx =>
    cases ha
    have hout := (Select.run_picks hes hrun).1 x hx
    cases hverdict : shouldForwardByResponse X acl query localResponse with
    | unreachable =>
      rw [hverdict] at hd
      cases hd
    | forward value =>
      rw [hverdict] at hd
      cases value with
      | true =>
        cases hd
        exact Or.inl ⟨hout, Or.inr ⟨h, rfl⟩⟩
      | false =>
        cases hd
        exact Or.inr ⟨hout, Or.inr ⟨h, rfl⟩⟩

theorem mem_learnedFrom {m : Message N} {forward : Bool} {x : List UInt8 × Bool} (h : x ∈ learnedFrom m forward) :
    x.2 = forward := by
  obtain ⟨rec, -, hrec⟩ := List.mem_filterMap.1 h
  cases hd : rec.rdata with
  | a ip =>
    rw [hd] at hrec
    cases hrec
    rfl
  | aaaa ip =>
    rw [hd] at hrec
    cases hrec
    rfl
  | _ =>
    rw [hd] at hrec
    cases hrec

/-- **A connection to an address that was given out goes the way its name was looked up**: through the proxy if the
response is the remote one, directly if it is the local one, which then is so for the query's sake or on evidence in
the response. Whatever came before; after the address was learned from the response, nothing else is learned of it,
it does not expire, and few others are used, in any order of steps. -/
theorem resolve_routes {C : LruCache (List UInt8) Bool} (hC : C.Lawful ServiceContext.CAPACITY) {acl : AccessControl}
    {servers : List ServerAddr} {request : Message N} {localResponse remoteResponse : Option (Message N)}
    {looked : Option (Message N) × Bool}
    (hlooked : ∀ query ∈ request.queries.head?, Looked X (some acl) servers query localResponse remoteResponse looked)
    {before after : List ServiceContext.Event} {x : List UInt8 × Bool} (hx : x ∈ (resolve request looked).2)
    {s : ServiceContext C}
    (hrun : (ServiceContext.machine C X (some acl)).run (ServiceContext.machine C X (some acl)).init
      (before ++ .learn x.1 x.2 :: after) = some s)
    {saddr : Relay.SocketAddr} (hip : x.1 = saddr.ip) (hothers : ∀ e ∈ after, e.spares saddr.ip)
    (hfew : (after.flatMap ServiceContext.Event.uses).dedup.length < 10240)
    (vaddr : Option (List Relay.SocketAddr)) :
    ∃ query ∈ request.queries.head?, ∃ result, (resolve request looked).1 = { result with id := request.id } ∧
      ((localResponse = some result ∧ (s.checkTargetBypassed X (.socketAddress saddr) vaddr).1 = true ∧
          (shouldForwardByQuery X (some acl) servers query = some false ∨
            Shows [query.name] (result.answers ++ result.additionals) (Bypassed X acl))) ∨
        (remoteResponse = some result ∧
          (s.checkTargetBypassed X (.socketAddress saddr) vaddr).1 = false)) := by
  have hresolve : ∃ query rest result forward, request.queries = query :: rest ∧
      looked = (some result, forward) ∧
      resolve request looked = ({ result with id := request.id }, learnedFrom result forward) := by
    unfold resolve at hx ⊢
    split at hx
    · cases hx
    split at hx
    · cases hx
    rename_i hrec hop
    rw [if_neg hrec, if_neg hop]
    cases hq : request.queries with
    | nil =>
      rw [hq] at hx
      cases hx
    | cons query rest =>
      rw [hq] at hx
      obtain ⟨q, forward⟩ := looked
      cases q with
      | none => cases hx
      | some result => exact ⟨query, rest, result, forward, rfl, rfl, rfl⟩
  obtain ⟨query, rest, result, forward, hq, hlook, hres⟩ := hresolve
  rw [hres] at hx
  have hforward := mem_learnedFrom hx
  rw [hip, hforward] at hrun
  have hcheck := (ServiceContext.run_routes hC hrun saddr vaddr).2 before forward after rfl hothers hfew
  refine ⟨query, by rw [hq]; rfl, result, by rw [hres], ?_⟩
  have hspec := looked_spec (hlooked query (by rw [hq]; rfl))
  rw [hlook] at hspec
  rcases hspec with ⟨heq, -⟩ | ⟨heq, hwhy⟩
  · obtain ⟨hresult, rfl⟩ := Prod.mk.inj heq
    exact Or.inr ⟨hresult.symm, hcheck⟩
  · obtain ⟨hresult, rfl⟩ := Prod.mk.inj heq
    refine Or.inl ⟨hresult.symm, hcheck, ?_⟩
    rcases hwhy with hquery | ⟨-, hverdict⟩
    · exact Or.inl hquery
    · obtain ⟨m, hm, hshows⟩ := (shouldForwardByResponse_evidence localResponse).1 hverdict
      rw [← hresult] at hm
      cases hm
      exact Or.inr hshows

/-- Names that are written as they are. -/
def Names.plain : Names where
  Name := List Str
  same m n := m == n
  equal m n := m == n
  isFqdn _ := true
  toAscii n := n.flatMap fun label => label ++ ['.']
  labels n := n.map utf8
  fromStr _ := none

/-- `a` is an alias of `b`, which the ACL bypasses; its address alone would be proxied. -/
def aliased : Message Names.plain :=
  ⟨7, false, true, true, true, .noError, [], [⟨[['a']], .cname, .cname [['b']]⟩,
    ⟨[['b']], .a, .a ⟨[9, 9, 9, 9], rfl⟩⟩], []⟩

/-- The address was used before, is learned, and another one is used. -/
def aliasedRun : List ServiceContext.Event :=
  [.learn [9, 9, 9, 9] true] ++ .learn [9, 9, 9, 9] false :: [.learn [8, 8, 8, 8] false]

theorem resolve_routes_aliased :
    ∃ s, (ServiceContext.machine ServiceContext.listCache Crates.plain
        (some ⟨.empty, ⟨[], [], [['b']]⟩, .empty, .blackList⟩)).run
        (ServiceContext.machine ServiceContext.listCache Crates.plain
          (some ⟨.empty, ⟨[], [], [['b']]⟩, .empty, .blackList⟩)).init aliasedRun = some s ∧
      (s.checkTargetBypassed Crates.plain (.socketAddress (.v4 ⟨[9, 9, 9, 9], rfl⟩ 443)) none).1 = true := by
  obtain ⟨s, hrun, hcheck⟩ : ∃ s, (ServiceContext.machine ServiceContext.listCache Crates.plain
      (some ⟨.empty, ⟨[], [], [['b']]⟩, .empty, .blackList⟩)).run
        (ServiceContext.machine ServiceContext.listCache Crates.plain
          (some ⟨.empty, ⟨[], [], [['b']]⟩, .empty, .blackList⟩)).init aliasedRun = some s ∧
      (s.checkTargetBypassed Crates.plain (.socketAddress (.v4 ⟨[9, 9, 9, 9], rfl⟩ 443)) none).1 ≠ false :=
    ⟨_, rfl, by decide⟩
  have hlooked : ∀ query ∈ (Message.queries (N := Names.plain)
      ⟨5, true, true, true, false, .noError, [⟨[['a']], .a, true⟩], [], []⟩).head?,
      Looked Crates.plain (some ⟨.empty, ⟨[], [], [['b']]⟩, .empty, .blackList⟩) [] query (some aliased) none
        (some aliased, false) := by
    intro query hquery
    cases hquery
    exact .both _ (some (some aliased)) [.decision (some (some aliased))] _ _ rfl rfl rfl (by simp [Select.Event.Gives])
      rfl rfl
  have hC : ServiceContext.listCache.Lawful ServiceContext.CAPACITY :=
    LruCache.lists_lawful _ _ ServiceContext.CAPACITY
  have hx : (([9, 9, 9, 9] : List UInt8), false) ∈ [(([9, 9, 9, 9] : List UInt8), false)] := List.mem_cons_self
  have hip : (([9, 9, 9, 9] : List UInt8), false).1 = (Relay.SocketAddr.v4 ⟨[9, 9, 9, 9], rfl⟩ 443).ip := rfl
  obtain ⟨query, -, result, -, ⟨-, hbypassed, -⟩ | ⟨-, hproxied⟩⟩ :=
    resolve_routes hC hlooked hx hrun hip (by simp [ServiceContext.Event.spares, Relay.SocketAddr.ip]) (by decide) none
  · exact ⟨s, hrun, hbypassed⟩
  · exact absurd hproxied hcheck

end Sslocal

end BlackButton
