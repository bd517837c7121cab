import Mathlib.Algebra.GroupWithZero.Nat
import BlackButton.Lib.Async
import BlackButton.Lib.Encoding

/-!
# SOCKS5 addresses and headers (`relay/socks5.rs`)

A target address is written in front of every TCP stream and of every UDP packet; the
headers of the local SOCKS5 server end with one.

* `Address.readFrom_ok_iff`: **the reader accepts exactly what the writer writes**, takes
  nothing of what follows, and gives the address back (the flow information and the
  scope of an IPv6 address are not written).
* `TcpRequestHeader.readFrom_iff`, `TcpResponseHeader.readFrom_iff`,
  `HandshakeRequest.readFrom_iff`, `UdpAssociateHeader.readFrom_iff`: the same for the
  headers. The reserved bytes are not looked at.
-/

namespace BlackButton

open Async

namespace Relay


/-! ## Addresses -/

/-- `Ipv4Addr`. -/
abbrev Ipv4Addr := List.Vector UInt8 4

/-- `Ipv6Addr`, as its segments. -/
abbrev Ipv6Addr := List.Vector UInt16 8

/-- `SocketAddr`. -/
inductive SocketAddr
  | v4 (ip : Ipv4Addr) (port : UInt16)
  | v6 (ip : Ipv6Addr) (port : UInt16) (flowinfo scopeId : UInt32)
  deriving DecidableEq

/-- `Address`. -/
inductive Address
  | socketAddress (addr : SocketAddr)
  | domainNameAddress (domain : Str) (port : UInt16)
  deriving DecidableEq

/-- `Reply`. -/
inductive Reply
  | succeeded
  | generalFailure
  | connectionNotAllowed
  | networkUnreachable
  | hostUnreachable
  | connectionRefused
  | ttlExpired
  | commandNotSupported
  | addressTypeNotSupported
  | otherReply (code : UInt8)
  deriving DecidableEq

/-- `Error`. -/
inductive Error
  | ioError (e : IoError)
  | addressTypeNotSupported (addrType : UInt8)
  | addressDomainInvalidEncoding
  | unsupportedSocksVersion (ver : UInt8)
  | unsupportedCommand (cmd : UInt8)
  | reply (r : Reply)
  deriving DecidableEq

def SOCKS5_VERSION : UInt8 := 0x05
def SOCKS5_AUTH_METHOD_NONE : UInt8 := 0x00
def SOCKS5_AUTH_METHOD_NOT_ACCEPTABLE : UInt8 := 0xff
def SOCKS5_CMD_TCP_CONNECT : UInt8 := 0x01
def SOCKS5_CMD_TCP_BIND : UInt8 := 0x02
def SOCKS5_CMD_UDP_ASSOCIATE : UInt8 := 0x03
def SOCKS5_ADDR_TYPE_IPV4 : UInt8 := 0x01
def SOCKS5_ADDR_TYPE_DOMAIN_NAME : UInt8 := 0x03
def SOCKS5_ADDR_TYPE_IPV6 : UInt8 := 0x04

/-- `BufMut::put_u16`. -/
def putU16 (x : UInt16) : Bytes := bigEndian 2 x.toNat

/-- `u16::from_be` of two bytes of a buffer. -/
def fromBe (a b : UInt8) : UInt16 := .ofNat (ofBigEndian [a, b])

/-- A buffer read as `u16`s in network order. -/
def words : Bytes → List UInt16
  | a :: b :: bs => fromBe a b :: words bs
  | _ => []

theorem length_words : ∀ {n : ℕ} {bs : Bytes}, bs.length = 2 * n → (words bs).length = n
  | 0, [], _ => rfl
  | n + 1, a :: b :: bs, h => by
    have hbs : bs.length = 2 * n := by
      simp only [List.length_cons] at h
      omega
    rw [words, List.length_cons, length_words hbs]

namespace Address

/-- `read_from`, after the type `SOCKS5_ADDR_TYPE_IPV4`. -/
def readIpv4 : Async UInt8 (Except Error Address) :=
  tryBind (tryReadExact .ioError 6) fun buf =>
    let v4addr : Ipv4Addr := ⟨[buf.get 0, buf.get 1, buf.get 2, buf.get 3], rfl⟩
    let port := fromBe (buf.get 4) (buf.get 5)
    done (.ok (.socketAddress (.v4 v4addr port)))

/-- The address in nine words: the segments and the port. -/
def ofWords (buf : List.Vector UInt16 9) : Address :=
  let v6addr : Ipv6Addr :=
    ⟨[buf.get 0, buf.get 1, buf.get 2, buf.get 3, buf.get 4, buf.get 5, buf.get 6, buf.get 7], rfl⟩
  let port := buf.get 8
  .socketAddress (.v6 v6addr port 0 0)

/-- `read_from`, after the type `SOCKS5_ADDR_TYPE_IPV6`. -/
def readIpv6 : Async UInt8 (Except Error Address) :=
  tryBind (tryReadExact .ioError 18) fun buf => done (.ok (ofWords ⟨words buf.val, length_words buf.property⟩))

/-- A domain name of `length` bytes, and the port. -/
def readDomain (length : ℕ) : Async UInt8 (Except Error Address) :=
  tryBind (tryReadExact .ioError (length + 2)) fun rawAddr =>
    let port := fromBe (rawAddr.get (Fin.natAdd length 0)) (rawAddr.get (Fin.natAdd length 1))
    match utf8Decode (rawAddr.val.take length) with
    | some addr => done (.ok (.domainNameAddress addr port))
    | none => done (.error .addressDomainInvalidEncoding)

/-- `read_from`, after the type `SOCKS5_ADDR_TYPE_DOMAIN_NAME`. -/
def readDomainName : Async UInt8 (Except Error Address) :=
  tryBind (tryReadExact .ioError 1) fun lengthBuf => readDomain lengthBuf.head.toNat

/-- `Address::read_from`. -/
def readFrom : Async UInt8 (Except Error Address) :=
  tryBind (tryReadExact .ioError 1) fun addrTypeBuf =>
    let addrType := addrTypeBuf.head
    if addrType = SOCKS5_ADDR_TYPE_IPV4 then readIpv4
    else if addrType = SOCKS5_ADDR_TYPE_IPV6 then readIpv6
    else if addrType = SOCKS5_ADDR_TYPE_DOMAIN_NAME then readDomainName
    else done (.error (.addressTypeNotSupported addrType))

end Address

/-- `write_ipv4_address`. -/
def writeIpv4Address (ip : Ipv4Addr) (port : UInt16) : Bytes :=
  SOCKS5_ADDR_TYPE_IPV4 :: ip.val ++ putU16 port

/-- `write_ipv6_address`. -/
def writeIpv6Address (ip : Ipv6Addr) (port : UInt16) : Bytes :=
  SOCKS5_ADDR_TYPE_IPV6 :: ip.val.flatMap putU16 ++ putU16 port

/-- `write_domain_name_address`; `none` is a failed assertion. -/
def writeDomainNameAddress (dnaddr : Str) (port : UInt16) : Option Bytes :=
  if (utf8 dnaddr).length ≤ 255 then
    some (SOCKS5_ADDR_TYPE_DOMAIN_NAME :: .ofNat (utf8 dnaddr).length :: utf8 dnaddr ++ putU16 port)
  else none

/-- `write_address`. -/
def Address.writeToBuf : Address → Option Bytes
  | .socketAddress (.v4 ip port) => some (writeIpv4Address ip port)
  | .socketAddress (.v6 ip port _ _) => some (writeIpv6Address ip port)
  | .domainNameAddress dnaddr port => writeDomainNameAddress dnaddr port

/-- `get_addr_len`. -/
def Address.serializedLen : Address → ℕ
  | .socketAddress (.v4 _ _) => 1 + 4 + 2
  | .socketAddress (.v6 _ _ _ _) => 1 + 8 * 2 + 2
  | .domainNameAddress dmname _ => 1 + 1 + (utf8 dmname).length + 2

/-- `max_serialized_len`. -/
def Address.maxSerializedLen : ℕ := 1 + 1 + 255 + 2

/-- What the wire format keeps of an address. -/
def Address.canonical : Address → Address
  | .socketAddress (.v6 ip port _ _) => .socketAddress (.v6 ip port 0 0)
  | a => a

/-- `From<Error> for io::Error`: the kind that the callers tell apart. -/
def Error.kind : Error → IoError
  | .ioError e => e
  | _ => .other

/-! ## Numbers in network order -/

theorem putU16_fromBe (a b : UInt8) : putU16 (fromBe a b) = [a, b] := by
  have hlt : ofBigEndian [a, b] < 65536 := by simpa using ofBigEndian_lt [a, b]
  unfold putU16 fromBe
  rw [UInt16.toNat_ofNat_of_lt' hlt]
  exact bigEndian_ofBigEndian [a, b]

theorem length_putU16 (x : UInt16) : (putU16 x).length = 2 := length_bigEndian 2 x.toNat

/-- The two bytes of a number, and the number back from them. -/
theorem exists_putU16 (x : UInt16) : ∃ a b, putU16 x = [a, b] ∧ fromBe a b = x := by
  obtain ⟨a, b, hab⟩ := List.length_eq_two.1 (length_putU16 x)
  refine ⟨a, b, hab, ?_⟩
  have hlt : x.toNat < 256 ^ 2 := by have := x.toNat_lt; omega
  unfold fromBe
  rw [← hab, putU16, ofBigEndian_bigEndian, Nat.mod_eq_of_lt hlt]
  exact UInt16.ofNat_toNat

theorem words_flatMap (ws : List UInt16) (rest : Bytes) : words (ws.flatMap putU16 ++ rest) = ws ++ words rest := by
  induction ws with
  | nil => rfl
  | cons w ws ih =>
    obtain ⟨a, b, hab, hw⟩ := exists_putU16 w
    rw [List.flatMap_cons, hab, List.append_assoc, List.cons_append, List.cons_append, List.nil_append, words, hw,
      ih, List.cons_append]

theorem flatMap_words : ∀ {n : ℕ} {bs : Bytes}, bs.length = 2 * n → (words bs).flatMap putU16 = bs
  | 0, [], _ => rfl
  | n + 1, a :: b :: bs, h => by
    have hbs : bs.length = 2 * n := by
      simp only [List.length_cons] at h
      omega
    rw [words, List.flatMap_cons, putU16_fromBe, flatMap_words hbs]
    rfl

/-! ## The round trip of addresses -/

theorem vector_one {α : Type} (v : List.Vector α 1) : v = ⟨[v.head], rfl⟩ := by
  match v with
  | ⟨[_], _⟩ => rfl

theorem vector_four {α : Type} (v : List.Vector α 4) : v = ⟨[v.get 0, v.get 1, v.get 2, v.get 3], rfl⟩ := by
  match v with
  | ⟨[_, _, _, _], _⟩ => rfl

theorem vector_six {α : Type} (v : List.Vector α 6) :
    v = ⟨[v.get 0, v.get 1, v.get 2, v.get 3, v.get 4, v.get 5], rfl⟩ := by
  match v with
  | ⟨[_, _, _, _, _, _], _⟩ => rfl

/-- The last two of a buffer, behind the rest. -/
theorem vector_split {α : Type} {n : ℕ} (v : List.Vector α (n + 2)) :
    v.val = v.val.take n ++ [v.get (Fin.natAdd n 0), v.get (Fin.natAdd n 1)] := by
  obtain ⟨l, hl⟩ := v
  have hdrop : l.drop n = [l[n], l[n + 1]] := by
    rw [List.drop_eq_getElem_cons (by omega), List.drop_eq_getElem_cons (by omega),
      List.drop_eq_nil_of_le (by omega)]
  calc l = l.take n ++ l.drop n := (List.take_append_drop n l).symm
    _ = l.take n ++ [l[n], l[n + 1]] := by rw [hdrop]

namespace Address

theorem readIpv4_iff {bs rest out : Bytes} {a : Address} :
    run readIpv4 bs = ⟨.ok a, rest, out⟩ ↔
      out = [] ∧ ∃ ip port, a = .socketAddress (.v4 ip port) ∧ bs = ip.val ++ putU16 port ++ rest := by
  unfold readIpv4
  rw [run_read_ok_iff]
  constructor
  · rintro ⟨buf, tail, rfl, h⟩
    have hbuf := congrArg Subtype.val (vector_six buf)
    cases h
    refine ⟨rfl, _, _, rfl, ?_⟩
    rw [putU16_fromBe, hbuf]
    rfl
  · rintro ⟨rfl, ip, port, rfl, rfl⟩
    obtain ⟨p0, p1, hport, hback⟩ := exists_putU16 port
    have hip := vector_four ip
    refine ⟨⟨[ip.get 0, ip.get 1, ip.get 2, ip.get 3, p0, p1], rfl⟩, rest, ?_, ?_⟩
    · rw [hport, congrArg Subtype.val hip]
      rfl
    · rw [← hback, hip]
      rfl

theorem ofWords_append (ip : Ipv6Addr) (port : UInt16) (h : (ip.val ++ [port]).length = 9) :
    ofWords ⟨ip.val ++ [port], h⟩ = .socketAddress (.v6 ip port 0 0) := by
  match ip, h with
  | ⟨[_, _, _, _, _, _, _, _], _⟩, _ => rfl

/-- Nine words are eight segments and a port. -/
theorem exists_words (w : List.Vector UInt16 9) :
    ∃ (ip : Ipv6Addr) (port : UInt16), w.val = ip.val ++ [port] ∧ ofWords w = .socketAddress (.v6 ip port 0 0) := by
  match w with
  | ⟨[w0, w1, w2, w3, w4, w5, w6, w7, w8], _⟩ => exact ⟨⟨[w0, w1, w2, w3, w4, w5, w6, w7], rfl⟩, w8, rfl, rfl⟩

theorem readIpv6_iff {bs rest out : Bytes} {a : Address} :
    run readIpv6 bs = ⟨.ok a, rest, out⟩ ↔
      out = [] ∧ ∃ ip port, a = .socketAddress (.v6 ip port 0 0) ∧
        bs = ip.val.flatMap putU16 ++ putU16 port ++ rest := by
  unfold readIpv6
  rw [run_read_ok_iff]
  constructor
  · rintro ⟨buf, tail, rfl, h⟩
    have hback := flatMap_words (n := 9) buf.property
    obtain ⟨ip, port, hw, hof⟩ := exists_words ⟨words buf.val, length_words buf.property⟩
    rw [run_done, hof] at h
    cases h
    have hw : words buf.val = ip.val ++ [port] := hw
    refine ⟨rfl, ip, port, rfl, ?_⟩
    rw [← hback, hw]
    simp
  · rintro ⟨rfl, ip, port, rfl, rfl⟩
    have hlen : ((ip.val ++ [port]).flatMap putU16).length = 2 * 9 := by
      rw [List.length_flatMap]
      simp [length_putU16, ip.property]
    have hwords : words ((ip.val ++ [port]).flatMap putU16) = ip.val ++ [port] := by
      have h := words_flatMap (ip.val ++ [port]) []
      simpa [words] using h
    refine ⟨⟨(ip.val ++ [port]).flatMap putU16, hlen⟩, rest, by simp, ?_⟩
    have hvec : (⟨words ((ip.val ++ [port]).flatMap putU16), length_words hlen⟩ : List.Vector UInt16 9) =
        ⟨ip.val ++ [port], by rw [← hwords]; exact length_words hlen⟩ := Subtype.ext hwords
    rw [run_done, hvec, ofWords_append]

theorem readDomain_iff {length : ℕ} {bs rest out : Bytes} {a : Address} :
    run (readDomain length) bs = ⟨.ok a, rest, out⟩ ↔
      out = [] ∧ ∃ dn port, a = .domainNameAddress dn port ∧ (utf8 dn).length = length ∧
        bs = utf8 dn ++ putU16 port ++ rest := by
  unfold readDomain
  rw [run_read_ok_iff]
  constructor
  · rintro ⟨raw, tail, rfl, h⟩
    have hraw := vector_split raw
    have hlen : (raw.val.take length).length = length := List.length_take_of_le (by rw [raw.property]; omega)
    split at h
    · rename_i dn hdn
      have hutf := utf8_of_decode hdn
      cases h
      refine ⟨rfl, dn, _, rfl, by rw [hutf, hlen], ?_⟩
      rw [putU16_fromBe, hutf, ← hraw]
    · cases h
  · rintro ⟨rfl, dn, port, rfl, rfl, rfl⟩
    obtain ⟨p0, p1, hport, hback⟩ := exists_putU16 port
    have hlen : (utf8 dn ++ [p0, p1]).length = (utf8 dn).length + 2 := List.length_append
    refine ⟨⟨utf8 dn ++ [p0, p1], hlen⟩, rest, by rw [hport], ?_⟩
    have hsplit := vector_split ⟨utf8 dn ++ [p0, p1], hlen⟩
    simp only [List.take_left, List.append_cancel_left_eq, List.cons.injEq, and_true] at hsplit
    simp only [List.take_left, utf8Decode_utf8, ← hsplit.1, ← hsplit.2, hback]
    rfl

theorem readDomainName_iff {bs rest out : Bytes} {a : Address} :
    run readDomainName bs = ⟨.ok a, rest, out⟩ ↔
      out = [] ∧ ∃ dn port, a = .domainNameAddress dn port ∧ (utf8 dn).length ≤ 255 ∧
        bs = UInt8.ofNat (utf8 dn).length :: utf8 dn ++ putU16 port ++ rest := by
  unfold readDomainName
  rw [run_read_ok_iff]
  constructor
  · rintro ⟨lengthBuf, tail, rfl, h⟩
    obtain ⟨rfl, dn, port, rfl, hlen, rfl⟩ := readDomain_iff.1 h
    have hlt := lengthBuf.head.toNat_lt
    refine ⟨rfl, dn, port, rfl, by omega, ?_⟩
    rw [hlen, UInt8.ofNat_toNat, congrArg Subtype.val (vector_one lengthBuf)]
    rfl
  · rintro ⟨rfl, dn, port, rfl, hle, rfl⟩
    have hto : (UInt8.ofNat (utf8 dn).length).toNat = (utf8 dn).length := by
      rw [UInt8.toNat_ofNat']
      omega
    exact ⟨⟨[UInt8.ofNat (utf8 dn).length], rfl⟩, utf8 dn ++ putU16 port ++ rest, rfl,
      readDomain_iff.2 ⟨rfl, dn, port, rfl, hto.symm, rfl⟩⟩

/-- **The reader accepts exactly what the writer writes**, takes nothing of what follows, and gives the
address back. -/
theorem readFrom_ok_iff {bs rest out : Bytes} {a : Address} :
    run readFrom bs = ⟨.ok a, rest, out⟩ ↔
      out = [] ∧ ∃ a₀ w, writeToBuf a₀ = some w ∧ canonical a₀ = a ∧ bs = w ++ rest := by
  unfold readFrom
  rw [run_read_ok_iff]
  constructor
  · rintro ⟨addrTypeBuf, tail, rfl, h⟩
    have hone := congrArg Subtype.val (vector_one addrTypeBuf)
    simp only at h
    split_ifs at h with h4 h6 hd
    · obtain ⟨rfl, ip, port, rfl, rfl⟩ := readIpv4_iff.1 h
      refine ⟨rfl, .socketAddress (.v4 ip port), _, rfl, rfl, ?_⟩
      rw [hone, h4]
      rfl
    · obtain ⟨rfl, ip, port, rfl, rfl⟩ := readIpv6_iff.1 h
      refine ⟨rfl, .socketAddress (.v6 ip port 0 0), _, rfl, rfl, ?_⟩
      rw [hone, h6]
      rfl
    · obtain ⟨rfl, dn, port, rfl, hle, rfl⟩ := readDomainName_iff.1 h
      refine ⟨rfl, .domainNameAddress dn port, _, if_pos hle, rfl, ?_⟩
      rw [hone, hd]
      rfl
    · cases h
  · rintro ⟨rfl, a₀, w, hw, rfl, rfl⟩
    cases a₀ with
    | socketAddress addr =>
      cases addr with
      | v4 ip port =>
        cases hw
        exact ⟨⟨[SOCKS5_ADDR_TYPE_IPV4], rfl⟩, ip.val ++ putU16 port ++ rest, rfl,
          readIpv4_iff.2 ⟨rfl, ip, port, rfl, rfl⟩⟩
      | v6 ip port flowinfo scopeId =>
        cases hw
        exact ⟨⟨[SOCKS5_ADDR_TYPE_IPV6], rfl⟩, ip.val.flatMap putU16 ++ putU16 port ++ rest, rfl,
          readIpv6_iff.2 ⟨rfl, ip, port, rfl, rfl⟩⟩
    | domainNameAddress dn port =>
      obtain ⟨hle, hw⟩ := Option.ite_none_right_eq_some.1 hw
      cases hw
      exact ⟨⟨[SOCKS5_ADDR_TYPE_DOMAIN_NAME], rfl⟩,
        UInt8.ofNat (utf8 dn).length :: utf8 dn ++ putU16 port ++ rest, rfl,
        readDomainName_iff.2 ⟨rfl, dn, port, rfl, hle, rfl⟩⟩

/-- The reader only reads. -/
theorem reads_readFrom : Reads Error.ioError readFrom := by
  refine reads_tryBind Nat.one_pos fun addrTypeBuf => ?_
  simp only
  split_ifs
  · exact reads_tryBind (by decide) fun _ => .done _
  · exact reads_tryBind (by decide) fun _ => .done _
  · refine reads_tryBind Nat.one_pos fun lengthBuf => reads_tryBind (Nat.succ_pos _) fun rawAddr => ?_
    simp only
    split
    · exact .done _
    · exact .done _
  · exact .done _

/-- `serialized_len` is the length, and never more than `max_serialized_len`. -/
theorem length_writeToBuf {a : Address} {w : Bytes} (h : writeToBuf a = some w) :
    w.length = a.serializedLen ∧ a.serializedLen ≤ maxSerializedLen := by
  cases a with
  | socketAddress addr =>
    cases addr with
    | v4 ip port =>
      cases h
      simp [writeIpv4Address, length_putU16, ip.property, serializedLen, maxSerializedLen]
    | v6 ip port flowinfo scopeId =>
      cases h
      simp [writeIpv6Address, List.length_flatMap, length_putU16, ip.property, serializedLen, maxSerializedLen]
  | domainNameAddress dn port =>
    obtain ⟨hle, hw⟩ := Option.ite_none_right_eq_some.1 h
    cases hw
    simp only [List.length_append, List.length_cons, length_putU16, serializedLen, maxSerializedLen]
    omega

end Address

/-! ## Headers -/

/-- `Command`. -/
inductive Command
  | tcpConnect
  | tcpBind
  | udpAssociate
  deriving DecidableEq

def Command.asU8 : Command → UInt8
  | tcpConnect => SOCKS5_CMD_TCP_CONNECT
  | tcpBind => SOCKS5_CMD_TCP_BIND
  | udpAssociate => SOCKS5_CMD_UDP_ASSOCIATE

def Command.fromU8 (code : UInt8) : Option Command :=
  if code = SOCKS5_CMD_TCP_CONNECT then some tcpConnect
  else if code = SOCKS5_CMD_TCP_BIND then some tcpBind
  else if code = SOCKS5_CMD_UDP_ASSOCIATE then some udpAssociate
  else none

theorem Command.fromU8_iff {code : UInt8} {c : Command} : fromU8 code = some c ↔ code = c.asU8 := by
  constructor
  · unfold fromU8
    intro h
    split_ifs at h with h1 h2 h3 <;> cases h
    · exact h1
    · exact h2
    · exact h3
  · rintro rfl
    cases c <;> rfl

def Reply.asU8 : Reply → UInt8
  | succeeded => 0x00
  | generalFailure => 0x01
  | connectionNotAllowed => 0x02
  | networkUnreachable => 0x03
  | hostUnreachable => 0x04
  | connectionRefused => 0x05
  | ttlExpired => 0x06
  | commandNotSupported => 0x07
  | addressTypeNotSupported => 0x08
  | otherReply code => code

def Reply.fromU8 (code : UInt8) : Reply :=
  if code = 0x00 then succeeded
  else if code = 0x01 then generalFailure
  else if code = 0x02 then connectionNotAllowed
  else if code = 0x03 then networkUnreachable
  else if code = 0x04 then hostUnreachable
  else if code = 0x05 then connectionRefused
  else if code = 0x06 then ttlExpired
  else if code = 0x07 then commandNotSupported
  else if code = 0x08 then addressTypeNotSupported
  else otherReply code

/-- `as_reply`. -/
def Error.asReply : Error → Reply
  | .ioError .connectionRefused => .connectionRefused
  | .ioError _ => .generalFailure
  | .addressTypeNotSupported _ => .addressTypeNotSupported
  | .addressDomainInvalidEncoding => .generalFailure
  | .unsupportedSocksVersion _ => .generalFailure
  | .unsupportedCommand _ => .commandNotSupported
  | .reply r => r

structure TcpRequestHeader where
  command : Command
  address : Address
  deriving DecidableEq

structure TcpResponseHeader where
  reply : Reply
  address : Address
  deriving DecidableEq

structure HandshakeRequest where
  methods : Bytes
  deriving DecidableEq

structure HandshakeResponse where
  chosenMethod : UInt8
  deriving DecidableEq

structure UdpAssociateHeader where
  frag : UInt8
  address : Address
  deriving DecidableEq

/-- `TcpRequestHeader::read_from`. -/
def TcpRequestHeader.readFrom : Async UInt8 (Except Error TcpRequestHeader) :=
  tryBind (tryReadExact .ioError 3) fun buf =>
    let ver := buf.get 0
    if ver ≠ SOCKS5_VERSION then done (.error (.unsupportedSocksVersion ver))
    else
      let cmd := buf.get 1
      match Command.fromU8 cmd with
      | none => done (.error (.unsupportedCommand cmd))
      | some command => tryBind Address.readFrom fun address => done (.ok ⟨command, address⟩)

def TcpRequestHeader.writeToBuf (h : TcpRequestHeader) : Option Bytes :=
  h.address.writeToBuf.map fun address => [SOCKS5_VERSION, h.command.asU8, 0x00] ++ address

/-- `TcpResponseHeader::read_from`. -/
def TcpResponseHeader.readFrom : Async UInt8 (Except Error TcpResponseHeader) :=
  tryBind (tryReadExact .ioError 3) fun buf =>
    let ver := buf.get 0
    let replyCode := buf.get 1
    if ver ≠ SOCKS5_VERSION then done (.error (.unsupportedSocksVersion ver))
    else tryBind Address.readFrom fun address => done (.ok ⟨Reply.fromU8 replyCode, address⟩)

def TcpResponseHeader.writeToBuf (h : TcpResponseHeader) : Option Bytes :=
  h.address.writeToBuf.map fun address => [SOCKS5_VERSION, h.reply.asU8, 0x00] ++ address

/-- `HandshakeRequest::read_from`. -/
def HandshakeRequest.readFrom : Async UInt8 (Except Error HandshakeRequest) :=
  tryBind (tryReadExact .ioError 2) fun buf =>
    let ver := buf.get 0
    let nmet := buf.get 1
    if ver ≠ SOCKS5_VERSION then done (.error (.unsupportedSocksVersion ver))
    else tryBind (tryReadExact .ioError nmet.toNat) fun methods => done (.ok ⟨methods.val⟩)

def HandshakeRequest.writeToBuf (h : HandshakeRequest) : Bytes :=
  [SOCKS5_VERSION, UInt8.ofNat h.methods.length] ++ h.methods

/-- `HandshakeResponse::read_from`. -/
def HandshakeResponse.readFrom : Async UInt8 (Except Error HandshakeResponse) :=
  tryBind (tryReadExact .ioError 2) fun buf =>
    let ver := buf.get 0
    let met := buf.get 1
    if ver ≠ SOCKS5_VERSION then done (.error (.unsupportedSocksVersion ver))
    else done (.ok ⟨met⟩)

def HandshakeResponse.writeToBuf (h : HandshakeResponse) : Bytes := [SOCKS5_VERSION, h.chosenMethod]

/-- `UdpAssociateHeader::read_from`. -/
def UdpAssociateHeader.readFrom : Async UInt8 (Except Error UdpAssociateHeader) :=
  tryBind (tryReadExact .ioError 3) fun buf =>
    let frag := buf.get 2
    tryBind Address.readFrom fun address => done (.ok ⟨frag, address⟩)

def UdpAssociateHeader.writeToBuf (h : UdpAssociateHeader) : Option Bytes :=
  h.address.writeToBuf.map fun address => [0x00, 0x00, h.frag] ++ address

theorem vector_two {α : Type} (v : List.Vector α 2) : v = ⟨[v.get 0, v.get 1], rfl⟩ := by
  obtain ⟨l, hl⟩ := v
  match l, hl with
  | [_, _], _ => rfl

theorem vector_three {α : Type} (v : List.Vector α 3) : v = ⟨[v.get 0, v.get 1, v.get 2], rfl⟩ := by
  obtain ⟨l, hl⟩ := v
  match l, hl with
  | [_, _, _], _ => rfl

/-- What a function makes of a value it has read. -/
theorem run_tryBind_done_iff {α γ : Type} {x : Async UInt8 (Except Error α)} {f : α → γ} {bs rest out : Bytes} {c : γ} :
    run (tryBind x fun a => done (.ok (f a))) bs = ⟨.ok c, rest, out⟩ ↔
      ∃ a, run x bs = ⟨.ok a, rest, out⟩ ∧ f a = c := by
  obtain ⟨r, rest', out', hr⟩ : ∃ r rest' out', run x bs = ⟨r, rest', out'⟩ := ⟨_, _, _, rfl⟩
  cases r with
  | ok a =>
    rw [run_tryBind_ok hr, hr, run_done]
    simp only [List.append_nil, Ran.mk.injEq, Except.ok.injEq]
    constructor
    · rintro ⟨rfl, rfl, rfl⟩
      exact ⟨a, ⟨rfl, rfl, rfl⟩, rfl⟩
    · rintro ⟨a', ⟨rfl, rfl, rfl⟩, rfl⟩
      exact ⟨rfl, rfl, rfl⟩
  | error e =>
    rw [run_tryBind_error hr, hr]
    simp

/-- **A request**: the version, a command, anything, and an address. -/
theorem TcpRequestHeader.readFrom_iff {bs rest out : Bytes} {h : TcpRequestHeader} :
    run readFrom bs = ⟨.ok h, rest, out⟩ ↔ out = [] ∧ ∃ (rsv : UInt8) (a₀ : Address) (w : Bytes), a₀.writeToBuf = some w ∧ a₀.canonical = h.address ∧
      bs = SOCKS5_VERSION :: h.command.asU8 :: rsv :: w ++ rest := by
  unfold readFrom
  rw [run_read_ok_iff]
  constructor
  · rintro ⟨buf, tail, rfl, hrun⟩
    have hbuf := congrArg Subtype.val (vector_three buf)
    simp only at hrun
    by_cases hver : buf.get 0 = SOCKS5_VERSION
    swap
    · rw [if_pos hver] at hrun
      cases hrun
    rw [if_neg (not_not.2 hver)] at hrun
    split at hrun
    · cases hrun
    · rename_i command hcmd
      obtain ⟨a, hread, rfl⟩ := run_tryBind_done_iff.1 hrun
      obtain ⟨rfl, a₀, w, hw, hcan, rfl⟩ := Address.readFrom_ok_iff.1 hread
      refine ⟨rfl, buf.get 2, a₀, w, hw, hcan, ?_⟩
      rw [hbuf, hver, Command.fromU8_iff.1 hcmd]
      rfl
  · rintro ⟨rfl, rsv, a₀, w, hw, hcan, rfl⟩
    refine ⟨⟨[SOCKS5_VERSION, h.command.asU8, rsv], rfl⟩, w ++ rest, rfl, ?_⟩
    have hcmd : Command.fromU8 h.command.asU8 = some h.command := Command.fromU8_iff.2 rfl
    show run (if ¬SOCKS5_VERSION = SOCKS5_VERSION then _ else match Command.fromU8 h.command.asU8 with
      | none => _
      | some command => _) (w ++ rest) = _
    rw [if_neg (not_not.2 rfl), hcmd]
    exact run_tryBind_done_iff.2 ⟨h.address, Address.readFrom_ok_iff.2 ⟨rfl, a₀, w, hw, hcan, rfl⟩, rfl⟩

/-- **A response**: the version, the code of the reply, anything, and an address. -/
theorem TcpResponseHeader.readFrom_iff {bs rest out : Bytes} {h : TcpResponseHeader} :
    run readFrom bs = ⟨.ok h, rest, out⟩ ↔ out = [] ∧ ∃ (code rsv : UInt8) (a₀ : Address) (w : Bytes), Reply.fromU8 code = h.reply ∧
      a₀.writeToBuf = some w ∧ a₀.canonical = h.address ∧ bs = SOCKS5_VERSION :: code :: rsv :: w ++ rest := by
  unfold readFrom
  rw [run_read_ok_iff]
  constructor
  · rintro ⟨buf, tail, rfl, hrun⟩
    have hbuf := congrArg Subtype.val (vector_three buf)
    simp only at hrun
    by_cases hver : buf.get 0 = SOCKS5_VERSION
    swap
    · rw [if_pos hver] at hrun
      cases hrun
    rw [if_neg (not_not.2 hver)] at hrun
    obtain ⟨a, hread, rfl⟩ := run_tryBind_done_iff.1 hrun
    obtain ⟨rfl, a₀, w, hw, hcan, rfl⟩ := Address.readFrom_ok_iff.1 hread
    refine ⟨rfl, buf.get 1, buf.get 2, a₀, w, rfl, hw, hcan, ?_⟩
    rw [hbuf, hver]
    rfl
  · rintro ⟨rfl, code, rsv, a₀, w, hreply, hw, hcan, rfl⟩
    refine ⟨⟨[SOCKS5_VERSION, code, rsv], rfl⟩, w ++ rest, rfl, ?_⟩
    show run (if ¬SOCKS5_VERSION = SOCKS5_VERSION then _ else _) (w ++ rest) = _
    rw [if_neg (not_not.2 rfl)]
    refine run_tryBind_done_iff.2 ⟨h.address, Address.readFrom_ok_iff.2 ⟨rfl, a₀, w, hw, hcan, rfl⟩, ?_⟩
    show TcpResponseHeader.mk (Reply.fromU8 code) h.address = h
    rw [hreply]

/-- **A handshake**: what it is written as, which has room for 255 methods. -/
theorem HandshakeRequest.readFrom_iff {bs rest out : Bytes} {h : HandshakeRequest} :
    run readFrom bs = ⟨.ok h, rest, out⟩ ↔ out = [] ∧ h.methods.length ≤ 255 ∧ bs = h.writeToBuf ++ rest := by
  unfold readFrom
  rw [run_read_ok_iff]
  constructor
  · rintro ⟨buf, tail, rfl, hrun⟩
    have hbuf := congrArg Subtype.val (vector_two buf)
    simp only at hrun
    by_cases hver : buf.get 0 = SOCKS5_VERSION
    swap
    · rw [if_pos hver] at hrun
      cases hrun
    rw [if_neg (not_not.2 hver)] at hrun
    obtain ⟨methods, tail', rfl, hlast⟩ := (run_read_ok_iff _).1 hrun
    cases hlast
    have hlen : methods.val.length = (buf.get 1).toNat := methods.property
    have hlt := (buf.get 1).toNat_lt
    refine ⟨rfl, by show methods.val.length ≤ 255; omega, ?_⟩
    rw [hbuf, hver, writeToBuf]
    show _ = [SOCKS5_VERSION, UInt8.ofNat methods.val.length] ++ methods.val ++ rest
    rw [hlen, UInt8.ofNat_toNat]
    rfl
  · rintro ⟨rfl, hle, rfl⟩
    refine ⟨⟨[SOCKS5_VERSION, UInt8.ofNat h.methods.length], rfl⟩, h.methods ++ rest, rfl, ?_⟩
    show run (if ¬SOCKS5_VERSION = SOCKS5_VERSION then _ else
      tryBind (tryReadExact Error.ioError (UInt8.ofNat h.methods.length).toNat) _) (h.methods ++ rest) = _
    rw [if_neg (not_not.2 rfl)]
    have hto : h.methods.length = (UInt8.ofNat h.methods.length).toNat := by
      rw [UInt8.toNat_ofNat']
      omega
    exact (run_read_ok_iff _).2 ⟨⟨h.methods, hto⟩, rest, rfl, rfl⟩

theorem HandshakeResponse.readFrom_iff {bs rest out : Bytes} {h : HandshakeResponse} :
    run readFrom bs = ⟨.ok h, rest, out⟩ ↔ out = [] ∧ bs = h.writeToBuf ++ rest := by
  unfold readFrom
  rw [run_read_ok_iff]
  constructor
  · rintro ⟨buf, tail, rfl, hrun⟩
    have hbuf := congrArg Subtype.val (vector_two buf)
    simp only at hrun
    by_cases hver : buf.get 0 = SOCKS5_VERSION
    swap
    · rw [if_pos hver] at hrun
      cases hrun
    rw [if_neg (not_not.2 hver)] at hrun
    cases hrun
    refine ⟨rfl, ?_⟩
    rw [hbuf, hver]
    rfl
  · rintro ⟨rfl, rfl⟩
    exact ⟨⟨[SOCKS5_VERSION, h.chosenMethod], rfl⟩, rest, rfl, rfl⟩

/-- **A header**: two reserved bytes, which may be anything, the fragment, and an address. -/
theorem UdpAssociateHeader.readFrom_iff {bs rest out : Bytes} {h : UdpAssociateHeader} :
    run readFrom bs = ⟨.ok h, rest, out⟩ ↔ out = [] ∧ ∃ (rsv₀ rsv₁ : UInt8) (a₀ : Address) (w : Bytes),
      a₀.writeToBuf = some w ∧ a₀.canonical = h.address ∧ bs = rsv₀ :: rsv₁ :: h.frag :: w ++ rest := by
  unfold readFrom
  rw [run_read_ok_iff]
  constructor
  · rintro ⟨buf, tail, rfl, hrun⟩
    have hbuf := congrArg Subtype.val (vector_three buf)
    obtain ⟨a, hread, rfl⟩ := run_tryBind_done_iff.1 hrun
    obtain ⟨rfl, a₀, w, hw, hcan, rfl⟩ := Address.readFrom_ok_iff.1 hread
    refine ⟨rfl, buf.get 0, buf.get 1, a₀, w, hw, hcan, ?_⟩
    rw [hbuf]
    rfl
  · rintro ⟨rfl, rsv₀, rsv₁, a₀, w, hw, hcan, rfl⟩
    refine ⟨⟨[rsv₀, rsv₁, h.frag], rfl⟩, w ++ rest, rfl, ?_⟩
    exact run_tryBind_done_iff.2 ⟨h.address, Address.readFrom_ok_iff.2 ⟨rfl, a₀, w, hw, hcan, rfl⟩, rfl⟩

end Relay

end BlackButton
