import BlackButton.Relay.Aead
import BlackButton.Relay.Socks5

/-!
# UDP packets (`relay/udprelay/crypto_io.rs`)

A UDP packet carries an address and a payload in one piece, sealed (or plain, with the
cipher `none`), with a salt of its own in front.

* `received_decryptPayload_iff`: **what the receiver takes from a packet is the address and the payload
  that were sealed in it**, and it takes nothing else. The payload is moved to the
  start of the buffer, over the salt and the address.
* `received_encryptPayload`: the round trip.
-/

namespace BlackButton

open Async

namespace Relay

/-! ## Ciphers for packets -/

inductive CipherCategory
  | none
  | stream
  | aead
  deriving DecidableEq

/-- `CipherKind` with its category; `saltLen` is `iv_len` of a stream cipher. A packet has a cipher of its own, so
it is the first one that it handles. -/
structure Method where
  category : CipherCategory
  kind : CipherKind

/-- What the code relies on. A stream cipher has no tag, and opens everything. -/
structure Method.Lawful (M : Method) : Prop where
  length_encrypt : ∀ key salt p, (M.kind.encryptPacket key salt 0 p).length = p.length + M.kind.tagLen
  decrypt_encrypt : ∀ key salt p, M.kind.decryptPacket key salt 0 (M.kind.encryptPacket key salt 0 p) = some p
  length_decrypt : ∀ key salt m p, M.kind.decryptPacket key salt 0 m = some p → m.length = p.length + M.kind.tagLen
  tag_stream : M.category = .stream → M.kind.tagLen = 0
  decrypt_stream : M.category = .stream → ∀ key salt m, (M.kind.decryptPacket key salt 0 m).isSome

/-- The plainest AEAD cipher. -/
def Method.marking : Method := ⟨.aead, .marking⟩

theorem Method.marking_lawful : Method.marking.Lawful where
  length_encrypt _ _ _ := List.length_append
  decrypt_encrypt key salt p := CipherKind.marking_lawful.decrypt_encrypt key salt 0 p
  length_decrypt key salt m p h := by
    obtain ⟨hlast, hp⟩ := Option.ite_none_right_eq_some.1 h
    cases hp
    have hne : m ≠ [] := by
      intro hnil
      rw [hnil] at hlast
      cases hlast
    have hpos : 0 < m.length := List.length_pos_iff.2 hne
    rw [List.length_dropLast]
    change m.length = m.length - 1 + 1
    omega
  tag_stream h := by cases h
  decrypt_stream h := by cases h

/-- What `decrypt_payload` fails with. -/
inductive PacketError
  -- `InvalidData`, "parse udp packet Address failed"
  | addressFailed
  -- `InvalidData`, "udp packet too short for iv"
  | tooShortForIv
  -- `InvalidData`, "udp packet too short for salt"
  | tooShortForSalt
  -- `Other`, "udp packet too short for tag"
  | tooShortForTag
  -- `Other`, "invalid tag-in"
  | invalidTagIn
  -- `assert!(cipher.decrypt_packet(data))`
  | assertion
  deriving DecidableEq

/-! ## Packets to and from the server -/

variable (M : Method) (key : Bytes)

/-- `encrypt_payload` into an empty buffer, with the salt that was generated for the packet; `none` is the failed
assertion of `write_domain_name_address`. -/
def encryptPayload (salt : Bytes) (addr : Address) (payload : Bytes) : Option Bytes :=
  addr.writeToBuf.map fun w =>
    match M.category with
    | .none => w ++ payload
    | .stream | .aead => salt ++ M.kind.encryptPacket key salt 0 (w ++ payload)

/-- `parse_packet`: where the address ends, and the address. -/
def parsePacket (buf : Bytes) : Except PacketError (ℕ × Address) :=
  match run Address.readFrom buf with
  | ⟨.ok address, rest, _⟩ => .ok (buf.length - rest.length, address)
  | ⟨.error _, _, _⟩ => .error .addressFailed

/-- `buf.copy_within(start..stop, 0)`. -/
def copyWithin (buf : Bytes) (start stop : ℕ) : Bytes :=
  (buf.take stop).drop start ++ buf.drop (stop - start)

/-- What `decrypt_payload` leaves: its answer, the buffer, and the nonce that it handed to
`Context::check_nonce_and_set` (before anything is decrypted). -/
structure Decrypted where
  answer : Except PacketError (ℕ × Address)
  buffer : Bytes
  nonce : Option Bytes

/-- `decrypt_payload` for a cipher that does nothing. -/
def decryptPayloadNone (payload : Bytes) : Decrypted :=
  match run Address.readFrom payload with
  | ⟨.ok address, rest, _⟩ =>
    let pos := payload.length - rest.length
    ⟨.ok (payload.length - pos, address), copyWithin payload pos payload.length, none⟩
  | ⟨.error _, _, _⟩ => ⟨.error .addressFailed, payload, none⟩

/-- `decrypt_payload_stream`. -/
def decryptPayloadStream (payload : Bytes) : Decrypted :=
  let ivLen := M.kind.saltLen
  if payload.length < ivLen then ⟨.error .tooShortForIv, payload, none⟩
  else
    let iv := payload.take ivLen
    let data := payload.drop ivLen
    match M.kind.decryptPacket key iv 0 data with
    | none => ⟨.error .assertion, payload, some iv⟩
    | some data =>
      let payload := iv ++ data
      match parsePacket data with
      | .error e => ⟨.error e, payload, some iv⟩
      | .ok (dn, addr) =>
        let dataStartIdx := ivLen + dn
        let dataLength := payload.length - dataStartIdx
        ⟨.ok (dataLength, addr), copyWithin payload dataStartIdx payload.length, some iv⟩

/-- `decrypt_payload_aead`. -/
def decryptPayloadAead (payload : Bytes) : Decrypted :=
  let saltLen := M.kind.saltLen
  if payload.length < saltLen then ⟨.error .tooShortForSalt, payload, none⟩
  else
    let salt := payload.take saltLen
    let data := payload.drop saltLen
    let tagLen := M.kind.tagLen
    if data.length < tagLen then ⟨.error .tooShortForTag, payload, some salt⟩
    else
      match M.kind.decryptPacket key salt 0 data with
      | none => ⟨.error .invalidTagIn, payload, some salt⟩
      | some plain =>
        -- the tag stays where it was
        let payload := salt ++ plain ++ data.drop plain.length
        let dataLen := data.length - tagLen
        match parsePacket (plain.take dataLen) with
        | .error e => ⟨.error e, payload, some salt⟩
        | .ok (dn, addr) =>
          let dataLength := dataLen - dn
          let dataStartIdx := saltLen + dn
          let dataEndIdx := dataStartIdx + dataLength
          ⟨.ok (dataLength, addr), copyWithin payload dataStartIdx dataEndIdx, some salt⟩

/-- `decrypt_payload`. -/
def decryptPayload (payload : Bytes) : Decrypted :=
  match M.category with
  | .none => decryptPayloadNone payload
  | .stream => decryptPayloadStream M key payload
  | .aead => decryptPayloadAead M key payload

/-- What `ProxySocket::recv` gives its caller, who reads `&buffer[..n]`. -/
def Decrypted.received (d : Decrypted) : Option (Address × Bytes) :=
  match d.answer with
  | .ok (n, addr) => some (addr, d.buffer.take n)
  | .error _ => none

/-! ## What is taken from a packet -/

/-- What was sealed in a packet. -/
def Method.opens (packet : Bytes) : Option Bytes :=
  match M.category with
  | .none => some packet
  | .stream | .aead =>
    if packet.length < M.kind.saltLen then none
    else M.kind.decryptPacket key (packet.take M.kind.saltLen) 0 (packet.drop M.kind.saltLen)

/-- The address and the payload in what was sealed. -/
def payloadOf (plain : Bytes) : Option (Address × Bytes) :=
  match run Address.readFrom plain with
  | ⟨.ok address, rest, _⟩ => some (address, rest)
  | ⟨.error _, _, _⟩ => none

theorem payloadOf_iff {plain payload : Bytes} {addr : Address} :
    payloadOf plain = some (addr, payload) ↔
      ∃ (a₀ : Address) (w : Bytes), a₀.writeToBuf = some w ∧ a₀.canonical = addr ∧ plain = w ++ payload := by
  unfold payloadOf
  obtain ⟨result, rest, out, hrun⟩ : ∃ result rest out, run Address.readFrom plain = ⟨result, rest, out⟩ :=
    ⟨_, _, _, rfl⟩
  rw [hrun]
  cases result with
  | ok a =>
    obtain ⟨-, a₀, w, hw, hcan, hplain⟩ := Address.readFrom_ok_iff.1 hrun
    constructor
    · intro h
      cases h
      exact ⟨a₀, w, hw, hcan, hplain⟩
    · rintro ⟨a₁, w₁, hw₁, hcan₁, hplain₁⟩
      have hback : run Address.readFrom plain = ⟨.ok addr, payload, []⟩ :=
        Address.readFrom_ok_iff.2 ⟨rfl, a₁, w₁, hw₁, hcan₁, hplain₁⟩
      rw [hrun] at hback
      cases hback
      rfl
  | error e =>
    constructor
    · intro h
      cases h
    · rintro ⟨a₁, w₁, hw₁, hcan₁, hplain₁⟩
      have hback : run Address.readFrom plain = ⟨.ok addr, payload, []⟩ :=
        Address.readFrom_ok_iff.2 ⟨rfl, a₁, w₁, hw₁, hcan₁, hplain₁⟩
      rw [hrun] at hback
      cases hback

/-- `parse_packet` says where the payload starts. -/
theorem parsePacket_cases (plain : Bytes) :
    (parsePacket plain = .error .addressFailed ∧ payloadOf plain = none) ∨
      ∃ dn addr payload, parsePacket plain = .ok (dn, addr) ∧ payloadOf plain = some (addr, payload) ∧
        dn ≤ plain.length ∧ plain.drop dn = payload := by
  unfold parsePacket payloadOf
  obtain ⟨result, rest, out, hrun⟩ : ∃ result rest out, run Address.readFrom plain = ⟨result, rest, out⟩ :=
    ⟨_, _, _, rfl⟩
  rw [hrun]
  cases result with
  | error e => exact Or.inl ⟨rfl, rfl⟩
  | ok a =>
    obtain ⟨-, a₀, w, -, -, rfl⟩ := Address.readFrom_ok_iff.1 hrun
    have hlen : (w ++ rest).length - rest.length = w.length := by
      rw [List.length_append]
      omega
    refine Or.inr ⟨(w ++ rest).length - rest.length, a, rest, rfl, rfl, Nat.sub_le _ _, ?_⟩
    rw [hlen, List.drop_left]

theorem take_copyWithin {buf : Bytes} {start stop n : ℕ} (hstop : stop ≤ buf.length) (hn : n = stop - start) :
    (copyWithin buf start stop).take n = (buf.take stop).drop start := by
  have hlen : ((buf.take stop).drop start).length = n := by
    rw [List.length_drop, List.length_take_of_le hstop, hn]
  unfold copyWithin
  rw [List.take_append_of_le_length (Nat.le_of_eq hlen.symm), List.take_of_length_le (Nat.le_of_eq hlen)]

theorem received_decryptPayloadNone (packet : Bytes) :
    (decryptPayloadNone packet).received = payloadOf packet := by
  unfold decryptPayloadNone payloadOf
  obtain ⟨result, rest, out, hrun⟩ : ∃ result rest out, run Address.readFrom packet = ⟨result, rest, out⟩ :=
    ⟨_, _, _, rfl⟩
  rw [hrun]
  cases result with
  | error e => rfl
  | ok a =>
    obtain ⟨-, a₀, w, -, -, rfl⟩ := Address.readFrom_ok_iff.1 hrun
    have hpos : (w ++ rest).length - rest.length = w.length := by
      rw [List.length_append]
      omega
    simp only [Decrypted.received, hpos]
    rw [take_copyWithin (Nat.le_refl _) rfl, List.take_length, List.drop_left]

variable {M} {key}

theorem received_decryptPayloadStream (hM : M.Lawful) (hstream : M.category = .stream) (packet : Bytes) :
    (decryptPayloadStream M key packet).received = (M.opens key packet).bind payloadOf := by
  have hopens : M.opens key packet = if packet.length < M.kind.saltLen then none
      else M.kind.decryptPacket key (packet.take M.kind.saltLen) 0 (packet.drop M.kind.saltLen) := by
    unfold Method.opens
    rw [hstream]
  rw [hopens]
  unfold decryptPayloadStream
  by_cases hshort : packet.length < M.kind.saltLen
  · simp only [if_pos hshort]
    rfl
  have hiv : (packet.take M.kind.saltLen).length = M.kind.saltLen := List.length_take_of_le (by omega)
  obtain ⟨m, hm⟩ := Option.isSome_iff_exists.1 (hM.decrypt_stream hstream key (packet.take M.kind.saltLen)
    (packet.drop M.kind.saltLen))
  simp only [if_neg hshort, hm, Option.bind_some]
  rcases parsePacket_cases m with ⟨hparse, hnone⟩ | ⟨dn, addr, payload, hparse, hsome, hle, hdrop⟩
  · rw [hparse, hnone]
    rfl
  · rw [hparse, hsome]
    simp only [Decrypted.received]
    rw [take_copyWithin (Nat.le_refl _) rfl, List.take_length, List.drop_append, hiv,
      List.drop_eq_nil_of_le (by rw [hiv]; omega), List.nil_append, Nat.add_sub_cancel_left, hdrop]

theorem received_decryptPayloadAead (hM : M.Lawful) (haead : M.category = .aead) (packet : Bytes) :
    (decryptPayloadAead M key packet).received = (M.opens key packet).bind payloadOf := by
  have hopens : M.opens key packet = if packet.length < M.kind.saltLen then none
      else M.kind.decryptPacket key (packet.take M.kind.saltLen) 0 (packet.drop M.kind.saltLen) := by
    unfold Method.opens
    rw [haead]
  rw [hopens]
  unfold decryptPayloadAead
  by_cases hshort : packet.length < M.kind.saltLen
  · simp only [if_pos hshort]
    rfl
  have hsalt : (packet.take M.kind.saltLen).length = M.kind.saltLen := List.length_take_of_le (by omega)
  simp only [if_neg hshort]
  cases hm : M.kind.decryptPacket key (packet.take M.kind.saltLen) 0 (packet.drop M.kind.saltLen) with
  | none =>
    simp only [Option.bind_none]
    split <;> rfl
  | some plain =>
    have hlen := hM.length_decrypt _ _ _ _ hm
    have hdata : (packet.drop M.kind.saltLen).length - M.kind.tagLen = plain.length := by omega
    have htag : ¬(packet.drop M.kind.saltLen).length < M.kind.tagLen := by omega
    simp only [if_neg htag, Option.bind_some, hdata, List.take_length]
    rcases parsePacket_cases plain with ⟨hparse, hnone⟩ | ⟨dn, addr, payload, hparse, hsome, hle, hdrop⟩
    · rw [hparse, hnone]
      rfl
    · rw [hparse, hsome]
      simp only [Decrypted.received]
      have hstop : M.kind.saltLen + dn + (plain.length - dn) =
          (packet.take M.kind.saltLen ++ plain).length := by
        rw [List.length_append, hsalt]
        omega
      have hfits : M.kind.saltLen + dn + (plain.length - dn) ≤ (packet.take M.kind.saltLen ++ plain ++
          (packet.drop M.kind.saltLen).drop plain.length).length := by
        rw [hstop]
        exact (List.prefix_append _ _).length_le
      rw [take_copyWithin hfits (by omega), hstop, List.take_left,
        List.drop_append, hsalt, List.drop_eq_nil_of_le (by rw [hsalt]; omega), List.nil_append,
        Nat.add_sub_cancel_left, hdrop]

/-- **What the receiver takes from a packet**: the address and the payload in what was sealed. -/
theorem received_decryptPayload (hM : M.Lawful) (packet : Bytes) :
    (decryptPayload M key packet).received = (M.opens key packet).bind payloadOf := by
  unfold decryptPayload
  cases hcat : M.category with
  | none =>
    have hopens : M.opens key packet = some packet := by
      unfold Method.opens
      rw [hcat]
    rw [hopens]
    exact received_decryptPayloadNone packet
  | stream => exact received_decryptPayloadStream hM hcat packet
  | aead => exact received_decryptPayloadAead hM hcat packet

theorem received_decryptPayload_iff (hM : M.Lawful) {packet payload : Bytes} {addr : Address} :
    (decryptPayload M key packet).received = some (addr, payload) ↔
      ∃ (a₀ : Address) (w : Bytes), a₀.writeToBuf = some w ∧ a₀.canonical = addr ∧
        M.opens key packet = some (w ++ payload) := by
  rw [received_decryptPayload hM, Option.bind_eq_some_iff]
  constructor
  · rintro ⟨plain, hopens, hpayload⟩
    obtain ⟨a₀, w, hw, hcan, rfl⟩ := payloadOf_iff.1 hpayload
    exact ⟨a₀, w, hw, hcan, hopens⟩
  · rintro ⟨a₀, w, hw, hcan, hopens⟩
    exact ⟨w ++ payload, hopens, payloadOf_iff.2 ⟨a₀, w, hw, hcan, rfl⟩⟩

theorem received_decryptPayload_loopback :
    (decryptPayload .marking [] [5, 1, 127, 0, 0, 1, 0, 80, 9, 0]).received =
      some (.socketAddress (.v4 ⟨[127, 0, 0, 1], rfl⟩ 80), [9]) :=
  (received_decryptPayload_iff Method.marking_lawful).2
    ⟨.socketAddress (.v4 ⟨[127, 0, 0, 1], rfl⟩ 80), [1, 127, 0, 0, 1, 0, 80], rfl, rfl, rfl⟩

/-- **The round trip.** -/
theorem received_encryptPayload (hM : M.Lawful) {salt payload packet : Bytes} {addr : Address}
    (hsalt : salt.length = M.kind.saltLen) (h : encryptPayload M key salt addr payload = some packet) :
    (decryptPayload M key packet).received = some (addr.canonical, payload) := by
  obtain ⟨w, hw, hpacket⟩ := Option.map_eq_some_iff.1 h
  rw [received_decryptPayload_iff hM]
  refine ⟨addr, w, hw, rfl, ?_⟩
  have hsealed : M.kind.decryptPacket key salt 0 (M.kind.encryptPacket key salt 0 (w ++ payload)) =
      some (w ++ payload) := hM.decrypt_encrypt key salt (w ++ payload)
  unfold Method.opens
  cases hcat : M.category with
  | none =>
    rw [hcat] at hpacket
    rw [← hpacket]
  | stream | aead =>
    rw [hcat] at hpacket
    have hlong : ¬packet.length < M.kind.saltLen := by
      rw [← hpacket, List.length_append, hsalt]
      omega
    simp only [if_neg hlong]
    rw [← hpacket, ← hsalt, List.take_left, List.drop_left, hsealed]

theorem received_encryptPayload_loopback :
    ∃ packet, encryptPayload .marking [] [5] (.socketAddress (.v4 ⟨[127, 0, 0, 1], rfl⟩ 80)) [9] = some packet ∧
      (decryptPayload .marking [] packet).received = some (.socketAddress (.v4 ⟨[127, 0, 0, 1], rfl⟩ 80), [9]) := by
  obtain ⟨packet, hpacket⟩ : ∃ packet, encryptPayload .marking [] [5]
      (.socketAddress (.v4 ⟨[127, 0, 0, 1], rfl⟩ 80)) [9] = some packet := ⟨_, rfl⟩
  exact ⟨packet, hpacket, received_encryptPayload Method.marking_lawful rfl hpacket⟩

end Relay

end BlackButton
