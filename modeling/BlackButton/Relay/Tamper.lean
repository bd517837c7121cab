import BlackButton.Relay.Channel

/-!
# What a reader gives out when the connection is not to be trusted (`relay/tcprelay/aead.rs`)

Anybody can put any bytes on a connection and cut it at any point. What holds the reader
to what a peer wrote is that the ciphers are not forged: what arrives and opens under the
key, a salt and a packet number was sealed under them by a peer that has the key
(`Unforged`).

* `Opens.turn`: what a turn of the reader keeps, whatever it is given.
* `Tampered.run_opens`: **everything given out is the beginning of what one peer wrote in one
  session**, the one whose salt stands at the start; a clean end is seen only after
  whole chunks. Nothing tells the reader whether these were all of them.
* `Tampered.run_nonces`: **only salts of sessions are remembered** against replays, at most one for a
  connection.
-/

namespace BlackButton

namespace Relay

/-- The packets of a session, in the order in which they are sealed: a length and its data. -/
def packets (chunks : List Bytes) : List Bytes := chunks.flatMap fun x => [bigEndian 2 x.length, x]

/-- What has arrived and opens under `key` was sealed in a session of a peer that has it; `sessions` are their
chunks, by salt. -/
structure Unforged (K : CipherKind) (key : Bytes) (sessions : Bytes → Option (List Bytes)) (arrived : Bytes) : Prop where
  opens : ∀ salt n m p, m <:+: arrived → K.decryptPacket key salt n m = some p →
    ∃ chunks, sessions salt = some chunks ∧ (packets chunks)[n]? = some p
  le : ∀ salt chunks, sessions salt = some chunks → ∀ x ∈ chunks, x.length ≤ MAX_PACKET_SIZE

variable {K : CipherKind} {key : Bytes} {sessions : Bytes → Option (List Bytes)} {arrived : Bytes}

theorem Unforged.mono (h : Unforged K key sessions arrived) {a : Bytes} (ha : a <+: arrived) :
    Unforged K key sessions a :=
  ⟨fun salt n m p hm => h.opens salt n m p (hm.trans ha.isInfix), h.le⟩

/-- The cipher that opens just the packets of given sessions, as one that is not forged does. -/
def CipherKind.opening (sessions : Bytes → Option (List Bytes)) : CipherKind where
  saltLen := 1
  tagLen := 1
  encryptPacket _ _ n p := p ++ [UInt8.ofNat n]
  decryptPacket _ salt n m :=
    ((sessions salt).bind fun chunks => (packets chunks)[n]?).bind fun p =>
      if m = p ++ [UInt8.ofNat n] then some p else none

theorem unforged_opening (hle : ∀ salt chunks, sessions salt = some chunks → ∀ x ∈ chunks, x.length ≤ MAX_PACKET_SIZE) :
    Unforged (.opening sessions) key sessions arrived where
  le := hle
  opens salt n m p _ h := by
    obtain ⟨p', hp', hm⟩ := Option.bind_eq_some_iff.1 h
    obtain ⟨chunks, hc, hn⟩ := Option.bind_eq_some_iff.1 hp'
    obtain ⟨-, heq⟩ := Option.ite_none_right_eq_some.1 hm
    cases heq
    exact ⟨chunks, hc, hn⟩

theorem packets_length (chunks : List Bytes) :
    ∀ k, (packets chunks)[2 * k]? = chunks[k]?.map fun x => bigEndian 2 x.length := by
  induction chunks with
  | nil => intro k; rfl
  | cons x xs ih =>
    intro k
    cases k with
    | zero => rfl
    | succ k => exact ih k

theorem packets_data (chunks : List Bytes) : ∀ k, (packets chunks)[2 * k + 1]? = chunks[k]? := by
  induction chunks with
  | nil => intro k; rfl
  | cons x xs ih =>
    intro k
    cases k with
    | zero => rfl
    | succ k => exact ih k

/-- **Where a reader stands** in a session, and what it has given out; before its first packet has opened, the
salt may be anything. -/
inductive Opens (key : Bytes) (sessions : Bytes → Option (List Bytes)) : DecryptedReader → Bytes → Prop
  | waitSalt (buffer : Bytes) : Opens key sessions ⟨.waitSalt key, none, buffer, none⟩ []
  | fresh (salt buffer : Bytes) (s : Option Bytes) (hs : s = none ∨ s = some salt) :
      Opens key sessions ⟨.readLength, some (cipherAt key salt 0), buffer, s⟩ []
  | readLength (salt : Bytes) (chunks : List Bytes) (k : ℕ) (buffer : Bytes) (hc : sessions salt = some chunks)
      (hk : k ≤ chunks.length) :
      Opens key sessions ⟨.readLength, some (cipherAt key salt k), buffer, none⟩ (chunks.take k).flatten
  | readData (salt : Bytes) (chunks : List Bytes) (k : ℕ) (x buffer : Bytes) (s : Option Bytes)
      (hs : s = none ∨ s = some salt) (hc : sessions salt = some chunks) (hx : chunks[k]? = some x) :
      Opens key sessions ⟨.readData x.length, some (cipherAt key salt k).next, buffer, s⟩ (chunks.take k).flatten
  | bufferedData (salt : Bytes) (chunks : List Bytes) (k : ℕ) (x : Bytes) (pos : ℕ) (hc : sessions salt = some chunks)
      (hx : chunks[k]? = some x) :
      Opens key sessions ⟨.bufferedData pos, some (cipherAt key salt (k + 1)), x, none⟩
        ((chunks.take k).flatten ++ x.take pos)

theorem take_succ_flatten {chunks : List Bytes} {k : ℕ} {x : Bytes} (hx : chunks[k]? = some x) :
    (chunks.take (k + 1)).flatten = (chunks.take k).flatten ++ x := by
  rw [List.take_add_one, hx, Option.toList_some, List.flatten_append]
  simp

/-- What can come of a turn. -/
def OpensTurn (key : Bytes) (sessions : Bytes → Option (List Bytes)) (received : Bytes) (remaining : ℕ)
    (r' : DecryptedReader) : DecryptedReader.Turn → Prop
  | .again | .pending => Opens key sessions r' received
  | .ok filled =>
    Opens key sessions r' (received ++ filled) ∧
      (0 < remaining → filled = [] → received = [] ∨ ∃ c chunks k, r'.cipher = some c ∧
        sessions c.salt = some chunks ∧ received = (chunks.take k).flatten)
  | .error _ => True

section Turn

variable {r' : DecryptedReader} {received b : Bytes} {remaining : ℕ} {stream : Inbound} {t : DecryptedReader.Turn}
  {nonce : Option Bytes}

/-- A sealed length that opens is that of a chunk. -/
theorem exists_chunk (hU : Unforged K key sessions arrived) (hin : b <:+: arrived) {salt m : Bytes} {k : ℕ}
    (hm : (cipherAt key salt k).decryptPacket K b = some m) :
    ∃ chunks x, sessions salt = some chunks ∧ chunks[k]? = some x ∧ ofBigEndian (m.take 2) = x.length := by
  obtain ⟨chunks, hc, hp⟩ := hU.opens salt (2 * k) b m hin hm
  rw [packets_length, Option.map_eq_some_iff] at hp
  obtain ⟨x, hx, rfl⟩ := hp
  exact ⟨chunks, x, hc, hx, ofBigEndian_length (hU.le salt chunks hc x (List.mem_of_getElem? hx))⟩

/-- The reader waits for a length; `k` chunks have been opened. -/
theorem turn_length (hU : Unforged K key sessions arrived) {salt buffer : Bytes} {k : ℕ} {s : Option Bytes}
    (hs : s = none ∨ s = some salt)
    (hstart : (k = 0 ∧ received = []) ∨ ∃ chunks, sessions salt = some chunks ∧ received = (chunks.take k).flatten)
    (hopen : ∀ b, Opens key sessions ⟨.readLength, some (cipherAt key salt k), b, s⟩ received) (hin : b <:+: arrived)
    (ht : Turned K ⟨.readLength, some (cipherAt key salt k), buffer, s⟩ remaining b stream t r' nonce) :
    OpensTurn key sessions received remaining r' t ∧ ∀ salt ∈ nonce, (sessions salt).isSome := by
  cases ht with
  | waits => exact ⟨hopen b, nofun⟩
  | failed => exact ⟨trivial, nofun⟩
  | cut => exact ⟨trivial, nofun⟩
  | finished =>
    refine ⟨⟨by rw [List.append_nil]; exact hopen b, fun _ _ => ?_⟩, nofun⟩
    rcases hstart with ⟨-, rfl⟩ | ⟨chunks, hc, hr⟩
    · exact Or.inl rfl
    · exact Or.inr ⟨_, chunks, k, rfl, hc, hr⟩
  | length c m hr hcipher hb hm =>
    cases hcipher
    obtain ⟨chunks, x, hc, hx, hlen⟩ := exists_chunk hU hin hm
    have hreceived : received = (chunks.take k).flatten := by
      rcases hstart with ⟨rfl, rfl⟩ | ⟨chunks', hc', rfl⟩
      · rfl
      · rw [hc] at hc'
        cases hc'
        rfl
    rw [hreceived, hlen]
    exact ⟨.readData salt chunks k x [] s hs hc hx, nofun⟩
  | badLength => exact ⟨trivial, nofun⟩
  | tooLarge => exact ⟨trivial, nofun⟩
  | salt _ hr | data _ _ _ hr | badData _ _ hr | buffered _ hr | drained _ hr => cases hr

/-- **A turn of the reader**, whatever it is given. -/
theorem Opens.turn (hU : Unforged K key sessions arrived) {r : DecryptedReader} (h : Opens key sessions r received)
    (hin : (∀ pos, r.state ≠ .bufferedData pos) → b <:+: arrived)
    (ht : Turned K r remaining b stream t r' nonce) :
    OpensTurn key sessions received remaining r' t ∧ ∀ salt ∈ nonce, (sessions salt).isSome := by
  cases h with
  | waitSalt buffer =>
    cases ht with
    | waits => exact ⟨.waitSalt b, nofun⟩
    | failed => exact ⟨trivial, nofun⟩
    | cut => exact ⟨trivial, nofun⟩
    | salt key' hr =>
      cases hr
      exact ⟨.fresh b [] (some b) (Or.inr rfl), nofun⟩
    | finished hr | length _ _ hr | badLength _ hr | tooLarge _ _ hr | data _ _ _ hr | badData _ _ hr
    | buffered _ hr | drained _ hr => cases hr
  | fresh salt buffer s hs =>
    exact turn_length hU hs (Or.inl ⟨rfl, rfl⟩) (fun b => .fresh salt b s hs) (hin nofun) ht
  | readLength salt chunks k buffer hc hk =>
    exact turn_length hU (Or.inl rfl) (Or.inr ⟨chunks, hc, rfl⟩) (fun b => .readLength salt chunks k b hc hk) (hin nofun)
      ht
  | readData salt chunks k x buffer s hs hc hx =>
    cases ht with
    | waits => exact ⟨.readData salt chunks k x b s hs hc hx, nofun⟩
    | failed => exact ⟨trivial, nofun⟩
    | cut => exact ⟨trivial, nofun⟩
    | data size c m hr hcipher hb hm =>
      cases hr
      cases hcipher
      obtain ⟨chunks', hc', hp⟩ := hU.opens salt (2 * k + 1) b m (hin nofun) hm
      rw [hc] at hc'
      cases hc'
      rw [packets_data, hx] at hp
      cases hp
      have hstep : Opens key sessions ⟨.bufferedData 0, some (cipherAt key salt (k + 1)), x, none⟩
          ((chunks.take k).flatten ++ x.take 0) := .bufferedData salt chunks k x 0 hc hx
      rw [List.take_zero, List.append_nil] at hstep
      rw [List.take_length]
      refine ⟨hstep, ?_⟩
      rintro salt' hsalt'
      rcases hs with rfl | rfl
      · cases hsalt'
      · cases hsalt'
        rw [hc]
        rfl
    | badData => exact ⟨trivial, nofun⟩
    | salt _ hr | finished hr | length _ _ hr | badLength _ hr | tooLarge _ _ hr | buffered _ hr | drained _ hr =>
      cases hr
  | bufferedData salt chunks k x pos hc hx =>
    cases ht with
    | waits hr => exact absurd rfl (hr pos)
    | failed hr => exact absurd rfl (hr pos)
    | cut hr => exact absurd rfl (hr pos)
    | buffered pos' hr hb hlt =>
      cases hr
      cases hb
      obtain ⟨j, hj⟩ : ∃ j, j = min (x.drop pos).length remaining := ⟨_, rfl⟩
      have hstep : Opens key sessions ⟨.bufferedData (pos + j), some (cipherAt key salt (k + 1)), x, none⟩
          ((chunks.take k).flatten ++ x.take (pos + j)) := .bufferedData salt chunks k x (pos + j) hc hx
      rw [List.take_add, ← List.append_assoc] at hstep
      refine ⟨⟨by rw [← hj]; exact hstep, ?_⟩, nofun⟩
      intro hrem hnil
      have hlen := congrArg List.length hnil
      have hpos : pos < x.length := hlt
      rw [List.length_take, List.length_drop, List.length_nil] at hlen
      omega
    | drained pos' hr hb hle =>
      cases hr
      cases hb
      have hall : x.take pos = x := List.take_of_length_le hle
      have hk := (List.getElem?_eq_some_iff.1 hx).1
      rw [hall, ← take_succ_flatten hx]
      exact ⟨.readLength salt chunks (k + 1) [] hc (by omega), nofun⟩
    | salt _ hr | finished hr | length _ _ hr | badLength _ hr | tooLarge _ _ hr | data _ _ _ hr | badData _ _ hr =>
      cases hr

end Turn

/-- What was given out is the beginning of one session. -/
theorem Opens.beginning {r : DecryptedReader} {received : Bytes} (h : Opens key sessions r received) :
    received = [] ∨ ∃ c chunks, r.cipher = some c ∧ sessions c.salt = some chunks ∧ received <+: chunks.flatten := by
  have htake (chunks : List Bytes) (k : ℕ) : (chunks.take k).flatten <+: chunks.flatten := by
    refine ⟨(chunks.drop k).flatten, ?_⟩
    rw [← List.flatten_append, List.take_append_drop]
  cases h with
  | waitSalt => exact Or.inl rfl
  | fresh => exact Or.inl rfl
  | readLength salt chunks k buffer hc => exact Or.inr ⟨_, chunks, rfl, hc, htake chunks k⟩
  | readData salt chunks k x buffer s hs hc => exact Or.inr ⟨_, chunks, rfl, hc, htake chunks k⟩
  | bufferedData salt chunks k x pos hc hx =>
    refine Or.inr ⟨_, chunks, rfl, hc, List.IsPrefix.trans ?_ (htake chunks (k + 1))⟩
    rw [take_succ_flatten hx, List.prefix_append_right_inj]
    exact List.take_prefix pos x

/-! ## A connection in other hands -/

/-- A reader at the end of a connection on which anything may be put. -/
structure Tampered where
  -- all that was put on the connection
  arrived : Bytes
  wire : Inbound
  reader : DecryptedReader
  received : Bytes
  ended : Bool
  failed : Option DecryptError
  -- what was handed to `Context::check_nonce_and_set`
  nonces : List Bytes
  deriving DecidableEq

namespace Tampered

inductive Event
  | put (bytes : Bytes)
  | cut
  | read (remaining : ℕ) (polls : List Ready)

variable (K) in
def step (s : Tampered) : Event → Option Tampered
  | .put bytes =>
    if s.wire.eof then none
    else some { s with arrived := s.arrived ++ bytes, wire := { s.wire with bytes := s.wire.bytes ++ bytes } }
  | .cut => some { s with wire := { s.wire with eof := true } }
  | .read remaining polls =>
    if 0 < remaining ∧ s.ended = false ∧ s.failed = none then
      let (t, reader, wire, nonce) := s.reader.turn K remaining s.wire polls
      let s := { s with reader, wire, nonces := s.nonces ++ nonce.toList }
      match t with
      | .ok [] => some { s with ended := true }
      | .ok filled => some { s with received := s.received ++ filled }
      | .error e => some { s with failed := some e }
      | _ => some s
    else none

variable (K) in
def machine (key : Bytes) : Machine Tampered Event where
  init := ⟨[], ⟨[], false⟩, .new K key, [], false, none, []⟩
  step := step K

/-- The salt that stands at the start of the connection. -/
def salt (K : CipherKind) (s : Tampered) : Bytes := s.arrived.take K.saltLen

/-- The ciphertext that the reader has collected. -/
def collected (s : Tampered) : Bytes :=
  match s.reader.state with
  | .bufferedData _ => []
  | _ => s.reader.buffer

/-- What the reader has made of the start of the connection. -/
structure Started (K : CipherKind) (s : Tampered) : Prop where
  -- what it collects is the end of what it has read
  split : ∃ consumed, s.arrived = consumed ++ s.collected ++ s.wire.bytes
  waits : ∀ key, s.reader.state = .waitSalt key → s.reader.buffer ++ s.wire.bytes = s.arrived ∧ s.nonces = []
  cipher : ∀ c, s.reader.cipher = some c → c.salt = s.salt K ∧ K.saltLen ≤ s.arrived.length

/-- What every step keeps. -/
structure Inv (K : CipherKind) (key : Bytes) (sessions : Bytes → Option (List Bytes)) (s : Tampered) : Prop where
  reader : s.failed = none → s.reader.WellFormed K ∧ Opens key sessions s.reader s.received ∧ Started K s
  received : s.received = [] ∨ K.saltLen ≤ s.arrived.length ∧ ∃ chunks, sessions (s.salt K) = some chunks ∧
    s.received <+: chunks.flatten ∧ (s.ended = true → ∃ k, s.received = (chunks.take k).flatten)
  nonces : s.nonces.length + s.reader.salt.toList.length ≤ 1 ∧ ∀ salt ∈ s.nonces, (sessions salt).isSome

theorem inv_new (K : CipherKind) (key : Bytes) (sessions : Bytes → Option (List Bytes)) :
    Inv K key sessions (machine K key).init where
  reader _ := by
    refine ⟨wellFormed_new key, ?_, ?_⟩
    · show Opens key sessions (DecryptedReader.new K key) []
      unfold DecryptedReader.new
      split
      · exact .waitSalt []
      · exact .fresh [] [] none (Or.inl rfl)
    · constructor
      · refine ⟨[], ?_⟩
        unfold collected machine DecryptedReader.new
        split <;> rfl
      · intro key' hkey
        refine ⟨?_, rfl⟩
        show (DecryptedReader.new K key).buffer ++ [] = []
        unfold DecryptedReader.new
        split <;> rfl
      · intro c hc
        have hc : (DecryptedReader.new K key).cipher = some c := hc
        unfold DecryptedReader.new at hc
        split at hc
        · cases hc
        · rename_i hzero
          cases hc
          exact ⟨List.take_nil.symm, by omega⟩
  received := Or.inl rfl
  nonces := by
    refine ⟨?_, nofun⟩
    show 0 + (DecryptedReader.new K key).salt.toList.length ≤ 1
    unfold DecryptedReader.new
    split <;> exact Nat.zero_le 1

/-- What arrives later does not change the salt. -/
theorem salt_append {a bytes : Bytes} {n : ℕ} (h : n ≤ a.length) : (a ++ bytes).take n = a.take n :=
  List.take_append_of_le_length h

theorem Inv.put {s s' : Tampered} (h : Inv K key sessions s) {bytes : Bytes}
    (hstep : step K s (.put bytes) = some s') : Inv K key sessions s' := by
  obtain ⟨hopen, hstep⟩ := Option.ite_none_left_eq_some.1 hstep
  cases hstep
  refine ⟨?_, ?_, h.nonces⟩
  · intro hf
    obtain ⟨hwf, hopens, hstart⟩ := h.reader hf
    refine ⟨hwf, hopens, ?_, ?_, ?_⟩
    · obtain ⟨consumed, hsplit⟩ := hstart.split
      refine ⟨consumed, ?_⟩
      show s.arrived ++ bytes = consumed ++ s.collected ++ (s.wire.bytes ++ bytes)
      rw [hsplit, List.append_assoc _ s.wire.bytes]
    · intro key' hkey
      obtain ⟨hbuf, hnon⟩ := hstart.waits key' hkey
      refine ⟨?_, hnon⟩
      show s.reader.buffer ++ (s.wire.bytes ++ bytes) = s.arrived ++ bytes
      rw [← hbuf, List.append_assoc]
    · intro c hc
      obtain ⟨hsalt, hle⟩ := hstart.cipher c hc
      refine ⟨?_, by rw [List.length_append]; omega⟩
      rw [hsalt]
      exact (salt_append hle).symm
  · rcases h.received with hnil | ⟨hle, chunks, hc, hrest⟩
    · exact Or.inl hnil
    · refine Or.inr ⟨by rw [List.length_append]; omega, chunks, ?_, hrest⟩
      show sessions ((s.arrived ++ bytes).take K.saltLen) = some chunks
      rw [salt_append hle]
      exact hc

theorem Inv.cut {s s' : Tampered} (h : Inv K key sessions s) (hstep : step K s .cut = some s') :
    Inv K key sessions s' := by
  cases hstep
  refine ⟨?_, h.received, h.nonces⟩
  intro hf
  obtain ⟨hwf, hopens, hstart⟩ := h.reader hf
  exact ⟨hwf, hopens, hstart.split, hstart.waits, hstart.cipher⟩

/-- A turn and the start of the connection. -/
theorem Started.turn {s : Tampered} {r' : DecryptedReader} {got : Bytes} {wire : Inbound} {remaining : ℕ}
    {t : DecryptedReader.Turn} {nonce : Option Bytes} (h : Started K s) (hbytes : s.wire.bytes = got ++ wire.bytes)
    (ht : Turned K s.reader remaining (s.reader.buffer ++ got) wire t r' nonce)
    (hlen : s.nonces.length + s.reader.salt.toList.length ≤ 1) :
    Started K { s with reader := r', wire, nonces := s.nonces ++ nonce.toList } ∧
      (s.nonces ++ nonce.toList).length + r'.salt.toList.length ≤ 1 := by
  obtain ⟨consumed, hsplit⟩ := h.split
  have hall : s.arrived = consumed ++ s.collected ++ got ++ wire.bytes := by
    rw [hsplit, hbytes, List.append_assoc (consumed ++ s.collected)]
  -- the reader stays in its state, with more in its buffer
  have hkeep (r'' : DecryptedReader) (hs : r''.state = s.reader.state) (hno : ∀ pos, s.reader.state ≠ .bufferedData pos)
      (hb : r''.buffer = s.reader.buffer ++ got) (hc : ∀ c, r''.cipher = some c → ∃ c', s.reader.cipher = some c' ∧
        c'.salt = c.salt) (hsalt : r''.salt = s.reader.salt) :
      Started K { s with reader := r'', wire, nonces := s.nonces ++ (none : Option Bytes).toList } ∧
        (s.nonces ++ (none : Option Bytes).toList).length + r''.salt.toList.length ≤ 1 := by
    refine ⟨⟨⟨consumed, ?_⟩, ?_, ?_⟩, ?_⟩
    · have hcollected : s.collected = s.reader.buffer := by
        unfold collected
        split
        · rename_i pos hpos
          exact absurd hpos (hno pos)
        · rfl
      have hcollected' : collected { s with reader := r'', wire, nonces := s.nonces ++ (none : Option Bytes).toList } =
          r''.buffer := by
        unfold collected
        simp only [hs]
      rw [hcollected', hb, ← hcollected, ← List.append_assoc]
      exact hall
    · intro key hkey
      obtain ⟨harr, hnon⟩ := h.waits key (hs.symm.trans hkey)
      refine ⟨?_, by rw [hnon]; rfl⟩
      show r''.buffer ++ wire.bytes = s.arrived
      rw [hb, List.append_assoc, ← hbytes, harr]
    · intro c hcip
      obtain ⟨c', hc', heq⟩ := hc c hcip
      rw [← heq]
      exact h.cipher c' hc'
    · rw [hsalt, Option.toList_none, List.append_nil]
      exact hlen
  -- the reader has a whole packet, and collects nothing yet
  have hwhole (r'' : DecryptedReader) (nonce' : Option Bytes) (hs : ∀ key, r''.state ≠ .waitSalt key)
      (hb : collected { s with reader := r'', wire, nonces := s.nonces ++ nonce'.toList } = [])
      (hc : ∀ c, r''.cipher = some c → c.salt = s.salt K ∧ K.saltLen ≤ s.arrived.length) :
      Started K { s with reader := r'', wire, nonces := s.nonces ++ nonce'.toList } := by
    refine ⟨⟨consumed ++ s.collected ++ got, ?_⟩, fun key hkey => absurd hkey (hs key), hc⟩
    rw [hb, List.append_nil]
    exact hall
  cases ht with
  | waits hr => exact hkeep _ rfl hr rfl (fun c hc => ⟨c, hc, rfl⟩) rfl
  | failed hr => exact hkeep _ rfl hr rfl (fun c hc => ⟨c, hc, rfl⟩) rfl
  | cut hr => exact hkeep _ rfl hr rfl (fun c hc => ⟨c, hc, rfl⟩) rfl
  | finished hr => exact hkeep _ rfl (by rw [hr]; nofun) rfl (fun c hc => ⟨c, hc, rfl⟩) rfl
  | badLength c hr hc => exact hkeep _ rfl (by rw [hr]; nofun) rfl (fun c' hc' => ⟨c, hc, by cases hc'; rfl⟩) rfl
  | tooLarge c m hr hc => exact hkeep _ rfl (by rw [hr]; nofun) rfl (fun c' hc' => ⟨c, hc, by cases hc'; rfl⟩) rfl
  | badData size c hr hc => exact hkeep _ rfl (by rw [hr]; nofun) rfl (fun c' hc' => ⟨c, hc, by cases hc'; rfl⟩) rfl
  | salt key hr hb =>
    obtain ⟨harr, hnon⟩ := h.waits key hr
    have hsalt : s.reader.buffer ++ got = s.arrived.take K.saltLen := by
      rw [← harr, hbytes, ← List.append_assoc, ← hb, List.take_left]
    have hle : K.saltLen ≤ s.arrived.length := by
      rw [← harr, hbytes, ← List.append_assoc, List.length_append, hb]
      omega
    refine ⟨hwhole _ none nofun rfl ?_, ?_⟩
    · intro c hc
      cases hc
      exact ⟨hsalt, hle⟩
    · rw [hnon]
      exact Nat.le_refl 1
  | length c m hr hc =>
    refine ⟨hwhole _ none nofun rfl (fun c' hc' => by cases hc'; exact h.cipher c hc), ?_⟩
    rw [Option.toList_none, List.append_nil]
    exact hlen
  | data size c m hr hc =>
    refine ⟨hwhole _ _ nofun rfl (fun c' hc' => by cases hc'; exact h.cipher c hc), ?_⟩
    rw [List.length_append]
    exact hlen
  | buffered pos =>
    refine ⟨hwhole _ none nofun rfl h.cipher, ?_⟩
    rw [Option.toList_none, List.append_nil]
    exact hlen
  | drained pos =>
    refine ⟨hwhole _ none nofun rfl h.cipher, ?_⟩
    rw [Option.toList_none, List.append_nil]
    exact hlen

theorem Inv.read (htag : 0 < K.tagLen) {s s' : Tampered} (hU : Unforged K key sessions s.arrived)
    (h : Inv K key sessions s) {remaining : ℕ} {polls : List Ready}
    (hstep : step K s (.read remaining polls) = some s') : Inv K key sessions s' := by
  obtain ⟨t, r', wire, nonce, ht⟩ : ∃ t r' wire nonce,
      s.reader.turn K remaining s.wire polls = (t, r', wire, nonce) := ⟨_, _, _, _, rfl⟩
  simp only [step, ht] at hstep
  obtain ⟨⟨hrem, hended, hfailed⟩, hstep⟩ := Option.ite_none_right_eq_some.1 hstep
  obtain ⟨hwf, hopens, hstart⟩ := h.reader hfailed
  obtain ⟨got, hbytes, -, hlen, hturned⟩ := turn_spec htag hwf ht
  have hin (hno : ∀ pos, s.reader.state ≠ .bufferedData pos) : s.reader.buffer ++ got <:+: s.arrived := by
    obtain ⟨consumed, hsplit⟩ := hstart.split
    have hcollected : s.collected = s.reader.buffer := by
      unfold collected
      split
      · rename_i pos hpos
        exact absurd hpos (hno pos)
      · rfl
    refine ⟨consumed, wire.bytes, ?_⟩
    rw [hsplit, hbytes, hcollected]
    simp only [List.append_assoc]
  obtain ⟨hturn, hnonce⟩ := hopens.turn hU hin hturned
  obtain ⟨hstart', hlen'⟩ := hstart.turn hbytes hturned h.nonces.1
  have hnonces : ∀ salt ∈ s.nonces ++ nonce.toList, (sessions salt).isSome := by
    intro salt hmem
    rw [List.mem_append, Option.mem_toList] at hmem
    rcases hmem with hmem | hmem
    · exact h.nonces.2 salt hmem
    · exact hnonce salt hmem
  -- the session of what is given out
  have hsession {received : Bytes} (ho : Opens key sessions r' received) :
      received = [] ∨ K.saltLen ≤ s.arrived.length ∧ ∃ chunks, sessions (s.salt K) = some chunks ∧
        received <+: chunks.flatten := by
    rcases ho.beginning with hnil | ⟨c, chunks, hc, hchunks, hpre⟩
    · exact Or.inl hnil
    · obtain ⟨hsalt, hle⟩ := hstart'.cipher c hc
      rw [hsalt] at hchunks
      exact Or.inr ⟨hle, chunks, hchunks, hpre⟩
  have hreceived {received : Bytes} (ho : Opens key sessions r' received) :
      received = [] ∨ K.saltLen ≤ s.arrived.length ∧ ∃ chunks, sessions (s.salt K) = some chunks ∧
        received <+: chunks.flatten ∧ (s.ended = true → ∃ k, received = (chunks.take k).flatten) := by
    rcases hsession ho with hnil | ⟨hle, chunks, hc, hpre⟩
    · exact Or.inl hnil
    · refine Or.inr ⟨hle, chunks, hc, hpre, ?_⟩
      intro he
      rw [hended] at he
      cases he
  have hwf' (hno : ∀ e, t ≠ .error e) := hturned.wellFormed hwf hlen fun e he => absurd he (hno e)
  cases t with
  | again =>
    cases hstep
    exact ⟨fun _ => ⟨hwf' nofun, hturn, hstart'⟩, hreceived hturn, hlen', hnonces⟩
  | pending =>
    cases hstep
    exact ⟨fun _ => ⟨hwf' nofun, hturn, hstart'⟩, hreceived hturn, hlen', hnonces⟩
  | error e =>
    cases hstep
    exact ⟨nofun, h.received, hlen', hnonces⟩
  | ok filled =>
    obtain ⟨ho, hlast⟩ := hturn
    cases filled with
    | nil =>
      cases hstep
      rw [List.append_nil] at ho
      refine ⟨fun _ => ⟨hwf' nofun, ho, hstart'.split, hstart'.waits, hstart'.cipher⟩, ?_, hlen', hnonces⟩
      rcases hlast hrem rfl with hnil | ⟨c, chunks, k, hc, hchunks, hk⟩
      · exact Or.inl hnil
      · obtain ⟨hsalt, hle⟩ := hstart'.cipher c hc
        rw [hsalt] at hchunks
        rcases hsession ho with hnil | ⟨-, chunks', hchunks', hpre⟩
        · exact Or.inl hnil
        · have heq : chunks = chunks' := Option.some.inj (hchunks.symm.trans hchunks')
          subst heq
          exact Or.inr ⟨hle, chunks, hchunks, hpre, fun _ => ⟨k, hk⟩⟩
    | cons b bs =>
      cases hstep
      exact ⟨fun _ => ⟨hwf' nofun, ho, hstart'.split, hstart'.waits, hstart'.cipher⟩, hreceived ho, hlen', hnonces⟩

/-- What has arrived stays. -/
theorem step_arrived {s s' : Tampered} {e : Event} (h : step K s e = some s') : s.arrived <+: s'.arrived := by
  cases e with
  | put bytes =>
    obtain ⟨-, h⟩ := Option.ite_none_left_eq_some.1 h
    cases h
    exact List.prefix_append _ _
  | cut =>
    cases h
    exact List.prefix_rfl
  | read remaining polls =>
    unfold step at h
    obtain ⟨-, h⟩ := Option.ite_none_right_eq_some.1 h
    obtain ⟨t, r', wire, nonce, ht⟩ : ∃ t r' wire nonce,
        s.reader.turn K remaining s.wire polls = (t, r', wire, nonce) := ⟨_, _, _, _, rfl⟩
    simp only [ht] at h
    split at h <;> (cases h; exact List.prefix_rfl)

theorem inv_run (htag : 0 < K.tagLen) {es : List Event} {s : Tampered}
    (h : (machine K key).run (machine K key).init es = some s) (hU : Unforged K key sessions s.arrived) :
    Inv K key sessions s := by
  refine Machine.run_inv (M := machine K key) (P := fun s => Unforged K key sessions s.arrived → Inv K key sessions s)
    ?_ (fun _ => inv_new K key sessions) h hU
  intro s e s' hi he hU
  have he : step K s e = some s' := he
  have hbefore := hU.mono (step_arrived he)
  cases e with
  | put bytes => exact (hi hbefore).put he
  | cut => exact (hi hbefore).cut he
  | read remaining polls => exact (hi hbefore).read htag hbefore he

/-- **Whatever is put on a connection, all that is given out is the beginning of what one peer wrote in one session**,
the one whose salt stands at the start; a clean end is seen only after whole chunks. -/
theorem run_opens (htag : 0 < K.tagLen) {es : List Event} {s : Tampered}
    (h : (machine K key).run (machine K key).init es = some s) (hU : Unforged K key sessions s.arrived) :
    s.received = [] ∨ ∃ chunks, sessions (s.arrived.take K.saltLen) = some chunks ∧ s.received <+: chunks.flatten ∧
      (s.ended = true → ∃ k, s.received = (chunks.take k).flatten) := by
  rcases (inv_run htag h hU).received with hnil | ⟨-, hsession⟩
  · exact Or.inl hnil
  · exact Or.inr hsession

/-- One session, in which a peer has written twice. -/
def oneSession (salt : Bytes) : Option (List Bytes) := if salt = [7] then some [[1, 2], [3]] else none

theorem oneSession_le (salt : Bytes) (chunks : List Bytes) (h : oneSession salt = some chunks) :
    ∀ x ∈ chunks, x.length ≤ MAX_PACKET_SIZE := by
  obtain ⟨-, h⟩ := Option.ite_none_right_eq_some.1 h
  cases h
  decide

/-- Its first chunk is let through, then the connection is cut. -/
def firstChunk : List Event :=
  [.put [7, 0, 2, 0, 1], .read 9 [.upTo 9], .read 9 [.upTo 9], .read 9 [.upTo 9], .put [2, 1], .cut,
    .read 9 [.upTo 9], .read 9 [], .read 9 [], .read 9 [.upTo 9]]

theorem run_opens_first_chunk :
    ∃ s, (machine (.opening oneSession) []).run (machine (.opening oneSession) []).init firstChunk = some s ∧
      s.ended = true ∧ s.received = [1, 2] ∧
      (s.received = [] ∨ ∃ chunks, oneSession (s.arrived.take 1) = some chunks ∧ s.received <+: chunks.flatten ∧
        (s.ended = true → ∃ k, s.received = (chunks.take k).flatten)) := by
  obtain ⟨s, hrun, hended, hreceived⟩ : ∃ s,
      (machine (.opening oneSession) []).run (machine (.opening oneSession) []).init firstChunk = some s ∧
        s.ended = true ∧ s.received = [1, 2] := ⟨_, rfl, rfl, rfl⟩
  exact ⟨s, hrun, hended, hreceived, run_opens Nat.one_pos hrun (unforged_opening oneSession_le)⟩

/-- **The filter against replays is only told of sessions**: whoever has no key cannot fill it, and one connection
adds at most one salt. -/
theorem run_nonces (htag : 0 < K.tagLen) {es : List Event} {s : Tampered}
    (h : (machine K key).run (machine K key).init es = some s) (hU : Unforged K key sessions s.arrived) :
    s.nonces.length ≤ 1 ∧ ∀ salt ∈ s.nonces, (sessions salt).isSome := by
  obtain ⟨hlen, hall⟩ := (inv_run htag h hU).nonces
  exact ⟨by omega, hall⟩

theorem run_nonces_first_chunk :
    ∃ s, (machine (.opening oneSession) []).run (machine (.opening oneSession) []).init firstChunk = some s ∧
      s.nonces = [[7]] ∧ s.nonces.length ≤ 1 ∧ ∀ salt ∈ s.nonces, (oneSession salt).isSome := by
  obtain ⟨s, hrun, hnonces⟩ : ∃ s,
      (machine (.opening oneSession) []).run (machine (.opening oneSession) []).init firstChunk = some s ∧
        s.nonces = [[7]] := ⟨_, rfl, rfl⟩
  exact ⟨s, hrun, hnonces, run_nonces Nat.one_pos hrun (unforged_opening oneSession_le)⟩

end Tampered

end Relay

end BlackButton
