import BlackButton.Relay.Channel

/-!
# An encrypted connection comes to its end

`run_fifo` says that nothing wrong is given out; here, that everything is.

* `Turned.owed_lt`, `Turned.waits_owed`: a turn of the reader that does not end the stream
  takes something from what is left to do.
* `Session.run_delivers`: **whatever has been written is given out**, and the end after it,
  however slowly the bytes arrive: it takes boundedly many turns that find something.
-/

namespace BlackButton

namespace Relay

variable {K : CipherKind} {key salt : Bytes}

/-! ## What is ready is taken -/

/-- The system fails only if it says so. -/
theorem pollReadExact_sound {size : ℕ} {polls : List Ready} (hpolls : Ready.failed ∉ polls) :
    ∀ {buffer buffer' : Bytes} {stream stream' : Inbound},
      pollReadExact size buffer stream polls ≠ (.error .other, buffer', stream') := by
  induction polls with
  | nil =>
    intro buffer buffer' stream stream' h
    rw [pollReadExact] at h
    by_cases hfull : size ≤ buffer.length
    · rw [if_pos hfull] at h
      cases h
    · rw [if_neg hfull] at h
      cases h
  | cons r rs ih =>
    intro buffer buffer' stream stream' h
    rw [List.mem_cons, not_or] at hpolls
    rw [pollReadExact] at h
    by_cases hfull : size ≤ buffer.length
    · rw [if_pos hfull] at h
      cases h
    rw [if_neg hfull] at h
    obtain ⟨q, s, hq⟩ : ∃ q s, stream.pollRead (size - buffer.length) r = (q, s) := ⟨_, _, rfl⟩
    have hroom : 0 < size - buffer.length := by omega
    have hne : q ≠ .error .other := by
      rintro rfl
      cases r with
      | pending => cases hq
      | failed => exact hpolls.1 rfl
      | upTo n =>
        rw [Inbound.pollRead] at hq
        split_ifs at hq <;> cases hq
    rw [hq] at h
    rcases pollRead_spec hroom hq with ⟨rfl, -⟩ | ⟨rfl, -⟩ | ⟨rfl, -⟩ | ⟨b, bs, rfl, -⟩
    · cases h
    · exact hne rfl
    · by_cases hnil : buffer ≠ []
      · simp only [if_pos hnil] at h
        cases h
      · simp only [if_neg hnil] at h
        cases h
    · exact ih hpolls.2 h

/-- Bytes that are there are taken. -/
theorem pollReadExact_moves {size n : ℕ} {polls : List Ready} {buffer buffer' : Bytes} {stream stream' : Inbound}
    (h : pollReadExact size buffer stream (.upTo n :: polls) = (.pending, buffer', stream')) :
    buffer.length < buffer'.length ∨ (buffer.length < size ∧ stream.bytes = [] ∧ stream.eof = false) := by
  rw [pollReadExact] at h
  by_cases hfull : size ≤ buffer.length
  · rw [if_pos hfull] at h
    cases h
  rw [if_neg hfull] at h
  have hroom : 0 < size - buffer.length := by omega
  obtain ⟨q, s, hq⟩ : ∃ q s, stream.pollRead (size - buffer.length) (.upTo n) = (q, s) := ⟨_, _, rfl⟩
  rw [hq] at h
  rcases pollRead_spec hroom hq with ⟨rfl, -⟩ | ⟨rfl, -⟩ | ⟨rfl, -⟩ | ⟨b, bs, rfl, -, -, hle⟩
  · refine Or.inr ⟨by omega, ?_⟩
    rw [Inbound.pollRead] at hq
    split_ifs at hq with hs he
    · cases hq
    · exact ⟨hs, by simpa using he⟩
    · cases hq
  · cases h
  · by_cases hnil : buffer ≠ []
    · simp only [if_pos hnil] at h
      cases h
    · simp only [if_neg hnil] at h
      cases h
  · have hlen : (buffer ++ b :: bs).length ≤ size := by
      rw [List.length_append]
      omega
    obtain ⟨got, rfl, -⟩ := pollReadExact_spec hlen h
    refine Or.inl ?_
    simp only [List.length_append, List.length_cons]
    omega

section Turn

variable {r r' : DecryptedReader} {remaining : ℕ} {stream stream' : Inbound} {polls : List Ready}
  {nonce : Option Bytes}

/-- A turn waits, or fails for the system, only where `poll_read_exact` does. -/
theorem turn_polled (hr : ∀ pos, r.state ≠ .bufferedData pos) {t : DecryptedReader.Turn}
    (h : r.turn K remaining stream polls = (t, r', stream', nonce)) :
    (t = .pending → pollReadExact (r.need K) r.buffer stream polls = (.pending, r'.buffer, stream')) ∧
      (t = .error (.io .other) → pollReadExact (r.need K) r.buffer stream polls = (.error .other, r'.buffer, stream')) := by
  obtain ⟨state, cipher, buffer, salt⟩ := r
  obtain ⟨p, b, s, hp⟩ : ∃ p b s, pollReadExact (DecryptedReader.need K ⟨state, cipher, buffer, salt⟩) buffer stream polls =
      (p, b, s) := ⟨_, _, _, rfl⟩
  simp only [hp]
  unfold DecryptedReader.turn at h
  cases state with
  | waitSalt key =>
    have hp : pollReadExact K.saltLen buffer stream polls = (p, b, s) := hp
    simp only [DecryptedReader.pollReadSalt, hp] at h
    cases p with
    | pending => cases h; exact ⟨fun _ => rfl, fun ht => (by cases ht)⟩
    | error e =>
      cases h
      refine ⟨fun ht => (by cases ht), fun he => ?_⟩
      cases he
      rfl
    | ok n =>
      by_cases hn : n < K.saltLen
      · simp only [if_pos hn] at h
        cases h
        exact ⟨fun ht => (by cases ht), fun ht => (by cases ht)⟩
      · simp only [if_neg hn] at h
        cases h
        exact ⟨fun ht => (by cases ht), fun ht => (by cases ht)⟩
  | readLength =>
    have hp : pollReadExact (2 + K.tagLen) buffer stream polls = (p, b, s) := hp
    simp only [DecryptedReader.pollReadLength, hp] at h
    cases p with
    | pending => cases h; exact ⟨fun _ => rfl, fun ht => (by cases ht)⟩
    | error e =>
      cases h
      refine ⟨fun ht => (by cases ht), fun he => ?_⟩
      cases he
      rfl
    | ok n =>
      by_cases hn : n = 0
      · simp only [if_pos hn] at h
        cases h
        exact ⟨fun ht => (by cases ht), fun ht => (by cases ht)⟩
      simp only [if_neg hn] at h
      cases cipher with
      | none =>
        cases h
        exact ⟨fun ht => (by cases ht), fun ht => (by cases ht)⟩
      | some c =>
        simp only [DecryptedReader.decryptLength] at h
        cases hm : c.decryptPacket K (b.take (2 + K.tagLen)) with
        | none =>
          simp only [hm] at h
          cases h
          exact ⟨fun ht => (by cases ht), fun ht => (by cases ht)⟩
        | some m =>
          simp only [hm] at h
          by_cases hgt : ofBigEndian (m.take 2) > MAX_PACKET_SIZE
          · simp only [if_pos hgt] at h
            cases h
            exact ⟨fun ht => (by cases ht), fun ht => (by cases ht)⟩
          · simp only [if_neg hgt] at h
            cases h
            exact ⟨fun ht => (by cases ht), fun ht => (by cases ht)⟩
  | readData size =>
    have hp : pollReadExact (size + K.tagLen) buffer stream polls = (p, b, s) := hp
    simp only [DecryptedReader.pollReadData, hp] at h
    cases p with
    | pending => cases h; exact ⟨fun _ => rfl, fun ht => (by cases ht)⟩
    | error e =>
      cases h
      refine ⟨fun ht => (by cases ht), fun he => ?_⟩
      cases he
      rfl
    | ok n =>
      by_cases hn : n = 0
      · simp only [if_pos hn] at h
        cases h
        exact ⟨fun ht => (by cases ht), fun ht => (by cases ht)⟩
      simp only [if_neg hn] at h
      cases cipher with
      | none =>
        cases h
        exact ⟨fun ht => (by cases ht), fun ht => (by cases ht)⟩
      | some c =>
        cases hm : c.decryptPacket K (b.take (size + K.tagLen)) with
        | none =>
          simp only [hm] at h
          cases h
          exact ⟨fun ht => (by cases ht), fun ht => (by cases ht)⟩
        | some m =>
          simp only [hm] at h
          cases h
          exact ⟨fun ht => (by cases ht), fun ht => (by cases ht)⟩
  | bufferedData pos => exact absurd rfl (hr pos)

/-! ## What is left to do -/

/-- What a reader has still to do with what it holds. -/
def DecryptedReader.owed (r : DecryptedReader) : ℕ :=
  match r.state with
  | .bufferedData pos => 2 * (r.buffer.length - pos) + 1
  | _ => 4 * r.buffer.length

theorem owed_of_not_buffered (hr : ∀ pos, r.state ≠ .bufferedData pos) : r.owed = 4 * r.buffer.length := by
  unfold DecryptedReader.owed
  split
  · exact absurd ‹_› (hr _)
  · rfl

/-- A turn that waits has only collected. -/
theorem Turned.owed_waits {b : Bytes} (h : Turned K r remaining b stream' .pending r' nonce) :
    r'.buffer = b ∧ r'.state = r.state ∧ ∀ pos, r.state ≠ .bufferedData pos := by
  cases h with
  | waits hr => exact ⟨rfl, rfl, hr⟩

theorem Turned.collects_failed {b : Bytes} (h : Turned K r remaining b stream' (.error (.io .other)) r' nonce) :
    ∀ pos, r.state ≠ .bufferedData pos := by
  cases h with
  | failed hr => exact hr

/-- **A turn that goes on or gives something out** leaves less to do, with what it has taken counted in. -/
theorem Turned.owed_lt {got : Bytes} {t : DecryptedReader.Turn} (htag : 0 < K.tagLen) (hr : r.WellFormed K)
    (hlen : (r.buffer ++ got).length ≤ r.need K) (hrem : 0 < remaining)
    (h : Turned K r remaining (r.buffer ++ got) stream' t r' nonce)
    (ht : t = .again ∨ ∃ b bs, t = .ok (b :: bs)) : r'.owed < r.owed + 4 * got.length := by
  have hcollects (hstate : ∀ pos, r.state ≠ .bufferedData pos) :
      r.owed + 4 * got.length = 4 * (r.buffer ++ got).length := by
    rw [owed_of_not_buffered hstate, List.length_append]
    omega
  cases h with
  | waits => simp at ht
  | failed => simp at ht
  | cut => simp at ht
  | finished => simp at ht
  | badLength => simp at ht
  | tooLarge => simp at ht
  | badData => simp at ht
  | salt key hstate hb =>
    have hpos := hr.salt_pos key hstate
    rw [hcollects (by simp [hstate]), hb]
    show 4 * 0 < 4 * K.saltLen
    omega
  | length c m hstate hc hb =>
    rw [hcollects (by simp [hstate]), hb]
    show 4 * 0 < 4 * (2 + K.tagLen)
    omega
  | data size c m hstate hc hb =>
    rw [hcollects (by simp [hstate]), hb]
    have hle : (m.take size).length ≤ size := by
      rw [List.length_take]
      omega
    show 2 * ((m.take size).length - 0) + 1 < 4 * (size + K.tagLen)
    omega
  | buffered pos hstate hb hlt =>
    have hgot : got = [] := List.append_right_eq_self.1 hb
    subst hgot
    rw [List.append_nil] at hlt ⊢
    have howed : r.owed = 2 * (r.buffer.length - pos) + 1 := by
      unfold DecryptedReader.owed
      rw [hstate]
    rw [howed]
    show 2 * (r.buffer.length - (pos + min (r.buffer.drop pos).length remaining)) + 1 < _
    rw [List.length_drop]
    omega
  | drained pos hstate hb hle =>
    have howed : r.owed = 2 * (r.buffer.length - pos) + 1 := by
      unfold DecryptedReader.owed
      rw [hstate]
    rw [howed]
    show 4 * 0 < _
    omega

end Turn

/-- A reader that has nothing more to come, and waits all the same, has given everything out. -/
theorem Follows.received_all (hK : K.Lawful) (hsalt : salt.length = K.saltLen) {chunks : List Bytes} {received : Bytes}
    {r : DecryptedReader} (h : Follows K key salt chunks [] r received) (hr : ∀ pos, r.state ≠ .bufferedData pos)
    (hlt : r.buffer.length < r.need K) : received = chunks.flatten := by
  cases h with
  | waitSalt buffer h =>
    have hlen := congrArg List.length h
    have hlt : buffer.length < K.saltLen := hlt
    simp only [List.append_nil, List.length_append] at hlen
    omega
  | readLength pre post buffer s hc h =>
    have hlt : buffer.length < 2 + K.tagLen := hlt
    have hpost : post = [] := by
      by_contra hne
      have hle := length_le_sealChunks hK (c := cipherAt key salt pre.length) hne
      rw [← h, List.append_nil] at hle
      omega
    rw [hc, hpost, List.append_nil]
  | readData pre x post buffer s hc h =>
    have hlen := congrArg List.length h
    have hlt : buffer.length < x.length + K.tagLen := hlt
    rw [List.append_nil, List.length_append, length_encrypt hK] at hlen
    omega
  | bufferedData pre x post pos => exact absurd rfl (hr pos)

namespace Session

/-- What is left to do until all that has arrived is given out. -/
def rank (s : Session) : ℕ := 5 * s.channel.wire.bytes.length + s.channel.reader.owed

/-- A turn of the reader that has room, while the system does not fail. -/
def Event.Sound : Event → Prop
  | .read remaining polls => 0 < remaining ∧ Ready.failed ∉ polls
  | _ => False

/-- A turn that finds the connection ready. -/
def Event.moves : Event → Bool
  | .read _ (.upTo _ :: _) => true
  | _ => false

/-- Everything that has been written is in the connection. -/
structure Draining (K : CipherKind) (key salt : Bytes) (w : Bytes) (closed : Bool) (s : Session) : Prop where
  inv : ∃ lost chunks, Inv K key salt s lost chunks
  eof : s.channel.wire.eof = closed
  broken : s.broken = false
  held : s.held = none
  taken : s.taken = w
  ended : s.ended = false
  failed : s.failed = none

/-- Everything that has been written is given out, and the end if there is one. -/
def Drained (w : Bytes) (closed : Bool) (s : Session) : Prop := s.received = w ∧ (closed = true → s.ended = true)

/-- The turn in a step of the reader. -/
theorem turn_of_read {s s' : Session} {remaining : ℕ} {polls : List Ready} {t : DecryptedReader.Turn}
    (h : s.read K remaining polls = (t, s')) : ∃ nonce,
      s.channel.reader.turn K remaining s.channel.wire polls = (t, s'.channel.reader, s'.channel.wire, nonce) := by
  obtain ⟨u, reader, wire, nonce, hu⟩ : ∃ u reader wire nonce,
      s.channel.reader.turn K remaining s.channel.wire polls = (u, reader, wire, nonce) := ⟨_, _, _, _, rfl⟩
  unfold read Channel.pollRead at h
  rw [hu] at h ⊢
  cases u with
  | ok filled => cases filled <;> (cases h; exact ⟨nonce, rfl⟩)
  | _ => cases h; exact ⟨nonce, rfl⟩

variable {w : Bytes} {closed : Bool} {s s' : Session} {remaining : ℕ} {polls : List Ready}

/-- **A turn of the reader** that does not give out the last of it leaves less to do. -/
theorem Draining.read (hK : K.Lawful) (hsalt : salt.length = K.saltLen) (hw : closed = true → w ≠ [])
    (h : Draining K key salt w closed s) (hrem : 0 < remaining) (hpolls : Ready.failed ∉ polls)
    {t : DecryptedReader.Turn} (hread : s.read K remaining polls = (t, s')) :
    Drained w closed s' ∨ (Draining K key salt w closed s' ∧ s'.rank ≤ s.rank ∧
      (∀ n rest, polls = .upTo n :: rest → ¬Drained w closed s → s'.rank < s.rank)) := by
  obtain ⟨lost, chunks, hinv⟩ := h.inv
  obtain ⟨hinv', htook, -⟩ := hinv.read hK hsalt hrem h.ended h.failed hread
  obtain ⟨nonce, hturn⟩ := turn_of_read hread
  obtain ⟨got, hbytes, -, hlen, hturned⟩ := turn_spec hK.tag_pos hinv.carries.reader hturn
  have hwire : s.channel.wire.bytes.length = got.length + s'.channel.wire.bytes.length := by
    rw [hbytes, List.length_append]
  have hdraining (hended : s'.ended = false) (hfailed : s'.failed = none) : Draining K key salt w closed s' :=
    ⟨⟨lost, chunks, hinv'⟩, htook.eof.trans h.eof, htook.broken.trans h.broken, htook.held.trans h.held,
      htook.taken.trans h.taken, hended, hfailed⟩
  have hgoes (hended : s'.ended = false) (hfailed : s'.failed = none) (ht : t = .again ∨ ∃ b bs, t = .ok (b :: bs)) :
      Draining K key salt w closed s' ∧ s'.rank ≤ s.rank ∧
        (∀ n rest, polls = .upTo n :: rest → ¬Drained w closed s → s'.rank < s.rank) := by
    have howed := hturned.owed_lt hK.tag_pos hinv.carries.reader hlen hrem ht
    have hlt : s'.rank < s.rank := by
      unfold rank
      omega
    exact ⟨hdraining hended hfailed, by omega, fun _ _ _ _ => hlt⟩
  rcases htook.answer with ⟨b, bs, rfl, -, hended, hfailed⟩ | ⟨rfl, -, hended, -⟩ | ⟨e, rfl, -, -, hfailed⟩ |
    ⟨rfl | rfl, -, hended, hfailed⟩
  · exact Or.inr (hgoes hended hfailed (Or.inr ⟨b, bs, rfl⟩))
  · obtain ⟨-, hall⟩ := hinv'.ended hended
    have hreceived := hall (htook.broken.trans h.broken)
    exact Or.inl ⟨hreceived.trans (htook.taken.trans h.taken), fun _ => hended⟩
  · exfalso
    rcases hinv'.failed e hfailed with rfl | ⟨rfl, heof, hchunks⟩
    · exact pollReadExact_sound hpolls ((turn_polled hturned.collects_failed hturn).2 rfl)
    · have hnil := hinv'.flatten
      rw [hchunks (htook.broken.trans h.broken)] at hnil
      have htaken := (List.append_eq_nil_iff.1 hnil.symm).1
      rw [htook.taken.trans h.taken] at htaken
      exact hw ((h.eof.symm.trans htook.eof.symm).trans heof) htaken
  · exact Or.inr (hgoes hended hfailed (Or.inl rfl))
  · obtain ⟨hbuffer, hstate, hcollects⟩ := hturned.owed_waits
    have howed : s'.channel.reader.owed = s.channel.reader.owed + 4 * got.length := by
      rw [owed_of_not_buffered hcollects, owed_of_not_buffered (by rw [hstate]; exact hcollects), hbuffer,
        List.length_append]
      omega
    refine Or.inr ⟨hdraining hended hfailed, ?_, ?_⟩
    · unfold rank
      omega
    rintro n rest rfl hnot
    have hpolled := (turn_polled hcollects hturn).1 rfl
    rcases pollReadExact_moves hpolled with hmore | ⟨hlt, hempty, hopen⟩
    · rw [hbuffer, List.length_append] at hmore
      unfold rank
      omega
    -- nothing is left in an open connection: all has been given out
    refine absurd ⟨?_, ?_⟩ hnot
    · have hunder : s.underway = [] := by
        unfold underway
        rw [h.held]
        rfl
      have hflat : chunks.flatten = w := by rw [hinv.flatten, hunder, List.append_nil, h.taken]
      by_cases hne : chunks = []
      · have hpre := hinv.carries.follows.beginning
        rw [hflat.symm, hne]
        rw [hne] at hpre
        exact List.prefix_nil.1 hpre
      · have hfollows := hinv.carries.follows
        rw [hinv.coming_nil hempty h.held h.broken hne] at hfollows
        exact (hfollows.received_all hK hsalt hcollects hlt).trans hflat
    · intro hc
      rw [← h.eof, hopen] at hc
      cases hc

/-- **All that is written arrives**: once the writer's calls have finished, turns of the reader that find the
connection ready give out everything, and then the end if the writer has shut the connection down; it takes no more
of them than `rank` says, however the others that find nothing are mixed in. -/
theorem run_delivers (hK : K.Lawful) (hsalt : salt.length = K.saltLen) {es rs : List Event} {s : Session}
    (h : (machine K key salt).run (machine K key salt).init es = some s) (hheld : s.held = none)
    (hbroken : s.broken = false) (hended : s.ended = false) (hfailed : s.failed = none)
    (hclosed : s.channel.wire.eof = true → s.taken ≠ []) (hrs : ∀ r ∈ rs, r.Sound)
    (hmoves : s.rank < rs.countP Event.moves) :
    ∃ k s', (machine K key salt).run s (rs.take k) = some s' ∧ s'.received = s.taken ∧
      (s.channel.wire.eof = true → s'.ended = true) := by
  have href : (machine K key salt).Refines (Fifo.machine UInt8) Machine.anyStep
      (fun s => ∃ lost chunks, Inv K key salt s lost chunks) fifo := refines_fifo hK hsalt
  have hinv := (href.run href.init_inv (Machine.meetsFrom_anyStep es _) h).1
  have hdraining : Draining K key salt s.taken s.channel.wire.eof s :=
    ⟨hinv, rfl, hbroken, hheld, rfl, hended, hfailed⟩
  refine Machine.run_until (Q := Drained s.taken s.channel.wire.eof) Event.Sound rank Event.moves ?_ hdraining hrs hmoves
  intro s₁ e hs₁ hnot he
  cases e with
  | write buf polls => exact he.elim
  | shutdown => exact he.elim
  | cut n => exact he.elim
  | read remaining polls =>
    obtain ⟨hrem, hpolls⟩ := he
    refine ⟨_, if_pos ⟨hrem, hs₁.ended, hs₁.failed⟩, ?_⟩
    rcases hs₁.read hK hsalt hclosed hrem hpolls (Prod.eta _).symm with hdrained | ⟨hdraining', hle, hlt⟩
    · exact Or.inl hdrained
    refine Or.inr ⟨hdraining', hle, fun hmove => ?_⟩
    unfold Event.moves at hmove
    split at hmove
    · rename_i heq
      cases heq
      exact hlt _ _ rfl hnot
    · cases hmove

/-- Two bytes on their way, and the end behind them. -/
def underWay : List Event := [.write [1, 2] [.upTo 20], .read 9 [.pending], .shutdown]

theorem run_delivers_two_bytes :
    ∃ s k s', (machine .marking [] [7]).run (machine .marking [] [7]).init underWay = some s ∧ s.received = [] ∧
      (machine .marking [] [7]).run s ((List.replicate 40 (.read 9 [.upTo 1])).take k) = some s' ∧
      s'.received = [1, 2] ∧ s'.ended = true := by
  obtain ⟨s, hrun, hheld, hbroken, hended, hfailed, htaken, heof, hreceived, hrank⟩ : ∃ s,
      (machine .marking [] [7]).run (machine .marking [] [7]).init underWay = some s ∧ s.held = none ∧
        s.broken = false ∧ s.ended = false ∧ s.failed = none ∧ s.taken = [1, 2] ∧ s.channel.wire.eof = true ∧
        s.received = [] ∧ s.rank = 35 := ⟨_, rfl, rfl, rfl, rfl, rfl, rfl, rfl, rfl, rfl⟩
  have hrs : ∀ r ∈ List.replicate 40 (Event.read 9 [.upTo 1]), r.Sound := by
    intro r hr
    rw [List.eq_of_mem_replicate hr]
    exact ⟨by decide, by decide⟩
  have hmoves : s.rank < (List.replicate 40 (Event.read 9 [.upTo 1])).countP Event.moves := by
    rw [hrank]
    decide
  obtain ⟨k, s', hk, hall, hlast⟩ := run_delivers CipherKind.marking_lawful rfl hrun hheld hbroken hended hfailed
    (fun _ => by rw [htaken]; decide) hrs hmoves
  exact ⟨s, k, s', hrun, hreceived, hk, hall.trans htaken, hlast heof⟩

end Session

end Relay

end BlackButton
