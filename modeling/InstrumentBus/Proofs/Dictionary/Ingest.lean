import InstrumentBus.Proofs.Dictionary.Reachable

/-!
# Taking datagrams in

The grammar of datagrams as a dictionary sees it: which bytes name a signal, which of
them hold a whole datagram, and which of those carry the right checksum. What becomes
of the bytes is the verdict of the first of these that fails, else that of the record.
-/

namespace InstrumentBus
namespace Dictionary

open Wire Signal

/-- The bytes start with a header of a signal that is registered. -/
structure Names (d : Dictionary) (bytes : List UInt8) (r : Record) : Prop where
  header : headerSize ≤ bytes.length
  record : d.record? (Header.ofBytes bytes).identity = some r

/-- The bytes start with a datagram that is there in full with its trailer. -/
structure Delivers (d : Dictionary) (bytes : List UInt8) (r : Record) : Prop
    extends Names d bytes r where
  complete : d.sizeOf r ≤ bytes.length

/-- The checksum behind the datagram, if there must be one, is that of its bytes. -/
structure Intact (d : Dictionary) (bytes : List UInt8) (r : Record) : Prop
    extends Delivers d bytes r where
  genuine : ∀ checksum, d.config.integrity = some checksum →
    checksum (bytes.take r.packetSize) = halfAt bytes r.packetSize

/-- What the bytes at a reader come to at a local time. -/
inductive Verdict (d : Dictionary) (now : UInt32) (bytes : List UInt8) :
    Except Error Outcome → Prop where
  /-- One of the fields of a single byte is cut off. -/
  | cut (h : bytes.length < 4) : Verdict d now bytes (.error (.underrun 1 0))
  /-- The timestamp is cut off. -/
  | cutStamp (hle : 4 ≤ bytes.length) (h : bytes.length < headerSize) :
      Verdict d now bytes (.error (.underrun 4 (bytes.length - 4)))
  | unknown (hle : headerSize ≤ bytes.length)
      (h : d.record? (Header.ofBytes bytes).identity = none) :
      Verdict d now bytes (.error (.unknownIdentity (Header.ofBytes bytes).identity))
  | short {r : Record} (hr : Names d bytes r) (h : bytes.length < d.sizeOf r) :
      Verdict d now bytes (.error (.underrun (d.sizeOf r) bytes.length))
  | broken {r : Record} {checksum : Integrity} (hr : Delivers d bytes r)
      (hc : d.config.integrity = some checksum)
      (h : checksum (bytes.take r.packetSize) ≠ halfAt bytes r.packetSize) :
      Verdict d now bytes (.error (.integrityMismatch (checksum (bytes.take r.packetSize))
        (halfAt bytes r.packetSize)))
  | outgoing {r : Record} (hr : Intact d bytes r) (h : r.mode = .transmit) :
      Verdict d now bytes (.error (.wrongMode (Header.ofBytes bytes).identity .transmit))
  | misannounced {r : Record} {length : Nat} (hr : Intact d bytes r) (hm : r.mode = .receive)
      (hk : r.payload.kind = .buffer length) (h : (wordAt bytes headerSize).toNat ≠ length) :
      Verdict d now bytes
        (.error (.signal (.sizeMismatch length (wordAt bytes headerSize).toNat)))
  | offered {r : Record} (hr : Intact d bytes r) (hm : r.mode = .receive)
      (ha : r.payload.kind.Announced (bytes.drop headerSize)) :
      Verdict d now bytes
        (.ok (if r.accepts (Header.ofBytes bytes) now then .accepted else .rejected))

variable {d : Dictionary} {r : Record} {reader : Reader} {bytes : List UInt8}

theorem Names.identity_eq (h : Names d bytes r) :
    (Header.ofBytes bytes).identity = r.identity := (identity_of_record? h.record).symm

theorem Delivers.room (h : Delivers d reader.remaining r) (hd : d.WellFormed) :
    headerSize + r.payload.kind.extent + d.config.trailerSize ≤ reader.available := by
  have hle := h.complete
  rwa [sizeOf, (hd.of_record? h.record).packetSize_eq, reader.length_remaining] at hle

section Checks

theorem peek_of_le (h : headerSize ≤ reader.available) :
    Header.peek reader = .ok (Header.ofBytes reader.remaining) := by
  rw [Header.peek, Header.read_of_le h]
  rfl

theorem Names.peek_eq (h : Names d reader.remaining r) :
    Header.peek reader = .ok (Header.ofBytes reader.remaining) := by
  apply peek_of_le
  rw [← reader.length_remaining]
  exact h.header

theorem Delivers.not_short (h : Delivers d reader.remaining r) :
    ¬ reader.available < d.sizeOf r := by
  rw [← reader.length_remaining]
  exact Nat.not_lt.2 h.complete

theorem verify_of_some {checksum : Integrity} {packet : Nat}
    (hc : d.config.integrity = some checksum) (h : packet + 2 ≤ bytes.length) :
    d.verify packet bytes =
      if checksum (bytes.take packet) = halfAt bytes packet then .ok ()
      else .error (.integrityMismatch (checksum (bytes.take packet)) (halfAt bytes packet)) := by
  have hbody : packet ≤ bytes.length := by omega
  have htail : 2 ≤ bytes.length - packet := by omega
  simp [verify, hc, Reader.bytes, Reader.half_eq, Reader.available_advance,
    Reader.remaining_advance, hbody, htail, halfAt_drop]

theorem trailerSize_of_some {checksum : Integrity} (hc : d.config.integrity = some checksum) :
    d.config.trailerSize = 2 := by
  simp [Config.trailerSize, hc, Integrity.size]

theorem Intact.verify_eq (h : Intact d bytes r) : d.verify r.packetSize bytes = .ok () := by
  cases hc : d.config.integrity with
  | none => simp [verify, hc]
  | some checksum =>
    have hle := h.complete
    rw [sizeOf, trailerSize_of_some hc] at hle
    rw [verify_of_some hc hle, if_pos (h.genuine checksum hc)]

theorem skipTrailer_of_le (h : d.config.trailerSize ≤ reader.available) :
    d.skipTrailer reader = .ok (reader.advance d.config.trailerSize) := by
  cases hc : d.config.integrity with
  | none => simp [skipTrailer, hc, Config.trailerSize, Reader.advance]
  | some checksum =>
    rw [trailerSize_of_some hc] at h ⊢
    simp [skipTrailer, hc, Reader.half_eq, h, Except.map]

end Checks

section Exits

variable (now : UInt32)

theorem ingest_of_cut (h : reader.available < headerSize) :
    d.ingest now reader =
      (.error (if reader.available < 4 then .underrun 1 0
        else .underrun 4 (reader.available - 4)), d, reader) := by
  have hp : Header.peek reader = .error _ := congrArg (Except.map _) (Header.read_of_lt h)
  by_cases h4 : reader.available < 4
  · rw [if_pos h4] at hp ⊢
    simp [ingest, hp, Error.ofSignal]
  · rw [if_neg h4] at hp ⊢
    simp [ingest, hp, Error.ofSignal]

theorem ingest_of_unknown (hle : headerSize ≤ reader.available)
    (h : d.record? (Header.ofBytes reader.remaining).identity = none) :
    d.ingest now reader =
      (.error (.unknownIdentity (Header.ofBytes reader.remaining).identity), d, reader) := by
  simp [ingest, peek_of_le hle, record, h]

theorem ingest_of_short (hr : Names d reader.remaining r) (h : reader.available < d.sizeOf r) :
    d.ingest now reader =
      (.error (.underrun (d.sizeOf r) reader.available), d, reader) := by
  simp [ingest, hr.peek_eq, record, hr.record, h]

theorem ingest_of_broken {checksum : Integrity} (hr : Delivers d reader.remaining r)
    (hc : d.config.integrity = some checksum)
    (h : checksum (reader.remaining.take r.packetSize) ≠
      halfAt reader.remaining r.packetSize) :
    d.ingest now reader =
      (.error (.integrityMismatch (checksum (reader.remaining.take r.packetSize))
        (halfAt reader.remaining r.packetSize)), d, reader) := by
  have hroom := hr.complete
  rw [sizeOf, trailerSize_of_some hc] at hroom
  simp [ingest, hr.peek_eq, record, hr.record, hr.not_short, verify_of_some hc hroom, h]

theorem ingest_of_receive_error {r' : Record} {probe : Reader} {e : Signal.Error}
    (hr : Intact d reader.remaining r) (hreceive : r.receive reader now = (.error e, r', probe)) :
    d.ingest now reader = (.error (.ofSignal e), d.replace r', reader) := by
  simp only [ingest, hr.peek_eq, record, hr.record, hr.not_short, hr.verify_eq, if_false, hreceive]

theorem ingest_of_receive_ok {r' : Record} {probe after : Reader} {outcome : Outcome}
    (hr : Intact d reader.remaining r)
    (hreceive : r.receive reader now = (.ok outcome, r', probe))
    (hskip : d.skipTrailer probe = .ok after) :
    d.ingest now reader = (.ok outcome, d.replace r', after) := by
  simp only [ingest, hr.peek_eq, record, hr.record, hr.not_short, hr.verify_eq, if_false,
    hreceive, hskip]

theorem ingest_of_outgoing (hd : d.WellFormed) (hr : Intact d reader.remaining r)
    (hm : r.mode = .transmit) :
    d.ingest now reader =
      (.error (.wrongMode (Header.ofBytes reader.remaining).identity .transmit), d, reader) := by
  rw [ingest_of_receive_error now hr (Record.receive_of_transmit hm reader now), hr.identity_eq]
  exact congrArg (_, ·, reader) (hd.replace_self hr.record)

theorem ingest_of_misannounced {length : Nat} (hd : d.WellFormed)
    (hr : Intact d reader.remaining r) (hm : r.mode = .receive)
    (hk : r.payload.kind = .buffer length)
    (h : (wordAt reader.remaining headerSize).toNat ≠ length) :
    d.ingest now reader =
      (.error (.signal (.sizeMismatch length (wordAt reader.remaining headerSize).toNat)), d,
        reader) := by
  have hle := hr.room hd
  rw [hk, Kind.extent] at hle
  have hdecode := Record.decode_of_not_announced (r := r) (by omega) hr.identity_eq hk h
  rw [ingest_of_receive_error now hr (Record.receive_of_decode_error hm hdecode now)]
  exact congrArg (_, ·, reader) (hd.replace_self hr.record)

theorem ingest_of_offered (hd : d.WellFormed) (hr : Intact d reader.remaining r)
    (hm : r.mode = .receive)
    (ha : r.payload.kind.Announced (reader.remaining.drop headerSize)) :
    d.ingest now reader =
      (.ok (r.offer (Header.ofBytes reader.remaining)
          (Payload.ofBytes r.payload.kind (reader.remaining.drop headerSize)) now).1,
        d.replace (r.offer (Header.ofBytes reader.remaining)
          (Payload.ofBytes r.payload.kind (reader.remaining.drop headerSize)) now).2,
        reader.advance (d.sizeOf r)) := by
  have hle := hr.room hd
  have hsize : d.sizeOf r = headerSize + r.payload.kind.extent + d.config.trailerSize := by
    rw [sizeOf, (hd.of_record? hr.record).packetSize_eq]
  have hdecode : r.decode reader = .ok _ :=
    Record.decode_eq_ok_iff.2 ⟨by omega, hr.identity_eq, ha, rfl⟩
  have hskip : d.skipTrailer (reader.advance (headerSize + r.payload.kind.extent)) = .ok _ :=
    skipTrailer_of_le (by rw [Reader.available_advance]; omega)
  rw [ingest_of_receive_ok now hr (Record.receive_of_decode hm hdecode now) hskip,
    Reader.advance_advance, ← hsize]

/-- All that can come of the bytes at a reader: a fault that changes nothing, or an offer
to the record they name. -/
theorem ingest_exits (hd : d.WellFormed) (reader : Reader) :
    (∃ e, Verdict d now reader.remaining (.error e) ∧
      d.ingest now reader = (.error e, d, reader)) ∨
    ∃ r, Intact d reader.remaining r ∧ r.mode = .receive ∧
      r.payload.kind.Announced (reader.remaining.drop headerSize) := by
  have hl := reader.length_remaining
  by_cases hle : headerSize ≤ reader.available
  case neg =>
    refine Or.inl ⟨_, ?_, ingest_of_cut now (Nat.lt_of_not_le hle)⟩
    split
    · next h4 => exact .cut (by omega)
    · next h4 => exact hl ▸ .cutStamp (by omega) (by omega)
  cases hr : d.record? (Header.ofBytes reader.remaining).identity with
  | none => exact Or.inl ⟨_, .unknown (by omega) hr, ingest_of_unknown now hle hr⟩
  | some r =>
    have hnames : Names d reader.remaining r := ⟨by omega, hr⟩
    by_cases hfull : d.sizeOf r ≤ reader.available
    case neg =>
      have hlt : reader.available < d.sizeOf r := Nat.lt_of_not_le hfull
      exact Or.inl ⟨_, hl ▸ .short hnames (by omega), ingest_of_short now hnames hlt⟩
    have hdelivers : Delivers d reader.remaining r := ⟨hnames, by omega⟩
    by_cases hgenuine : ∀ checksum, d.config.integrity = some checksum →
        checksum (reader.remaining.take r.packetSize) = halfAt reader.remaining r.packetSize
    case neg =>
      obtain ⟨checksum, hbroken⟩ := Classical.not_forall.1 hgenuine
      obtain ⟨hc, hne⟩ := Classical.not_imp.1 hbroken
      exact Or.inl ⟨_, .broken hdelivers hc hne, ingest_of_broken now hdelivers hc hne⟩
    have hintact : Intact d reader.remaining r := ⟨hdelivers, hgenuine⟩
    cases hm : r.mode with
    | transmit => exact Or.inl ⟨_, .outgoing hintact hm, ingest_of_outgoing now hd hintact hm⟩
    | receive =>
      by_cases ha : r.payload.kind.Announced (reader.remaining.drop headerSize)
      · exact Or.inr ⟨r, hintact, hm, ha⟩
      · obtain ⟨length, hk, hne⟩ := Kind.buffer_of_not_announced ha
        rw [wordAt_drop] at hne
        exact Or.inl ⟨_, .misannounced hintact hm hk hne,
          ingest_of_misannounced now hd hintact hm hk hne⟩

theorem Verdict.ingest_eq {now : UInt32} {e : Error} (hd : d.WellFormed)
    (hv : Verdict d now reader.remaining (.error e)) :
    d.ingest now reader = (.error e, d, reader) := by
  have hl := reader.length_remaining
  cases hv with
  | cut h =>
    have h4 : reader.available < 4 := by omega
    rw [ingest_of_cut now (Nat.lt_trans h4 (by decide)), if_pos h4]
  | cutStamp hle h => rw [ingest_of_cut now (by omega), if_neg (by omega), hl]
  | unknown hle h => exact ingest_of_unknown now (by omega) h
  | short hr h => rw [ingest_of_short now hr (by omega), hl]
  | broken hr hc h => exact ingest_of_broken now hr hc h
  | outgoing hr h => exact ingest_of_outgoing now hd hr h
  | misannounced hr hm hk h => exact ingest_of_misannounced now hd hr hm hk h

end Exits

/-- A datagram is taken in as a whole or not at all. A fault leaves the dictionary and the
reader as they are; otherwise the reader moves behind the datagram, and at most the record
it names has changed, in its header, payload and time of update together. -/
theorem ingest_atomic {d : Dictionary} (hd : d.Reachable) (now : UInt32) (reader : Reader) :
    (∀ e d' after, d.ingest now reader = (.error e, d', after) → d' = d ∧ after = reader) ∧
    ∀ outcome d' after, d.ingest now reader = (.ok outcome, d', after) →
      ∃ r, d.record? (Header.ofBytes reader.remaining).identity = some r ∧
        d.datagramSize (Header.ofBytes reader.remaining).identity =
          .ok (headerSize + r.payload.size + d.config.trailerSize) ∧
        headerSize + r.payload.size + d.config.trailerSize ≤ reader.available ∧
        after = reader.advance (headerSize + r.payload.size + d.config.trailerSize) ∧
        (outcome = .rejected → d' = d) ∧
        (outcome = .accepted → d'.config = d.config ∧ d'.identities = d.identities ∧
          d'.record? (Header.ofBytes reader.remaining).identity =
            some { r with
              header := Header.ofBytes reader.remaining
              payload := Payload.ofBytes r.payload.kind (reader.remaining.drop headerSize)
              updated := now } ∧
          ∀ i, i ≠ (Header.ofBytes reader.remaining).identity → d'.record? i = d.record? i) := by
  have hwf := hd.wellFormed
  rcases ingest_exits now hwf reader with ⟨e, -, he⟩ | ⟨r, hr, hm, ha⟩
  · rw [he]
    refine ⟨?_, ?_⟩
    · rintro _ _ _ ⟨⟩
      exact ⟨rfl, rfl⟩
    · rintro _ _ _ ⟨⟩
  · rw [ingest_of_offered now hwf hr hm ha]
    refine ⟨?_, ?_⟩
    · rintro _ _ _ ⟨⟩
    · rintro _ _ _ ⟨⟩
      refine ⟨r, hr.record, ?_, ?_, rfl, ?_, ?_⟩
      · rw [datagramSize, record_eq_ok_iff.2 hr.record]
        rfl
      · exact reader.length_remaining ▸ hr.complete
      · intro hrejected
        rw [Record.offer_of_rejected hrejected]
        exact hwf.replace_self hr.record
      · intro haccepted
        rw [Record.offer_of_accepted haccepted]
        refine ⟨config_replace _ _, identities_replace _ _, ?_, ?_⟩
        · exact record?_replace_self hr.record hr.identity_eq.symm
        · intro i hi
          exact record?_replace_of_ne (hr.identity_eq ▸ hi)

/-- A node that seals datagrams with the sum of their bytes, and receives an integer signal
and a buffer of two bytes. -/
def sampleDictionary : Dictionary :=
  ⟨⟨7, ⟨0x90⟩, some Integrity.sum⟩,
    [⟨⟨⟨10, 20⟩, 1000⟩, .receive, Header.silent ⟨10, 20⟩, .integer 0, 0⟩,
      ⟨⟨⟨10, 21⟩, 1000⟩, .receive, Header.silent ⟨10, 21⟩, .buffer [0, 0], 0⟩]⟩

theorem sampleDictionary_reachable : sampleDictionary.Reachable := by
  have hnew := Builder.Reachable.new ⟨7, ⟨0x90⟩, some Integrity.sum⟩
  have hfirst := hnew.register (rfl : Builder.register _ ⟨⟨10, 20⟩, 1000⟩ .integer .receive = _)
  have hboth := hfirst.register
    (rfl : Builder.register _ ⟨⟨10, 21⟩, 1000⟩ (.buffer 2) .receive = _)
  exact .build hboth

def sampleSealed (datagram : List UInt8) : List UInt8 :=
  datagram ++ halfBytes (Integrity.sum datagram)

theorem sampleDictionary_accepts :
    sampleDictionary.Reachable ∧
    ∃ d' after, sampleDictionary.ingest 5 (Reader.ofBytes (sampleSealed
        (sampleDatagram 3 0x85 100 42))) = (.ok .accepted, d', after) ∧
      after.position = 14 ∧ d'.record? ⟨10, 21⟩ = sampleDictionary.record? ⟨10, 21⟩ ∧
      d'.record? ⟨10, 20⟩ = some ⟨⟨⟨10, 20⟩, 1000⟩, .receive, ⟨3, ⟨0x85⟩, ⟨10, 20⟩, 100⟩,
        .integer 42, 5⟩ := by
  have hout : sampleDictionary.ingest 5 (Reader.ofBytes (sampleSealed
      (sampleDatagram 3 0x85 100 42))) = (.ok .accepted, _, _) := rfl
  obtain ⟨r, hr, -, -, hafter, -, hchange⟩ :=
    (ingest_atomic sampleDictionary_reachable 5 _).2 _ _ _ hout
  obtain ⟨-, -, hself, hother⟩ := hchange rfl
  cases hr
  exact ⟨sampleDictionary_reachable, _, _, hout, congrArg Reader.position hafter,
    hother _ (by decide), hself⟩

/-- The verdict on the bytes at a reader is the result of taking them in, and it is one of
five faults or the decision of the arbitration rule. -/
theorem ingest_grammar {d : Dictionary} (hd : d.Reachable) (now : UInt32) (reader : Reader) :
    (∀ result, (d.ingest now reader).1 = result ↔ Verdict d now reader.remaining result) ∧
    ∀ e, (d.ingest now reader).1 = .error e →
      (∃ needed available, e = .underrun needed available) ∨
      (∃ identity, e = .unknownIdentity identity) ∨
      (∃ computed received, e = .integrityMismatch computed received) ∨
      (∃ identity, e = .wrongMode identity .transmit) ∨
      ∃ expected actual, e = .signal (.sizeMismatch expected actual) := by
  have hwf := hd.wellFormed
  have hl := reader.length_remaining
  have hverdict : Verdict d now reader.remaining (d.ingest now reader).1 := by
    rcases ingest_exits now hwf reader with ⟨e, hv, he⟩ | ⟨r, hr, hm, ha⟩
    · rw [he]
      exact hv
    · rw [ingest_of_offered now hwf hr hm ha, Record.outcome_offer]
      exact .offered hr hm ha
  refine ⟨?_, ?_⟩
  · intro result
    constructor
    · rintro rfl
      exact hverdict
    · intro hv
      cases hv with
      | cut h =>
        have h4 : reader.available < 4 := by omega
        rw [ingest_of_cut now (Nat.lt_trans h4 (by decide)), if_pos h4]
      | cutStamp hle h => rw [ingest_of_cut now (by omega), if_neg (by omega), hl]
      | unknown hle h => rw [ingest_of_unknown now (by omega) h]
      | short hr h => rw [ingest_of_short now hr (by omega), hl]
      | broken hr hc h => rw [ingest_of_broken now hr hc h]
      | outgoing hr h => rw [ingest_of_outgoing now hwf hr h]
      | misannounced hr hm hk h => rw [ingest_of_misannounced now hwf hr hm hk h]
      | offered hr hm ha => rw [ingest_of_offered now hwf hr hm ha, Record.outcome_offer]
  · intro e he
    rw [he] at hverdict
    cases hverdict with
    | cut => exact Or.inl ⟨_, _, rfl⟩
    | cutStamp => exact Or.inl ⟨_, _, rfl⟩
    | short => exact Or.inl ⟨_, _, rfl⟩
    | unknown => exact Or.inr (Or.inl ⟨_, rfl⟩)
    | broken => exact Or.inr (Or.inr (Or.inl ⟨_, _, rfl⟩))
    | outgoing => exact Or.inr (Or.inr (Or.inr (Or.inl ⟨_, rfl⟩)))
    | misannounced => exact Or.inr (Or.inr (Or.inr (Or.inr ⟨_, _, rfl⟩)))

/-- Three bytes are announced where two are registered. -/
theorem sampleDictionary_refuses :
    sampleDictionary.Reachable ∧
    Verdict sampleDictionary 5 (sampleSealed (Header.bytes ⟨3, ⟨0x85⟩, ⟨10, 21⟩, 100⟩ ++
      [0, 0, 0, 3, 1, 2])) (.error (.signal (.sizeMismatch 2 3))) := by
  refine ⟨sampleDictionary_reachable, ?_⟩
  exact ((ingest_grammar sampleDictionary_reachable 5 (Reader.ofBytes _)).1 _).1 rfl

end Dictionary
end InstrumentBus
