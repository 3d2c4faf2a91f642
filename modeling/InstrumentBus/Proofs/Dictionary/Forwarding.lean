import InstrumentBus.Proofs.Dictionary.Emission
import InstrumentBus.Proofs.Signal.Canonical

/-!
# Forwarding

A datagram is the only encoding of what it says. So a node that sends on what another one has
accepted, header and payload as they are held there, sends the bytes that were received.
-/

namespace InstrumentBus
namespace Dictionary

open Numeric Wire Signal

section Accepted

variable {d d' : Dictionary} {reader after : Reader} {now : UInt32}

theorem ingest_eq_accepted (hd : d.WellFormed)
    (h : d.ingest now reader = (.ok .accepted, d', after)) :
    ∃ r s, Intact d reader.remaining r ∧
      r.payload.kind.Announced (reader.remaining.drop headerSize) ∧
      d'.record? (Header.ofBytes reader.remaining).identity = some s ∧
      s.header = Header.ofBytes reader.remaining ∧
      s.payload = Payload.ofBytes r.payload.kind (reader.remaining.drop headerSize) ∧
      s.payload.kind = r.payload.kind ∧ after = reader.advance (d.sizeOf r) := by
  rcases ingest_exits now hd reader with ⟨e, -, he⟩ | ⟨r, hr, hm, ha⟩
  · rw [he] at h
    cases h
  · rw [ingest_of_offered now hd hr hm ha] at h
    obtain ⟨houtcome, hrest⟩ := Prod.mk.inj h
    obtain ⟨rfl, rfl⟩ := Prod.mk.inj hrest
    rw [Record.offer_of_accepted (Except.ok.inj houtcome)]
    have hroom := hr.room hd
    have hkind : (Payload.ofBytes r.payload.kind (reader.remaining.drop headerSize)).kind =
        r.payload.kind := by
      apply Payload.kind_ofBytes
      rw [List.length_drop, Reader.length_remaining]
      omega
    exact ⟨r, _, hr, ha, record?_replace_self hr.record hr.identity_eq.symm, rfl, rfl, hkind, rfl⟩

variable {source : Dictionary} {r s : Record} {bytes : List UInt8}

theorem bytes_of_holds (hd : d.WellFormed) (hr : Intact d bytes r)
    (ha : r.payload.kind.Announced (bytes.drop headerSize)) (hk : r.payload.kind.Faithful)
    (hheader : s.header = Header.ofBytes bytes)
    (hpayload : s.payload = Payload.ofBytes r.payload.kind (bytes.drop headerSize)) :
    s.bytes = bytes.take r.packetSize := by
  have hroom := hr.complete
  rw [sizeOf, (hd.of_record? hr.record).packetSize_eq] at hroom
  have hbody : r.payload.kind.extent ≤ (bytes.drop headerSize).length := by
    rw [List.length_drop]
    omega
  rw [Record.bytes, hheader, hpayload, Header.bytes_ofBytes hr.header,
    Payload.bytes_ofBytes hk hbody ha, (hd.of_record? hr.record).packetSize_eq, List.take_add]

theorem datagram_of_intact (hr : Intact d bytes r)
    (hc : source.config.integrity = d.config.integrity)
    (hs : s.bytes = bytes.take r.packetSize) : source.datagram s = bytes.take (d.sizeOf r) := by
  rw [datagram, trailer, hc, hs, sizeOf]
  cases hchecksum : d.config.integrity with
  | none => simp [Config.trailerSize, hchecksum]
  | some checksum =>
    have hroom := hr.complete
    rw [sizeOf, trailerSize_of_some hchecksum] at hroom
    dsimp only
    rw [hr.genuine checksum hchecksum, halfBytes_halfAt hroom, trailerSize_of_some hchecksum,
      List.take_add]

end Accepted

/-- A datagram is the only encoding of what it says. For every kind of payload, but for a scaled
one whose least value is infinite, what is decoded is written as the bytes it was decoded from;
datagrams that say the same are the same; and a node that holds for sending what another one has
accepted sends the bytes that were accepted, with the same trailer if its checksum is the same. -/
theorem datagrams_are_canonical {k : Kind} (hk : k.Faithful) :
    (∀ reader header payload after, Decodes k reader header payload after →
      headerSize + k.size ≤ reader.available ∧ after = reader.advance (headerSize + k.size) ∧
      Priority.ofRank header.priority.healthy header.priority.rank = header.priority ∧
      ∀ w : Writer, headerSize + k.size ≤ w.available →
        ∃ between, header.write w = (.ok (), between) ∧
          payload.write between =
            (.ok (), w.lay (reader.remaining.take (headerSize + k.size)))) ∧
    (∀ a b header payload after after', Decodes k a header payload after →
      Decodes k b header payload after' →
      a.remaining.take (headerSize + k.size) = b.remaining.take (headerSize + k.size)) ∧
    ∀ (d d' source : Dictionary) (now : UInt32) (reader after : Reader) (i : Identity)
      (r s : Record), d.Reachable → source.Reachable →
      d.ingest now reader = (.ok .accepted, d', after) →
      d'.record? (Header.ofBytes reader.remaining).identity = some r → r.payload.kind = k →
      source.record? i = some s → s.mode = .transmit → s.header = r.header →
      s.payload = r.payload →
      ∃ n trailer, after = reader.advance n ∧ n ≤ reader.available ∧
        source.emitBytes i = .ok (reader.remaining.take (headerSize + k.size) ++ trailer) ∧
        (source.config.integrity = d.config.integrity →
          source.emitBytes i = .ok (reader.remaining.take n)) := by
  refine ⟨?_, ?_, ?_⟩
  · intro reader header payload after h
    obtain ⟨hle, -, -, -, rfl⟩ := h.spec
    rw [hk.size_eq]
    refine ⟨hle, rfl, header.priority.ofRank_rank, ?_⟩
    intro w hroom
    have hwrite := h.write_eq hk (hk.size_eq ▸ hroom)
    rwa [hk.size_eq] at hwrite
  · intro a b header payload after after' ha hb
    rw [← ha.bytes_eq hk, ← hb.bytes_eq hk]
  · intro d d' source now reader after i r s hd hsource haccepted hr hrk hs hm hheader hpayload
    have hwf := hd.wellFormed
    obtain ⟨held, r', hintact, ha, hr', hrheader, hrpayload, hkind, hafter⟩ :=
      ingest_eq_accepted hwf haccepted
    cases hr.symm.trans hr'
    have hheld : held.payload.kind = k := hkind.symm.trans hrk
    have hbytes := bytes_of_holds hwf hintact ha (hheld ▸ hk) (hheader.trans hrheader)
      (hpayload.trans hrpayload)
    have hemit := emitBytes_of_transmit (hsource.wellFormed.of_record? hs) hs hm
    have hpacket : held.packetSize = headerSize + k.size := by
      rw [Record.packetSize, Payload.size, hheld]
    refine ⟨d.sizeOf held, source.trailer s.bytes, hafter, ?_, ?_, ?_⟩
    · exact reader.length_remaining ▸ hintact.complete
    · rw [hemit, datagram, hbytes, hpacket]
    · intro hc
      rw [hemit, datagram_of_intact hintact hc hbytes]

/-- A quarter turn, sealed, with a byte behind it. -/
def sampleQuarterTurn : List UInt8 :=
  [7, 144, 10, 22, 0, 0, 0, 0, 64, 0, 0, 0, 109, 65, 99]

/-- A node that has set the same value by itself. -/
def sampleRepeater : Dictionary :=
  (sampleSource.run [.change ⟨10, 22⟩ (.value (.scaled (Binary64.ofNat 90)))]).dictionary

theorem sampleQuarterTurn_forwarded :
    (Kind.scaled degreesPerTurnStep).Faithful ∧
    (sampleTarget.ingest 5 (Reader.ofBytes sampleQuarterTurn)).1 = .ok .accepted ∧
    sampleRepeater.emitBytes ⟨10, 22⟩ = .ok (sampleQuarterTurn.take 14) := by
  have hfaithful : (Kind.scaled degreesPerTurnStep).Faithful := by
    refine ⟨⟨.scaled ⟨degreesPerTurnStep, .zero false⟩, by decide +kernel⟩, ?_⟩
    rintro _ ⟨⟩
    decide +kernel
  have haccepted : (sampleTarget.ingest 5 (Reader.ofBytes sampleQuarterTurn)).1 =
      .ok .accepted := by decide +kernel
  have hposition : (sampleTarget.ingest 5 (Reader.ofBytes sampleQuarterTurn)).2.2.position =
      14 := by decide +kernel
  have htarget : sampleTarget.Reachable := .build ((Builder.Reachable.new _).attemptAll _)
  have hsource : sampleRepeater.Reachable :=
    Node.reachable_run (.build ((Builder.Reachable.new _).attemptAll _)) _
  have hheld : (sampleTarget.ingest 5 (Reader.ofBytes sampleQuarterTurn)).2.1.record?
      (Header.ofBytes sampleQuarterTurn).identity =
        some ⟨⟨⟨10, 22⟩, 50⟩, .receive, ⟨7, ⟨0x90⟩, ⟨10, 22⟩, 0⟩,
          .scaled ⟨degreesPerTurnStep, Binary64.ofNat 90⟩, 5⟩ := by decide +kernel
  have hsent : sampleRepeater.record? ⟨10, 22⟩ =
      some ⟨⟨⟨10, 22⟩, 1000⟩, .transmit, ⟨7, ⟨0x90⟩, ⟨10, 22⟩, 0⟩,
        .scaled ⟨degreesPerTurnStep, Binary64.ofNat 90⟩, 0⟩ := by decide +kernel
  have hsealed : sampleRepeater.config.integrity = sampleTarget.config.integrity := by
    have hconfig : sampleRepeater.config = sampleSource.dictionary.config :=
      (sampleSource.reachableFrom_run _).sameSignals.config
    rw [hconfig]
    simp [sampleSource, sampleTarget, Builder.build, Builder.new]
  obtain ⟨n, -, hafter, -, -, hsame⟩ := (datagrams_are_canonical hfaithful).2.2 _ _ _ 5
    (Reader.ofBytes sampleQuarterTurn) _ _ _ _ htarget hsource (Prod.ext haccepted rfl) hheld rfl
    hsent rfl rfl rfl
  have hn : n = 14 := by
    have hend : 14 = 0 + n := hposition.symm.trans (congrArg Reader.position hafter)
    omega
  exact ⟨hfaithful, haccepted, hn ▸ hsame hsealed⟩

end Dictionary
end InstrumentBus
