import InstrumentBus.Command.Decode
import InstrumentBus.Proofs.Catalog.Registry
import InstrumentBus.Proofs.Dictionary.Catalogued
import InstrumentBus.Proofs.Dictionary.Forwarding
import InstrumentBus.Proofs.Dictionary.History

/-!
# Decoding and taking in

A datagram can be decoded on its own, or taken in by a node that has registered every signal of
the catalog. The first way never asks for the size of a datagram, the second one asks for it
before anything else; still the same datagrams pass, and they are said to mean the same.
-/

namespace InstrumentBus
namespace Command

open Wire Signal Dictionary

section Stateless

variable {c : Catalog} {bytes : List UInt8} {x : Decoded}

/-- The bytes start with a whole datagram of a definition that announces its length. -/
structure Spells (d : Catalog.Definition) (bytes : List UInt8) : Prop where
  room : headerSize + d.kind.extent ≤ bytes.length
  announced : d.kind.Announced (bytes.drop headerSize)

def spelled (d : Catalog.Definition) (bytes : List UInt8) : Decoded :=
  ⟨d, Header.ofBytes bytes, Payload.ofBytes d.kind (bytes.drop headerSize),
    bytes.length - (headerSize + d.kind.extent)⟩

theorem readPayload_eq_ok_iff {kind : Kind} {reader : Reader} {out : Payload × Reader} :
    readPayload kind reader = .ok out ↔ (∃ zero, Payload.zero kind = .ok zero) ∧
      kind.extent ≤ reader.available ∧ kind.Announced reader.remaining ∧
      out = (Payload.ofBytes kind reader.remaining, reader.advance kind.extent) := by
  unfold readPayload
  cases hzero : Payload.zero kind with
  | error e => simp
  | ok zero => simp [Payload.read_eq_ok_iff, Payload.kind_zero hzero]

theorem readPayload_behind_header {d : Catalog.Definition} {out : Payload × Reader}
    (hle : headerSize ≤ bytes.length) :
    readPayload d.kind ((Reader.ofBytes bytes).advance headerSize) = .ok out ↔
      (∃ zero, Payload.zero d.kind = .ok zero) ∧ Spells d bytes ∧
        out = (Payload.ofBytes d.kind (bytes.drop headerSize),
          (Reader.ofBytes bytes).advance (headerSize + d.kind.extent)) := by
  rw [readPayload_eq_ok_iff, Reader.available_advance, Reader.available_ofBytes,
    Reader.remaining_advance, Reader.remaining_ofBytes, Reader.advance_advance]
  constructor
  · rintro ⟨hzero, hroom, hannounced, hout⟩
    exact ⟨hzero, ⟨by omega, hannounced⟩, hout⟩
  · rintro ⟨hzero, ⟨hroom, hannounced⟩, hout⟩
    exact ⟨hzero, by omega, hannounced, hout⟩

/-- Bytes are decoded if they name a definition that can be registered and spell a datagram of
it. -/
theorem decodeBytes_eq_ok_iff :
    decodeBytes c bytes = .ok x ↔ ∃ d, c.definition? (Header.ofBytes bytes).identity = some d ∧
      (∃ zero, Payload.zero d.kind = .ok zero) ∧ Spells d bytes ∧ x = spelled d bytes := by
  by_cases hle : headerSize ≤ bytes.length
  case neg =>
    have hcut := Header.read_of_lt (r := Reader.ofBytes bytes) (Nat.lt_of_not_le hle)
    simp only [decodeBytes, hcut, reduceCtorEq, false_iff]
    rintro ⟨d, -, -, hspells, -⟩
    have hroom := hspells.room
    omega
  have hheader : Header.read (Reader.ofBytes bytes) = .ok (Header.ofBytes bytes, _) :=
    Header.read_of_le hle
  cases hd : c.definition? (Header.ofBytes bytes).identity with
  | none => simp [decodeBytes, hheader, hd]
  | some d =>
    simp only [decodeBytes, hheader, hd]
    constructor
    · intro h
      split at h
      · cases h
      · next payload reader hread =>
        obtain ⟨hzero, hspells, hout⟩ := (readPayload_behind_header hle).1 hread
        cases hout
        cases h
        refine ⟨d, rfl, hzero, hspells, ?_⟩
        rw [spelled, Reader.available_advance, Reader.available_ofBytes]
    · rintro ⟨_, ⟨⟩, hzero, hspells, rfl⟩
      rw [(readPayload_behind_header hle).2 ⟨hzero, hspells, rfl⟩]
      dsimp only
      rw [spelled, Reader.available_advance, Reader.available_ofBytes]

end Stateless

section Listening

variable {c : Catalog} {b : Builder} {bytes : List UInt8} {d : Catalog.Definition} {now : UInt32}

/-- A node that has registered a catalog to receive all of it, and that expects no checksums,
accepts the first datagram it takes in if that is one of the catalog. -/
theorem accepts_of_spells (hb : b.Covers c fun _ => .receive)
    (hbare : b.config.integrity = none)
    (hd : c.definition? (Header.ofBytes bytes).identity = some d) (hspells : Spells d bytes) :
    (b.build.ingest now (Reader.ofBytes bytes)).1 = .ok .accepted := by
  obtain ⟨r, hr, hfresh⟩ := hb.registered _ d hd
  obtain ⟨-, hmode, hkind⟩ := Builder.record_eq hfresh
  have hwf := hb.reachable.wellFormed
  have hroom := hspells.room
  have hsize : b.build.sizeOf r = headerSize + d.kind.extent := by
    rw [Dictionary.sizeOf, (hwf.of_record? hr).packetSize_eq, hkind]
    simp [Builder.build, Config.trailerSize, hbare]
  have hheader : headerSize ≤ bytes.length := by omega
  have hintact : Intact b.build (Reader.ofBytes bytes).remaining r := by
    refine ⟨⟨⟨hheader, hr⟩, by rwa [hsize]⟩, ?_⟩
    intro checksum hchecksum
    cases hbare.symm.trans hchecksum
  have hsilent := isValid_of_shows_none (hb.reachable.shows_none (mem_of_record? hr) hmode) now
  exact ingest_of_invalid hwf hintact hmode (hkind ▸ hspells.announced) hsilent

theorem spells_of_accepted {e : Dictionary} {after : Reader} (hb : b.Covers c fun _ => .receive)
    (h : b.build.ingest now (Reader.ofBytes bytes) = (.ok .accepted, e, after)) :
    ∃ d s, c.definition? (Header.ofBytes bytes).identity = some d ∧ Spells d bytes ∧
      e.record? (Header.ofBytes bytes).identity = some s ∧ s.header = (spelled d bytes).header ∧
      s.payload = (spelled d bytes).payload ∧ s.packetSize = headerSize + d.kind.extent := by
  have hwf := hb.reachable.wellFormed
  obtain ⟨r, s, hintact, hannounced, hs, hheader, hpayload, hsame, -⟩ := ingest_eq_accepted hwf h
  obtain ⟨d, hd, hfresh⟩ := hb.defined _ r hintact.record
  obtain ⟨-, -, hkind⟩ := Builder.record_eq hfresh
  have hpacket : s.packetSize = r.packetSize := by
    rw [Record.packetSize, Record.packetSize, Payload.size, Payload.size, hsame]
  rw [(hwf.of_record? hintact.record).packetSize_eq, hkind] at hpacket
  have hroom := hintact.room hwf
  rw [hkind, Reader.available_ofBytes] at hroom
  rw [hkind] at hannounced hpayload
  exact ⟨d, s, hd, ⟨by omega, hannounced⟩, hs, hheader, hpayload, hpacket⟩

end Listening

open Json in
/-- The members of a report name a signal and agree with a record of it. -/
structure Reports (members : List (String × Value)) (name : String) (r : Record)
    (trailing : Nat) : Prop where
  name : member? "name" members = some (.text name)
  device : member? "device" members = some (natural r.header.device.toNat)
  priority : member? "priority" members = some (natural r.header.priority.byte.toNat)
  timestamp : member? "timestamp" members = some (natural r.header.timestamp.toNat)
  value : member? "value" members = some (.text r.payload.text)
  trailing : member? "trailing_bytes" members = some (natural trailing)

/-- A datagram can be decoded if and only if it is accepted by a node that has just registered
the catalog, with all signals to be received and without checksums. What is reported is then what
the node holds, under the name in the catalog, and the bytes behind the datagram are counted. -/
theorem decoding_agrees_with_ingestion {c : Catalog} (hc : c.Reachable) (device : UInt8)
    (priority : Priority) :
    ∃ b, (Builder.new ⟨device, priority, none⟩).registerCatalog c (fun _ => .receive) =
        (.ok (), b) ∧
      ∀ (now : UInt32) (bytes : List UInt8),
        ((∃ x, decodeBytes c bytes = .ok x) ↔
          (b.build.ingest now (Reader.ofBytes bytes)).1 = .ok .accepted) ∧
        ∀ x, decodeBytes c bytes = .ok x → ∃ header name r,
          Header.peek (Reader.ofBytes bytes) = .ok header ∧ c.nameFor? header.identity = some name ∧
          (b.build.ingest now (Reader.ofBytes bytes)).2.1.record? header.identity = some r ∧
          r.packetSize ≤ bytes.length ∧
          Reports (decodedMembers x) name r (bytes.length - r.packetSize) := by
  obtain ⟨b, hb, hconfig, hcovers⟩ :=
    Builder.registerCatalog_of_coherent hc.coherent ⟨device, priority, none⟩ fun _ => .receive
  have hbare : b.config.integrity = none := congrArg Config.integrity hconfig
  refine ⟨b, hb, ?_⟩
  intro now bytes
  have haccepted : ∀ x, decodeBytes c bytes = .ok x →
      (b.build.ingest now (Reader.ofBytes bytes)).1 = .ok .accepted := by
    intro x hx
    obtain ⟨d, hd, -, hspells, -⟩ := decodeBytes_eq_ok_iff.1 hx
    exact accepts_of_spells hcovers hbare hd hspells
  refine ⟨⟨?_, ?_⟩, ?_⟩
  · rintro ⟨x, hx⟩
    exact haccepted x hx
  · intro h
    obtain ⟨d, -, hd, hspells, -⟩ := spells_of_accepted hcovers (Prod.ext h rfl)
    have hsound := hc.coherent.sound d (hc.coherent.definition?_eq_some_iff.1 hd).1
    obtain ⟨-, hzero⟩ := Catalog.Definition.fault?_eq_none_iff.1 hsound
    exact ⟨_, decodeBytes_eq_ok_iff.2 ⟨d, hd, hzero, hspells, rfl⟩⟩
  · intro x hx
    obtain ⟨d, r, hd, hspells, hr, hheader, hpayload, hpacket⟩ :=
      spells_of_accepted hcovers (Prod.ext (haccepted x hx) rfl)
    obtain ⟨d', hd', -, -, rfl⟩ := decodeBytes_eq_ok_iff.1 hx
    cases hd.symm.trans hd'
    have hroom := hspells.room
    have hpeek : Header.peek (Reader.ofBytes bytes) = .ok (Header.ofBytes bytes) := by
      apply peek_of_le
      rw [Reader.available_ofBytes]
      omega
    refine ⟨_, d.name, r, hpeek, by rw [Catalog.nameFor?]; simp [hd], hr, by omega, ?_⟩
    constructor <;> simp [decodedMembers, Json.member?, hheader, hpayload, hpacket, spelled]

/-- An altitude of 123.45 feet, with a byte behind it. -/
def sampleAltitude : List UInt8 := [10, 129, 10, 20, 0, 0, 5, 220, 0, 0, 48, 57, 255]

theorem sampleAltitude_accepted : Catalog.builtin.Reachable ∧
    ∃ b r, (Builder.new ⟨0, ⟨0⟩, none⟩).registerCatalog .builtin (fun _ => .receive) =
        (.ok (), b) ∧
      (b.build.ingest 7 (Reader.ofBytes sampleAltitude)).1 = .ok .accepted ∧
      (b.build.ingest 7 (Reader.ofBytes sampleAltitude)).2.1.record? ⟨10, 20⟩ = some r ∧
      r.payload.text = "123.45" := by
  have hreachable : Catalog.builtin.Reachable := .origin (o := .builtin) rfl
  have hdecoded : (decodeBytes .builtin sampleAltitude).toOption.map (·.payload.text) =
      some "123.45" := by decide +kernel
  cases hx : decodeBytes .builtin sampleAltitude with
  | error failure =>
    rw [hx] at hdecoded
    cases hdecoded
  | ok x =>
    have htext : x.payload.text = "123.45" := by
      rw [hx] at hdecoded
      exact Option.some.inj hdecoded
    obtain ⟨b, hb, hagree⟩ := decoding_agrees_with_ingestion hreachable 0 ⟨0⟩
    obtain ⟨haccepted, hreport⟩ := hagree 7 sampleAltitude
    obtain ⟨header, name, r, hpeek, -, hr, -, hreports⟩ := hreport x hx
    have hheader : header = ⟨10, ⟨129⟩, ⟨10, 20⟩, 1500⟩ := by
      have hfirst : Header.peek (Reader.ofBytes sampleAltitude) =
          .ok ⟨10, ⟨129⟩, ⟨10, 20⟩, 1500⟩ := by rfl
      exact Except.ok.inj (hpeek.symm.trans hfirst)
    subst hheader
    have hvalue : x.payload.text = r.payload.text := by
      simpa [decodedMembers, Json.member?] using hreports.value
    exact ⟨hreachable, b, r, hb, haccepted.1 ⟨x, hx⟩, hr, hvalue.symm.trans htext⟩

end Command
end InstrumentBus
