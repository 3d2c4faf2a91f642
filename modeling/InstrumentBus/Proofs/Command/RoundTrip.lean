import InstrumentBus.Command.Encode
import InstrumentBus.Proofs.Command.Decoding
import InstrumentBus.Proofs.Text.Hex

/-!
# Decoding what was encoded

The text that a datagram is printed as, given back to be decoded, tells what the datagram was
asked to say: the header as it was given, and the value as its kind can carry it.
-/

namespace InstrumentBus
namespace Command

open Numeric Wire Signal Dictionary

section Encoding

variable {d : Catalog.Definition} {request : EncodeRequest} {bytes : List UInt8}

theorem transmitter_of_register {b : Builder}
    (hb : (Builder.new ⟨request.device, ⟨request.priority⟩, none⟩).register d.descriptor d.kind
      .transmit = .ok b) :
    b.config.integrity = none ∧ b.Reachable ∧ ∃ zero, Payload.zero d.kind = .ok zero ∧
      b.build.record? d.identity = some ⟨d.descriptor, .transmit,
        ⟨request.device, ⟨request.priority⟩, d.identity, 0⟩, zero, 0⟩ := by
  have hreachable : b.Reachable := .register (.new _) hb
  obtain ⟨fresh, hfresh, -, rfl⟩ := Builder.register_cases hb
  have hfound := hreachable.wellFormed.record?_of_mem (Identity.mem_insertInto.2 (Or.inl rfl))
  rw [(Builder.wellFormed_record hfresh).2] at hfound
  obtain ⟨zero, hzero, ⟨hmode, -⟩ | ⟨-, rfl⟩⟩ := Builder.record_cases hfresh
  · cases hmode
  · exact ⟨rfl, hreachable, zero, hzero, hfound⟩

theorem change_value {e : Dictionary} {i : Identity} {r : Record} (hr : e.record? i = some r)
    (hm : r.mode = .transmit) (now : UInt32) (v : ValueChange) :
    e.change now i (.value v) =
      match r.payload.change v with
      | .error fault => .error (.ofSignal fault)
      | .ok payload => .ok (e.replace ({ r with payload := payload }.touch now)) := by
  simp only [Dictionary.change, record_eq_ok_iff.2 hr, Record.change, Record.require, hm, if_true]
  cases r.payload.change v <;> rfl

/-- Of a definition that can be registered, the datagram is the header that was asked for and the
zero of its kind changed to the value that was asked for. -/
theorem encodeDefinition_eq {zero : Payload} (hzero : Payload.zero d.kind = .ok zero) :
    encodeDefinition d request =
      match readValue d.kind request.value.toList with
      | .error failure => .error failure
      | .ok v =>
        match zero.change v with
        | .error fault => .error (.ofDictionary "setting value" (.ofSignal fault))
        | .ok payload => .ok ((Header.mk request.device ⟨request.priority⟩ d.identity
            request.timestamp).bytes ++ payload.bytes) := by
  obtain ⟨b, hb⟩ : ∃ b, (Builder.new ⟨request.device, ⟨request.priority⟩, none⟩).register
      d.descriptor d.kind .transmit = .ok b :=
    Builder.exists_register hzero fun s hs => absurd hs List.not_mem_nil
  obtain ⟨hbare, hreachable, zero', hzero', hfound⟩ := transmitter_of_register hb
  cases hzero.symm.trans hzero'
  simp only [encodeDefinition, hb]
  cases hv : readValue d.kind request.value.toList with
  | error failure => rfl
  | ok v =>
    have hchange := change_value hfound rfl request.timestamp v
    cases hpayload : zero.change v with
    | error fault =>
      simp only [hpayload] at hchange
      simp only [hchange, hpayload]
    | ok payload =>
      simp only [hpayload] at hchange
      obtain ⟨sent, hsent⟩ : ∃ sent : Record, sent = Record.touch ⟨d.descriptor, .transmit,
        ⟨request.device, ⟨request.priority⟩, d.identity, 0⟩, payload, 0⟩ request.timestamp :=
        ⟨_, rfl⟩
      rw [← hsent] at hchange
      have hidentity : sent.identity = d.identity := by
        rw [hsent]
        rfl
      have hmode : sent.mode = .transmit := by
        rw [hsent]
        rfl
      have hwf := (Reachable.change (.build hreachable) hchange).wellFormed
      have hs := record?_replace_self hfound hidentity
      have hemit := emitBytes_of_transmit (hwf.of_record? hs) hs hmode
      simp only [hchange, hemit, hpayload]
      simp [datagram, trailer, Builder.build, hbare, Record.bytes, hsent, Record.touch]

theorem encodeDefinition_eq_ok (h : encodeDefinition d request = .ok bytes) :
    ∃ zero v payload, Payload.zero d.kind = .ok zero ∧
      readValue d.kind request.value.toList = .ok v ∧ zero.change v = .ok payload ∧
      bytes = (Header.mk request.device ⟨request.priority⟩ d.identity request.timestamp).bytes ++
        payload.bytes := by
  obtain ⟨zero, hzero⟩ : ∃ zero, Payload.zero d.kind = .ok zero := by
    unfold encodeDefinition at h
    dsimp only at h
    split at h
    · cases h
    · next b hb =>
      obtain ⟨-, -, zero, hzero, -⟩ := transmitter_of_register hb
      exact ⟨zero, hzero⟩
  rw [encodeDefinition_eq hzero] at h
  split at h
  · cases h
  · next v hv =>
    split at h
    · cases h
    · next payload hpayload =>
      cases h
      exact ⟨zero, v, payload, hzero, hv, hpayload, rfl⟩

end Encoding

/-- What is shown of a value that was given as a text: of an integer its decimal digits, of a byte
string its hexadecimal digits, and of a number the multiple of the resolution that its word stands
for. -/
inductive Shown : Kind → List Char → String → Prop where
  | scaled {resolution x : Binary64} {text : List Char} {f g : FixedPoint}
      (hread : readFinite text = .ok x) (hzero : FixedPoint.new resolution = .ok f)
      (hcarried : FixedPoint.ofRaw resolution (f.set x).encode = .ok g) :
      Shown (.scaled resolution) text (Payload.scaled g).text
  | integer {text : List Char} {n : UInt32} (hread : readWord (Text.trim text) = .ok n) :
      Shown .integer text (toString n.toNat)
  | buffer {length : Nat} {text : List Char} {bytes : List UInt8}
      (hread : readHex text = .ok bytes) :
      Shown (.buffer length) text (Text.Hex.encodeText bytes)

section Values

variable {kind : Kind} {text : List Char} {v : ValueChange} {zero payload : Payload}

theorem readValue_eq_ok_iff : readValue kind text = .ok v ↔
    match kind with
    | .scaled _ => ∃ x, readFinite text = .ok x ∧ v = .scaled x
    | .integer => ∃ n, readWord (Text.trim text) = .ok n ∧ v = .integer n
    | .buffer _ => ∃ bytes, readHex text = .ok bytes ∧ v = .bytes bytes := by
  cases kind with
  | scaled resolution =>
    dsimp only [readValue]
    cases readFinite text <;> simp [Except.map, eq_comm]
  | integer =>
    dsimp only [readValue]
    cases readWord (Text.trim text) <;> simp [eq_comm]
  | buffer length =>
    dsimp only [readValue]
    cases readHex text <;> simp [Except.map, eq_comm]

theorem shown_of_change (hzero : Payload.zero kind = .ok zero) (hread : readValue kind text = .ok v)
    (hchange : zero.change v = .ok payload) : Shown kind text payload.carried.text := by
  have hkind : payload.kind = kind := (Payload.kind_change hchange).trans (Payload.kind_zero hzero)
  have hcarried := Payload.carried_spec
    (Payload.sound_of_registrable (hkind ▸ Kind.registrable_of_zero hzero))
  cases kind with
  | scaled resolution =>
    obtain ⟨x, hx, rfl⟩ := readValue_eq_ok_iff.1 hread
    simp only [Payload.zero] at hzero
    split at hzero
    · next f hf =>
      obtain ⟨-, rfl⟩ := FixedPoint.new_eq_ok_iff.1 hf
      cases hzero
      cases hchange
      cases hcarried with
      | scaled hword =>
        rw [FixedPoint.set_resolution] at hword
        exact .scaled hx hf hword
    · cases hzero
  | integer =>
    obtain ⟨n, hn, rfl⟩ := readValue_eq_ok_iff.1 hread
    cases hzero
    cases hchange
    exact .integer hn
  | buffer length =>
    obtain ⟨bytes, hbytes, rfl⟩ := readValue_eq_ok_iff.1 hread
    simp only [Payload.zero] at hzero
    split at hzero
    · cases hzero
    · cases hzero
      simp only [Payload.change] at hchange
      split at hchange
      · cases hchange
        exact .buffer hbytes
      · cases hchange

end Values

section Datagrams

variable {c : Catalog} {d : Catalog.Definition} {header : Header} {zero payload : Payload}
  {bytes : List UInt8} {x : Decoded}

/-- A header and a payload are decoded as that header and what the payload carries, with nothing
left over. -/
theorem decodeBytes_bytes (hd : c.definition? header.identity = some d)
    (hzero : Payload.zero d.kind = .ok zero) (hkind : payload.kind = d.kind) :
    decodeBytes c (header.bytes ++ payload.bytes) = .ok ⟨d, header, payload.carried, 0⟩ := by
  have hheader := header.ofBytes_append payload.bytes
  have hdrop := header.drop_append payload.bytes
  have hlength : (header.bytes ++ payload.bytes).length = headerSize + d.kind.extent := by
    rw [List.length_append, header.length_bytes, payload.length_bytes, hkind]
  have hsound := Payload.sound_of_registrable (hkind ▸ Kind.registrable_of_zero hzero)
  have hannounced := Payload.announced_append hsound.encodable []
  have hcarried := payload.ofBytes_append []
  rw [List.append_nil, hkind] at hannounced hcarried
  refine decodeBytes_eq_ok_iff.2 ⟨d, by rwa [hheader], ⟨zero, hzero⟩, ⟨?_, ?_⟩, ?_⟩
  · exact Nat.le_of_eq hlength.symm
  · rwa [hdrop]
  · rw [spelled, hheader, hdrop, hcarried, hlength, Nat.sub_self]

/-- The text of bytes is decoded as they are, also with the end of its line. -/
theorem decode_text (h : decodeBytes c bytes = .ok x) (format : Format) :
    decode c (Text.Hex.encodeText bytes) format = .printed (printDecoded x format) ∧
      decode c (line (Text.Hex.encodeText bytes)) format = .printed (printDecoded x format) := by
  have hbare : readHex (Text.Hex.encodeText bytes).toList = .ok bytes := by
    have hread := Text.Hex.decode_encode bytes (List.forall_mem_nil _)
    rw [List.append_nil] at hread
    rw [readHex, Text.Hex.encodeText, String.toList_ofList, hread]
  have hended : readHex (line (Text.Hex.encodeText bytes)).toList = .ok bytes := by
    have hmargin : ∀ c ∈ "\n".toList, Text.isBlank c = true := by
      intro c hc
      obtain rfl : c = '\n' := by simpa using hc
      rfl
    rw [readHex, line, Text.Hex.encodeText, String.toList_append, String.toList_ofList,
      Text.Hex.decode_encode bytes hmargin]
  constructor
  · rw [decode, hbare]
    simp only [h]
  · rw [decode, hended]
    simp only [h]

end Datagrams

/-- Whatever value a signal of a catalog is encoded with, the text that is printed can be decoded
again. The report names the signal and gives the header as it was asked for, with the health and
the rank that its priority stands for, and the value as its kind can carry it. -/
theorem decoding_reports_encoded {c : Catalog} (hc : c.Reachable) {d : Catalog.Definition}
    (hd : d ∈ c.definitions) {value : String} {device priority : UInt8} {timestamp : UInt32}
    (haccepted : (encode c ⟨d.name, value, device, priority, timestamp⟩ .pretty).failure = none) :
    ∃ hex shown x,
      encode c ⟨d.name, value, device, priority, timestamp⟩ .pretty = .printed (line hex) ∧
      Shown d.kind value.toList shown ∧
      (∀ format, decode c hex format = .printed (printDecoded x format) ∧
        decode c (line hex) format = .printed (printDecoded x format)) ∧
      decodedMembers x =
        [("name", .text d.name), ("category", natural d.identity.category.toNat),
          ("subcategory", natural d.identity.subcategory.toNat),
          ("device", natural device.toNat), ("priority", natural priority.toNat),
          ("healthy", .bool (priority.toNat.testBit 7)),
          ("rank", natural (priority.toNat % 128)), ("timestamp", natural timestamp.toNat),
          ("kind", .text d.kind.shape.text), ("value", .text shown), ("units", nullable d.units),
          ("trailing_bytes", natural 0)] := by
  have hcoherent := hc.coherent
  have hmem := hcoherent.mem_definitions.1 hd
  have hnamed := hcoherent.get?_eq_some_iff.2 ⟨hmem, rfl⟩
  have hidentified := hcoherent.definition?_eq_some_iff.2 ⟨hmem, rfl⟩
  cases hbytes : encodeDefinition d ⟨d.name, value, device, priority, timestamp⟩ with
  | error failure =>
    simp [encode, encodeRequest, hnamed, hbytes, Except.map, Answer.failed] at haccepted
  | ok bytes =>
    obtain ⟨zero, v, payload, hzero, hread, hchange, rfl⟩ := encodeDefinition_eq_ok hbytes
    have hkind : payload.kind = d.kind :=
      (Payload.kind_change hchange).trans (Payload.kind_zero hzero)
    have hdecoded : decodeBytes c
        ((Header.mk device ⟨priority⟩ d.identity timestamp).bytes ++ payload.bytes) = .ok _ :=
      decodeBytes_bytes hidentified hzero hkind
    have hshape : payload.carried.shape = d.kind.shape := by
      rw [Payload.shape, payload.kind_carried, hkind]
    refine ⟨_, _, _, ?_, shown_of_change hzero hread hchange, decode_text hdecoded, ?_⟩
    · simp [encode, encodeRequest, hnamed, hbytes, Except.map, printEncoded, Answer.printed]
    · simp only [decodedMembers, healthy_eq_testBit, Priority.rank_toNat, hshape]

/-- An altitude in hundredths of a foot, given with more places than it can carry. -/
def sampleRequest : EncodeRequest := ⟨"altitude_msl", " -12.505", 10, 0x81, 1500⟩

theorem sampleRequest_reported : Catalog.builtin.Reachable ∧
    Catalog.quantity "altitude_msl" 10 20 "ft" "Altitude above mean sea level" ∈
      Catalog.builtin.definitions ∧
    (encode .builtin sampleRequest .pretty).failure = none ∧
    ∃ hex x, encode .builtin sampleRequest .pretty = .printed (line hex) ∧
      decode .builtin hex .json = .printed (document "decode" (decodedMembers x)) ∧
      decodedMembers x =
        [("name", .text "altitude_msl"), ("category", natural 10), ("subcategory", natural 20),
          ("device", natural 10), ("priority", natural 129), ("healthy", .bool true),
          ("rank", natural 1), ("timestamp", natural 1500), ("kind", .text "scaled"),
          ("value", .text "-12.50"), ("units", .text "ft"), ("trailing_bytes", natural 0)] := by
  have hreachable : Catalog.builtin.Reachable := .origin (o := .builtin) rfl
  have hd : Catalog.quantity "altitude_msl" 10 20 "ft" "Altitude above mean sea level" ∈
      Catalog.builtin.definitions := by decide +kernel
  have haccepted : (encode .builtin sampleRequest .pretty).failure = none := by decide +kernel
  obtain ⟨hex, shown, x, hprinted, hshown, hdecoded, hmembers⟩ :=
    decoding_reports_encoded hreachable hd haccepted
  have hvalue : shown = "-12.50" := by
    have hsteps : ((readFinite " -12.505".toList).toOption.bind fun x =>
        (FixedPoint.new Catalog.hundredth).toOption.bind fun f =>
          (FixedPoint.ofRaw Catalog.hundredth (f.set x).encode).toOption.map fun g =>
            (Payload.scaled g).text) = some "-12.50" := by decide +kernel
    cases hshown with
    | scaled hread hzero hcarried =>
      rw [hread, Except.toOption, Option.bind_some, hzero, Except.toOption, Option.bind_some,
        hcarried] at hsteps
      exact Option.some.inj hsteps
  subst hvalue
  exact ⟨hreachable, hd, haccepted, hex, x, hprinted, (hdecoded .json).1, hmembers⟩

end Command
end InstrumentBus
