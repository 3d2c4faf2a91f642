import InstrumentBus.Command.Run
import InstrumentBus.Proofs.Command.Replaying
import InstrumentBus.Proofs.Command.RoundTrip

/-!
# Where failures come from

Once the catalog and the file of a command have been read, what is left to fail is what its user
gives it: the words of the request, or the data. The failures that speak of the program itself
cannot come about any more.
-/

namespace InstrumentBus
namespace Command

open Numeric Wire Signal Dictionary

/-- The text gives a value to a signal of the kind: a finite number, a word, or as many bytes as
the signal has. -/
def Suits : Kind → List Char → Prop
  | .scaled _, text => ∃ x, Decimal.read (Text.trim text) = .ok x ∧ x.isFinite = true
  | .integer, text => ∃ n, Text.Numeral.parseMarked 0x100000000 (Text.trim text) = .ok n
  | .buffer length, text => ∃ bytes, Text.Hex.decode text = .ok bytes ∧ bytes.length = length

def blame : Kind → Nat
  | .scaled _ | .integer => Failure.badUsage
  | .buffer _ => Failure.invalidData

section Decoding

variable {c : Catalog} {bytes : List UInt8}

theorem word_error {reader : Reader} {e : Wire.Error} (h : reader.word = .error e) :
    e = .underrun 4 reader.available := by
  rw [Reader.word_eq] at h
  split at h
  · cases h
  · exact (Except.error.inj h).symm

/-- A payload is not read if bytes are missing or announce another length. -/
theorem signalCode_of_read {p : Payload} {reader : Reader} {e : Signal.Error}
    (h : p.read reader = .error e) : Failure.signalCode e = Failure.invalidData := by
  cases hw : reader.word with
  | error fault =>
    have hcut : p.read reader = .error (.wire fault) := by
      cases p <;> simp [Payload.read, Reader.fixed, hw]
    cases h.symm.trans hcut
    rw [word_error hw]
    rfl
  | ok out =>
    cases p with
    | scaled f => simp [Payload.read, Reader.fixed, hw] at h
    | integer n => simp [Payload.read, hw] at h
    | buffer held =>
      simp only [Payload.read, hw, Reader.bytes] at h
      split at h
      · cases h
        rfl
      · split at h
        · cases h
        · next hshort =>
          split at hshort
          · cases hshort
          · cases hshort
            cases h
            rfl

theorem code_of_decodeBytes {failure : Failure} (hc : c.Coherent)
    (h : decodeBytes c bytes = .error failure) : failure.code = Failure.invalidData := by
  unfold decodeBytes at h
  split at h
  · next hread =>
    by_cases hle : headerSize ≤ (Reader.ofBytes bytes).available
    · rw [Header.read_of_le hle] at hread
      cases hread
    · rw [Header.read_of_lt (Nat.lt_of_not_le hle)] at hread
      cases hread
      cases h
      split <;> rfl
  · split at h
    · cases h
      rfl
    · next e he =>
      obtain ⟨zero, hzero⟩ := hc.exists_zero he
      simp only [readPayload, hzero] at h
      split at h
      · next hread =>
        cases h
        exact signalCode_of_read hread
      · cases h

end Decoding

section Encoding

variable {c : Catalog} {d : Catalog.Definition} {request : EncodeRequest}

theorem readFinite_cases (text : List Char) :
    (∃ x, Decimal.read (Text.trim text) = .ok x ∧ x.isFinite = true ∧ readFinite text = .ok x) ∨
      (∀ x, Decimal.read (Text.trim text) = .ok x → x.isFinite = false) ∧
        ∃ message, readFinite text = .error (.usage message) := by
  unfold readFinite
  cases hread : Decimal.read (Text.trim text) with
  | error e =>
    refine Or.inr ⟨?_, _, rfl⟩
    rintro x ⟨⟩
  | ok x =>
    cases hx : x.isFinite with
    | true => exact Or.inl ⟨x, rfl, hx, by simp [hx]⟩
    | false =>
      refine Or.inr ⟨?_, "value must be finite: " ++ String.ofList text, by simp [hx]⟩
      rintro _ ⟨⟩
      exact hx

theorem encodeDefinition_cases (hd : d.fault? = none) (request : EncodeRequest) :
    (Suits d.kind request.value.toList ∧ ∃ bytes, encodeDefinition d request = .ok bytes) ∨
      ¬ Suits d.kind request.value.toList ∧
        ∃ failure, encodeDefinition d request = .error failure ∧ failure.code = blame d.kind := by
  obtain ⟨-, zero, hzero⟩ := Catalog.Definition.fault?_eq_none_iff.1 hd
  have hkind := Payload.kind_zero hzero
  rw [encodeDefinition_eq hzero, ← hkind]
  cases zero with
  | scaled f =>
    rcases readFinite_cases request.value.toList with
      ⟨x, hread, hfinite, hx⟩ | ⟨hunfit, message, hx⟩
    · refine Or.inl ⟨⟨x, hread, hfinite⟩, ?_⟩
      simp [Payload.kind, readValue, hx, Except.map, Payload.change]
    · refine Or.inr ⟨?_, .usage message, ?_, rfl⟩
      · rintro ⟨x, hread, hfinite⟩
        cases (hunfit x hread).symm.trans hfinite
      · simp [Payload.kind, readValue, hx, Except.map]
  | integer n =>
    cases hread : Text.Numeral.parseMarked 0x100000000 (Text.trim request.value.toList) with
    | ok m =>
      refine Or.inl ⟨⟨m, hread⟩, ?_⟩
      simp [Payload.kind, readValue, readWord, readNumeral, hread, Except.map, Payload.change]
    | error fault =>
      refine Or.inr ⟨?_, ?_⟩
      · rintro ⟨m, hm⟩
        cases hread.symm.trans hm
      · simp [Payload.kind, readValue, readWord, readNumeral, hread, Except.map, blame,
          Failure.usage]
  | buffer held =>
    cases hread : Text.Hex.decode request.value.toList with
    | ok bytes =>
      by_cases hlength : bytes.length = held.length
      · refine Or.inl ⟨⟨bytes, hread, hlength⟩, ?_⟩
        simp [Payload.kind, readValue, readHex, hread, Except.map, Payload.change, hlength]
      · refine Or.inr ⟨?_, ?_⟩
        · rintro ⟨bytes', hread', hlength'⟩
          cases hread.symm.trans hread'
          exact hlength hlength'
        · simp [Payload.kind, readValue, readHex, hread, Except.map, Payload.change,
            Ne.symm hlength, blame, Failure.ofDictionary, Failure.within, Error.ofSignal,
            Failure.dictionaryCode, Failure.signalCode]
    | error fault =>
      refine Or.inr ⟨?_, ?_⟩
      · rintro ⟨bytes, hbytes, -⟩
        cases hread.symm.trans hbytes
      · simp [Payload.kind, readValue, readHex, hread, Except.map, blame, Failure.data]

theorem blame_ne_zero (kind : Kind) : blame kind ≠ 0 := by
  cases kind <;> simp [blame, Failure.badUsage, Failure.invalidData]

theorem blame_eq_badUsage_iff {kind : Kind} :
    blame kind = Failure.badUsage ↔ kind.shape ≠ .buffer := by
  cases kind <;> simp [blame, Kind.shape, Failure.badUsage, Failure.invalidData]

theorem blame_eq_invalidData_iff {kind : Kind} :
    blame kind = Failure.invalidData ↔ kind.shape = .buffer := by
  cases kind <;> simp [blame, Kind.shape, Failure.badUsage, Failure.invalidData]

theorem code_of_failure_none {a : Answer} (h : a.failure = none) : a.code = 0 := by
  rw [Answer.code, h]
  rfl

theorem encode_cases (hc : c.Coherent) (request : EncodeRequest) (format : Format) :
    (c.get? request.name = none ∧ (encode c request format).code = Failure.badUsage) ∨
      ∃ d, c.get? request.name = some d ∧
        (Suits d.kind request.value.toList ∧ (encode c request format).failure = none ∨
          ¬ Suits d.kind request.value.toList ∧
            (encode c request format).code = blame d.kind) := by
  cases hd : c.get? request.name with
  | none =>
    refine Or.inl ⟨rfl, ?_⟩
    simp [encode, encodeRequest, hd, Answer.code, Answer.failed, Failure.usage]
  | some d =>
    have hsound := hc.sound d (hc.get?_eq_some_iff.1 hd).1
    refine Or.inr ⟨d, rfl, ?_⟩
    rcases encodeDefinition_cases hsound request with
      ⟨hsuits, bytes, hbytes⟩ | ⟨hunfit, failure, hfailure, hcode⟩
    · refine Or.inl ⟨hsuits, ?_⟩
      simp [encode, encodeRequest, hd, hbytes, Except.map]
    · refine Or.inr ⟨hunfit, ?_⟩
      simp [encode, encodeRequest, hd, hfailure, Except.map, Answer.code, Answer.failed, hcode]

theorem encode_blames (hc : c.Coherent) (request : EncodeRequest) (format : Format) :
    ((encode c request format).code = Failure.badUsage ↔ c.get? request.name = none ∨
      ∃ d, c.get? request.name = some d ∧ d.kind.shape ≠ .buffer ∧
        ¬ Suits d.kind request.value.toList) ∧
    ((encode c request format).code = Failure.invalidData ↔
      ∃ d, c.get? request.name = some d ∧ d.kind.shape = .buffer ∧
        ¬ Suits d.kind request.value.toList) ∧
    ((encode c request format).failure = none ↔
      ∃ d, c.get? request.name = some d ∧ Suits d.kind request.value.toList) := by
  have hfails : (encode c request format).code ≠ 0 →
      (encode c request format).failure ≠ none := mt code_of_failure_none
  rcases encode_cases hc request format with
    ⟨hunknown, hcode⟩ | ⟨d, hd, ⟨hsuits, hnone⟩ | ⟨hunfit, hcode⟩⟩
  · have hfailed := hfails (by rw [hcode]; decide)
    simp [hunknown, hcode, hfailed, Failure.badUsage, Failure.invalidData]
  · have hcode := code_of_failure_none hnone
    simp [hd, hcode, hsuits, hnone, Failure.badUsage, Failure.invalidData]
  · have hfailed := hfails (hcode ▸ blame_ne_zero d.kind)
    simp [hd, hcode, hunfit, hfailed, blame_eq_badUsage_iff, blame_eq_invalidData_iff]

end Encoding

section Running

variable {c : Catalog}

theorem decode_blames (hc : c.Coherent) (hex : String) (format : Format) :
    (decode c hex format).failure = none ∨
      (decode c hex format).code = Failure.invalidData := by
  unfold decode
  split
  · next failure hread =>
    simp only [readHex] at hread
    split at hread
    · cases hread
    · cases hread
      exact Or.inr rfl
  · split
    · next hdecode => exact Or.inr (code_of_decodeBytes hc hdecode)
    · exact Or.inl rfl

theorem readLog_blames {text : List Char} {failure : Failure} (h : readLog text = .error failure) :
    failure.code = Failure.invalidData := by
  unfold readLog at h
  split at h
  · cases h
  · cases h
    rfl

theorem replay_blames (hc : c.Coherent) {content : ByteArray} {text : String}
    (htext : String.fromUTF8? content = some text) (path : String) (strict : Bool)
    (format : Format) :
    (replay c path (.file content) strict format).failure = none ∨
      (replay c path (.file content) strict format).code = Failure.invalidData := by
  have hload : loadLog path (.file content) = readLog text.toList := by
    simp only [loadLog, htext]
  obtain ⟨d, hreceiver, -⟩ := exists_receiver hc
  simp only [replay, hload]
  cases hlog : readLog text.toList with
  | error failure => exact Or.inr (readLog_blames hlog)
  | ok entries =>
    simp only [replayEntries, hreceiver]
    cases strict with
    | false => exact Or.inl rfl
    | true =>
      simp only [if_true, strictFailure]
      split
      · exact Or.inr rfl
      · exact Or.inl rfl

/-- The file that a command reads besides its catalog, if it reads one, is a text. -/
def Readable (files : Files) (i : Invocation) : Prop :=
  ∀ file strict, i.request = .replay file strict →
    ∃ content text, files file = .file content ∧ String.fromUTF8? content = some text

theorem run_blames (hc : c.Coherent) {files : Files} {i : Invocation}
    (hload : loadCatalog files i.signals = .ok c) (hreadable : Readable files i)
    (standard : Format) :
    (i.run standard files).code ∈ [0, Failure.invalidData, Failure.badUsage] := by
  have hsucceeds : ∀ {a : Answer}, a.failure = none ∨ a.code = Failure.invalidData →
      a.code ∈ [0, Failure.invalidData, Failure.badUsage] := by
    rintro a (h | h)
    · rw [code_of_failure_none h]
      decide
    · rw [h]
      decide
  cases hrequest : i.request with
  | catalog =>
    simp only [Invocation.run, hrequest, withCatalog, hload]
    cases i.format.getD standard <;> exact hsucceeds (Or.inl rfl)
  | encode request =>
    simp only [Invocation.run, hrequest, withCatalog, hload]
    rcases encode_cases hc request (i.format.getD standard) with
      ⟨-, hcode⟩ | ⟨d, -, ⟨-, hnone⟩ | ⟨-, hcode⟩⟩
    · rw [hcode]
      decide
    · exact hsucceeds (Or.inl hnone)
    · rw [hcode]
      cases d.kind <;> simp [blame]
  | decode hex =>
    simp only [Invocation.run, hrequest, withCatalog, hload]
    exact hsucceeds (decode_blames hc hex _)
  | replay file strict =>
    obtain ⟨content, text, hfile, htext⟩ := hreadable file strict hrequest
    simp only [Invocation.run, hrequest, withCatalog, hload, hfile]
    exact hsucceeds (replay_blames hc htext file strict _)
  | version extended =>
    simp only [Invocation.run, hrequest, version]
    cases extended <;> exact hsucceeds (Or.inl rfl)

end Running

/-- The command line never blames itself for bad input. Decoding fails with bad data only. Encoding
fails for bad use if the name is unknown or the value is no finite number or word that the signal
could take, for bad data if the value of a byte string is not hexadecimal or has another length
than the signal, and not otherwise. A replay of a text fails with bad data only. So once the
catalog and the file of a command have been read, its failure is neither one of the program nor one
of the files. -/
theorem input_takes_the_blame {c : Catalog} (hc : c.Reachable) :
    (∀ hex format, (decode c hex format).failure = none ∨
      (decode c hex format).code = Failure.invalidData) ∧
    (∀ request format,
      ((encode c request format).code = Failure.badUsage ↔ c.get? request.name = none ∨
        ∃ d, c.get? request.name = some d ∧ d.kind.shape ≠ .buffer ∧
          ¬ Suits d.kind request.value.toList) ∧
      ((encode c request format).code = Failure.invalidData ↔
        ∃ d, c.get? request.name = some d ∧ d.kind.shape = .buffer ∧
          ¬ Suits d.kind request.value.toList) ∧
      ((encode c request format).failure = none ↔
        ∃ d, c.get? request.name = some d ∧ Suits d.kind request.value.toList)) ∧
    (∀ path content text strict format, String.fromUTF8? content = some text →
      (replay c path (.file content) strict format).failure = none ∨
        (replay c path (.file content) strict format).code = Failure.invalidData) ∧
    ∀ (i : Invocation) standard files, loadCatalog files i.signals = .ok c → Readable files i →
      (i.run standard files).code ≠ Failure.internal ∧
        (i.run standard files).code ≠ Failure.failed := by
  have hcoherent := hc.coherent
  refine ⟨decode_blames hcoherent, encode_blames hcoherent, ?_, ?_⟩
  · intro path content text strict format htext
    exact replay_blames hcoherent htext path strict format
  · intro i standard files hload hreadable
    have hmem := run_blames hcoherent hload hreadable standard
    constructor
    · rintro h
      rw [h] at hmem
      exact absurd hmem (by decide)
    · rintro h
      rw [h] at hmem
      exact absurd hmem (by decide)

def sampleLog : String := "soon 0a"

/-- An infinite altitude is bad use, and the log is bad data. -/
theorem sampleLog_takes_the_blame : Catalog.builtin.Reachable ∧
    (encode .builtin ⟨"altitude_msl", "inf", 0, 0x80, 0⟩ .raw).code = Failure.badUsage ∧
    (replay .builtin "log" (.file sampleLog.toUTF8) false .json).code = Failure.invalidData ∧
    (Invocation.run ⟨none, none, .replay "log" false⟩ .json
      fun _ => .file sampleLog.toUTF8).code ≠ Failure.internal := by
  have hreachable : Catalog.builtin.Reachable := .origin (o := .builtin) rfl
  obtain ⟨-, hencode, hreplay, hrun⟩ := input_takes_the_blame hreachable
  have htext : String.fromUTF8? sampleLog.toUTF8 = some sampleLog := by decide +kernel
  refine ⟨hreachable, ?_, ?_, ?_⟩
  · have hd : Catalog.builtin.get? "altitude_msl" =
        some (Catalog.quantity "altitude_msl" 10 20 "ft" "Altitude above mean sea level") := by
      decide +kernel
    refine (hencode _ .raw).1.2 (Or.inr ⟨_, hd, by decide, ?_⟩)
    rintro ⟨x, hread, hfinite⟩
    have hinfinite : Decimal.read (Text.trim "inf".toList) = .ok (.infinite false) := by
      decide +kernel
    cases hinfinite.symm.trans hread
    cases hfinite
  · rcases hreplay "log" _ _ false .json htext with hnone | hcode
    · have hfails : (replay .builtin "log" (.file sampleLog.toUTF8) false .json).failure.isSome =
          true := by decide +kernel
      rw [hnone] at hfails
      cases hfails
    · exact hcode
  · refine (hrun _ .json _ rfl ?_).1
    rintro file strict ⟨⟩
    exact ⟨_, _, rfl, htext⟩

end Command
end InstrumentBus
