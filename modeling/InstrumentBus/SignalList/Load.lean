import InstrumentBus.SignalList.Schema
import InstrumentBus.SignalList.Draft
import InstrumentBus.Json.Parser
import InstrumentBus.Storage.Source

/-!
# Loading signal lists

A list is refused at the first thing that is wrong with it: its size, its JSON,
its outline, its types, its version, the number of signals, and then the first
signal that is wrong by itself or against those before it.
-/

namespace InstrumentBus
namespace SignalList

open Catalog Storage

/-- Why the bytes of a list cannot be had. -/
inductive LoadFault where
  | tooLarge (size : Nat)
  | fileTooLarge (size : Nat) (path : String)
  | nowhere (path : String) (fault : PathFault)
  | notRegular (path : String)
  | notText (path : String)
  deriving DecidableEq, Repr

def LoadFault.message : LoadFault → String
  | .tooLarge size => s!"signal list too large ({size} bytes)"
  | .fileTooLarge size path => s!"signal list too large ({size} bytes): {path}"
  | .nowhere path fault => s!"{path}: {fault.message}"
  | .notRegular path => s!"not a regular file: {path}"
  | .notText path => s!"failed reading {path}: stream did not contain valid UTF-8"

inductive Error where
  | loadFailed (fault : LoadFault)
  | notJson (fault : Json.Fault)
  /-- Well-formed JSON without the types of a signal list. -/
  | mistyped
  | violated (violations : List Violation)
  | catalog (e : Catalog.Error)

def Error.message : Error → String
  | .loadFailed fault => s!"failed to load signal list: {fault.message}"
  | .notJson _ | .mistyped => "signal list is not valid JSON"
  | .violated violations => s!"signal list failed validation: {report violations}"
  | .catalog e => e.message

/-- A draft's signals as definitions added to a catalog, in list order. -/
def addDrafts (c : Catalog) : List SignalDraft → Except Catalog.Error Catalog
  | [] => .ok c
  | s :: rest =>
    match s.definition with
    | .error e => .error e
    | .ok d =>
      match c.insert d with
      | .error e => .error e
      | .ok c => addDrafts c rest

/-- The catalog a draft describes. -/
def ofDraft (draft : ListDraft) (limits : Limits) : Except Catalog.Error Catalog :=
  if draft.version < 1 ∨ 0x100000000 ≤ draft.version then .error (.invalidVersion draft.version)
  else if limits.maxSignals < draft.signals.length then
    .error (.tooManySignals draft.signals.length limits.maxSignals)
  else
    match Catalog.new (UInt32.ofNat draft.version.toNat) limits with
    | .error e => .error e
    | .ok c => addDrafts c draft.signals

/-- The catalog a document describes. -/
def ofDocument (document : Json.Value) (limits : Limits) : Except Error Catalog :=
  let violations := if limits.checkSchema then violations document else []
  if !violations.isEmpty then .error (.violated violations)
  else
    match readList document with
    | none => .error .mistyped
    | some draft =>
      match ofDraft draft limits with
      | .error e => .error (.catalog e)
      | .ok c => .ok c

/-- The catalog a text describes. Its size counts in UTF-8 bytes. -/
def ofText (text : String) (limits : Limits) : Except Error Catalog :=
  if limits.maxFileSize < text.utf8ByteSize then
    .error (.loadFailed (.tooLarge text.utf8ByteSize))
  else
    match Json.parse text.toList with
    | .error fault => .error (.notJson fault)
    | .ok document => ofDocument document limits

/-- The catalog in a file. -/
def ofSource (path : String) (source : Source) (limits : Limits) : Except Error Catalog :=
  match source with
  | .nowhere fault => .error (.loadFailed (.nowhere path fault))
  | .directory => .error (.loadFailed (.notRegular path))
  | .file content =>
    if limits.maxFileSize < content.size then
      .error (.loadFailed (.fileTooLarge content.size path))
    else
      match String.fromUTF8? content with
      | none => .error (.loadFailed (.notText path))
      | some text => ofText text limits

section Loaded

variable {limits : Limits} {c : Catalog}

/-- A list whose version and count are in range starts with an empty catalog of its version. -/
theorem ofDraft_of_counted {draft : ListDraft} (hversion : 1 ≤ draft.version)
    (hbelow : draft.version < 0x100000000) (hcount : draft.signals.length ≤ limits.maxSignals) :
    ofDraft draft limits =
      addDrafts (blank (UInt32.ofNat draft.version.toNat) limits) draft.signals := by
  have hrange : ¬ (draft.version < 1 ∨ 0x100000000 ≤ draft.version) := by omega
  have hnonzero : UInt32.ofNat draft.version.toNat ≠ 0 := by
    intro h
    have hvalue := congrArg UInt32.toNat h
    rw [UInt32.toNat_ofNat', UInt32.toNat_zero] at hvalue
    omega
  rw [ofDraft, if_neg hrange, if_neg (Nat.not_lt.2 hcount), new_eq_ok_iff.2 ⟨hnonzero, rfl⟩]

theorem ofDraft_eq_ok_iff {draft : ListDraft} :
    ofDraft draft limits = .ok c ↔ 1 ≤ draft.version ∧ draft.version < 0x100000000 ∧
      draft.signals.length ≤ limits.maxSignals ∧
      addDrafts (blank (UInt32.ofNat draft.version.toNat) limits) draft.signals = .ok c := by
  by_cases hrange : 1 ≤ draft.version ∧ draft.version < 0x100000000
  · by_cases hcount : draft.signals.length ≤ limits.maxSignals
    · rw [ofDraft_of_counted hrange.1 hrange.2 hcount]
      simp [hrange, hcount]
    · have hversion : ¬ (draft.version < 1 ∨ 0x100000000 ≤ draft.version) := by omega
      simp [ofDraft, hversion, hcount, Nat.lt_of_not_le hcount]
  · have hversion : draft.version < 1 ∨ 0x100000000 ≤ draft.version := by omega
    rw [ofDraft, if_pos hversion]
    simp only [reduceCtorEq, false_iff]
    omega

/-- What is reported of a document that can be read as a list is what is reported of the list. -/
theorem ofText_of_readList {text : String} {document : Json.Value} {draft : ListDraft}
    (hsize : text.utf8ByteSize ≤ limits.maxFileSize)
    (hparse : Json.parse text.toList = .ok document)
    (hschema : limits.checkSchema = true → violations document = [])
    (hread : readList document = some draft) :
    ofText text limits = (ofDraft draft limits).mapError Error.catalog := by
  have hclean : (if limits.checkSchema = true then violations document else []) = [] :=
    ite_eq_right_iff.2 hschema
  rw [ofText, if_neg (Nat.not_lt.2 hsize), hparse]
  simp only [ofDocument, hclean, hread, List.isEmpty_nil, Bool.not_true, Bool.false_eq_true,
    ↓reduceIte]
  cases ofDraft draft limits <;> rfl

theorem ofDocument_eq_ok_iff {document : Json.Value} :
    ofDocument document limits = .ok c ↔
      (limits.checkSchema = true → violations document = []) ∧
      ∃ draft, readList document = some draft ∧ ofDraft draft limits = .ok c := by
  unfold ofDocument
  by_cases h : limits.checkSchema = true → violations document = []
  · have hclean : (if limits.checkSchema = true then violations document else []) = [] :=
      ite_eq_right_iff.2 h
    rw [and_iff_right h]
    cases hread : readList document with
    | none => simp [hclean]
    | some draft => cases hdraft : ofDraft draft limits <;> simp [hclean, hdraft]
  · obtain ⟨hchecked, hviolated⟩ := Classical.not_imp.1 h
    simp [hchecked, hviolated]

theorem ofText_eq_ok_iff {text : String} :
    ofText text limits = .ok c ↔ text.utf8ByteSize ≤ limits.maxFileSize ∧
      ∃ document, Json.parse text.toList = .ok document ∧ ofDocument document limits = .ok c := by
  unfold ofText
  split
  · next hsize =>
    simp only [reduceCtorEq, false_iff]
    omega
  · next hsize =>
    have hfits : text.utf8ByteSize ≤ limits.maxFileSize := Nat.le_of_not_lt hsize
    cases Json.parse text.toList with
    | error fault => simp
    | ok document => simp [hfits]

theorem ofSource_eq_ok_iff {path : String} {source : Source} :
    ofSource path source limits = .ok c ↔ ∃ content text, source = .file content ∧
      content.size ≤ limits.maxFileSize ∧ String.fromUTF8? content = some text ∧
      ofText text limits = .ok c := by
  cases source with
  | nowhere fault => simp [ofSource]
  | directory => simp [ofSource]
  | file content =>
    unfold ofSource
    dsimp only
    split
    · next hsize =>
      have hnot : ¬ content.size ≤ limits.maxFileSize := Nat.not_le_of_lt hsize
      simp [hnot]
    · next hsize =>
      have hfits : content.size ≤ limits.maxFileSize := Nat.le_of_not_lt hsize
      cases htext : String.fromUTF8? content with
      | none => simp [htext]
      | some text => simp [htext, hfits]

end Loaded

end SignalList
end InstrumentBus
