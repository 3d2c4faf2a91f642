import InstrumentBus.Proofs.Dictionary.Ingest
import InstrumentBus.Proofs.Dictionary.Registration

/-!
# Calls of a dictionary

What can be asked of a dictionary at a reading of its clock, one datagram at a time. A call
addresses at most one signal. What it returns and what it makes of that signal depends on
the record of that signal and on the settings alone, and every other record stays as it is.
-/

namespace InstrumentBus
namespace Dictionary

open Wire Signal

/-- An operation that takes in at most one datagram. -/
def Operation.Single : Operation → Prop
  | .drain _ => False
  | _ => True

def Operation.addressed? : Operation → Option Identity
  | .ingest bytes => namedBy bytes
  | .emit identity _ _ | .emitBytes identity | .size identity | .change identity _
  | .scaled identity | .scaledIfValid identity | .integer identity | .buffer identity
  | .isValid identity | .contains identity | .read identity => some identity
  | .set _ | .advance _ | .identities | .describe | .settings | .drain _ => none

/-- A datagram may be taken in from any place in a buffer and emitted into any other one.
Whatever else is asked is asked as an operation of a node. -/
inductive Request where
  | ingest (reader : Reader)
  | emit (identity : Identity) (w : Writer)
  | perform (op : Operation) (single : op.Single)

def Request.addressed? : Request → Option Identity
  | .ingest reader => namedBy reader.remaining
  | .emit identity _ => some identity
  | .perform op _ => op.addressed?

structure Call where
  now : UInt32
  request : Request

def Call.addresses (i : Identity) (c : Call) : Bool := c.request.addressed? = some i

def call (d : Dictionary) (c : Call) : Reply × Dictionary :=
  match c.request with
  | .ingest reader =>
    let (result, d', after) := d.ingest c.now reader
    (.ingested result after.position, d')
  | .emit identity w =>
    let (result, w') := d.emit identity w
    (.emitted result w', d)
  | .perform op _ =>
    let (reply, n) := Node.perform ⟨d, c.now⟩ op
    (reply, n.dictionary)

def after (d : Dictionary) (calls : List Call) : Dictionary :=
  calls.foldl (fun d c => (d.call c).2) d

/-- The calls of a run, each with the reply to it. -/
def transcript (d : Dictionary) : List Call → List (Call × Reply)
  | [] => []
  | c :: calls => (c, (d.call c).1) :: (d.call c).2.transcript calls

theorem after_cons (d : Dictionary) (c : Call) (calls : List Call) :
    d.after (c :: calls) = (d.call c).2.after calls := rfl

theorem after_append (d : Dictionary) (a b : List Call) :
    d.after (a ++ b) = (d.after a).after b := List.foldl_append

theorem Reachable.call {d : Dictionary} (h : d.Reachable) (c : Call) : (d.call c).2.Reachable := by
  obtain ⟨now, request⟩ := c
  cases request with
  | ingest reader => exact h.ingest now reader
  | emit identity w => exact h
  | perform op single => exact Node.reachable_perform (n := ⟨d, now⟩) h op

theorem Reachable.after {d : Dictionary} (h : d.Reachable) (calls : List Call) :
    (d.after calls).Reachable := by
  induction calls generalizing d with
  | nil => exact h
  | cons c calls ih => exact ih (h.call c)

theorem sameSignals_call (d : Dictionary) (c : Call) : SameSignals (d.call c).2 d := by
  obtain ⟨now, request⟩ := c
  cases request with
  | ingest reader => exact sameSignals_ingest d now reader
  | emit identity w => exact SameSignals.refl d
  | perform op single => exact Node.sameSignals_perform ⟨d, now⟩ op

theorem sameSignals_after (d : Dictionary) (calls : List Call) :
    SameSignals (d.after calls) d := by
  induction calls generalizing d with
  | nil => exact SameSignals.refl d
  | cons c calls ih => exact (ih _).trans (sameSignals_call d c)

/-- Dictionaries with the same settings and the same record of a signal. -/
structure Agree (i : Identity) (d e : Dictionary) : Prop where
  config : d.config = e.config
  record : d.record? i = e.record? i

namespace Agree

variable {i : Identity} {d e f : Dictionary}

theorem refl (i : Identity) (d : Dictionary) : Agree i d d := ⟨rfl, rfl⟩

theorem trans (hde : Agree i d e) (hef : Agree i e f) : Agree i d f :=
  ⟨hde.config.trans hef.config, hde.record.trans hef.record⟩

theorem replace (h : Agree i d e) (r : Record) : Agree i (d.replace r) (e.replace r) := by
  refine ⟨h.config, ?_⟩
  rw [record?_replace, record?_replace, h.record]

theorem replace_of_ne {r : Record} (hi : i ≠ r.identity) : Agree i (d.replace r) d :=
  ⟨rfl, record?_replace_of_ne hi⟩

theorem record_eq (h : Agree i d e) : d.record i = e.record i := by
  rw [Dictionary.record, Dictionary.record, h.record]

theorem sizeOf_eq (h : Agree i d e) (r : Record) : d.sizeOf r = e.sizeOf r := by
  rw [sizeOf, sizeOf, h.config]

theorem verify_eq (h : Agree i d e) (packet : Nat) (bytes : List UInt8) :
    d.verify packet bytes = e.verify packet bytes := by
  rw [verify, verify, h.config]

theorem skipTrailer_eq (h : Agree i d e) (reader : Reader) :
    d.skipTrailer reader = e.skipTrailer reader := by
  rw [skipTrailer, skipTrailer, h.config]

theorem ingest (h : Agree i d e) {reader : Reader} (hi : namedBy reader.remaining = some i)
    (now : UInt32) :
    (d.ingest now reader).1 = (e.ingest now reader).1 ∧
      (d.ingest now reader).2.2 = (e.ingest now reader).2.2 ∧
      Agree i (d.ingest now reader).2.1 (e.ingest now reader).2.1 := by
  obtain ⟨hle, hidentity⟩ := namedBy_eq_some_iff.1 hi
  rw [reader.length_remaining] at hle
  simp only [Dictionary.ingest, peek_of_le hle, hidentity, h.record_eq, h.sizeOf_eq, h.verify_eq,
    h.skipTrailer_eq]
  split
  · exact ⟨rfl, rfl, h⟩
  · split
    · exact ⟨rfl, rfl, h⟩
    · split
      · exact ⟨rfl, rfl, h⟩
      · split
        · exact ⟨rfl, rfl, h.replace _⟩
        · split
          · exact ⟨rfl, rfl, h.replace _⟩
          · exact ⟨rfl, rfl, h.replace _⟩

theorem emit_eq (h : Agree i d e) (w : Writer) : d.emit i w = e.emit i w := by
  simp only [emit, h.record_eq, h.sizeOf_eq, h.config]

theorem datagramSize_eq (h : Agree i d e) : d.datagramSize i = e.datagramSize i := by
  rw [datagramSize, datagramSize, h.record_eq, funext h.sizeOf_eq]

theorem emitBytes_eq (h : Agree i d e) : d.emitBytes i = e.emitBytes i := by
  simp only [emitBytes, h.datagramSize_eq, h.emit_eq]

theorem view_eq {α : Type} (h : Agree i d e) (shape : Shape) (read : Payload → Option α) :
    d.view i shape read = e.view i shape read := by
  simp only [view, h.record_eq]

theorem isValid_eq (h : Agree i d e) (now : UInt32) : d.isValid now i = e.isValid now i := by
  rw [isValid, isValid, h.record_eq]

theorem scaledIfValid_eq (h : Agree i d e) (now : UInt32) :
    d.scaledIfValid now i = e.scaledIfValid now i := by
  simp only [scaledIfValid, scaled, h.view_eq, h.isValid_eq]

theorem change (h : Agree i d e) (now : UInt32) (c : Change) :
    (∃ fault, d.change now i c = .error fault ∧ e.change now i c = .error fault) ∨
      ∃ d' e', d.change now i c = .ok d' ∧ e.change now i c = .ok e' ∧ Agree i d' e' := by
  simp only [Dictionary.change, h.record_eq]
  split
  · exact Or.inl ⟨_, rfl, rfl⟩
  · split
    · exact Or.inl ⟨_, rfl, rfl⟩
    · exact Or.inr ⟨_, _, rfl, rfl, h.replace _⟩

theorem perform (h : Agree i d e) (now : UInt32) {op : Operation} (hi : op.addressed? = some i) :
    (Node.perform ⟨d, now⟩ op).1 = (Node.perform ⟨e, now⟩ op).1 ∧
      Agree i (Node.perform ⟨d, now⟩ op).2.dictionary (Node.perform ⟨e, now⟩ op).2.dictionary := by
  cases op with
  | ingest bytes =>
    have hnamed : namedBy (Reader.ofBytes bytes).remaining = some i := hi
    obtain ⟨hresult, hreader, hafter⟩ := h.ingest hnamed now
    refine ⟨?_, hafter⟩
    simp only [Node.perform, hresult, hreader]
  | change j c =>
    cases hi
    rcases h.change now c with ⟨fault, hd, he⟩ | ⟨d', e', hd, he, hafter⟩
    · simp only [Node.perform, hd, he, true_and]
      exact h
    · simp only [Node.perform, hd, he, true_and]
      exact hafter
  | emit j capacity skip =>
    cases hi
    refine ⟨?_, h⟩
    simp only [Node.perform, h.emit_eq]
  | emitBytes j =>
    cases hi
    exact ⟨congrArg Reply.bytes h.emitBytes_eq, h⟩
  | size j =>
    cases hi
    exact ⟨congrArg Reply.size h.datagramSize_eq, h⟩
  | scaled j =>
    cases hi
    exact ⟨congrArg Reply.scaled (h.view_eq _ _), h⟩
  | scaledIfValid j =>
    cases hi
    exact ⟨congrArg Reply.scaledIfValid (h.scaledIfValid_eq now), h⟩
  | integer j =>
    cases hi
    exact ⟨congrArg Reply.integer (h.view_eq _ _), h⟩
  | buffer j =>
    cases hi
    exact ⟨congrArg Reply.bytes (h.view_eq _ _), h⟩
  | isValid j =>
    cases hi
    exact ⟨congrArg Reply.flag (h.isValid_eq now), h⟩
  | contains j =>
    cases hi
    refine ⟨?_, h⟩
    simp only [Node.perform, contains, h.record]
  | read j =>
    cases hi
    refine ⟨?_, h⟩
    simp only [Node.perform, h.record_eq]
  | _ => cases hi

end Agree

section Frame

variable {d d' : Dictionary} {i j : Identity}

/-- A datagram that does not name a signal leaves its record as it is. -/
theorem agree_ingest {reader : Reader} (hi : namedBy reader.remaining ≠ some i)
    (now : UInt32) : Agree i (d.ingest now reader).2.1 d := by
  rcases d.ingest_cases now reader with he | ⟨j, r, hj, hr, he⟩
  · rw [he]
    exact Agree.refl i d
  · rw [he]
    apply Agree.replace_of_ne
    rw [(r.receive_sameSignal reader now).identity, identity_of_record? hr]
    rintro rfl
    exact hi hj

theorem agree_change {now : UInt32} {c : Change} (h : d.change now j c = .ok d') (hi : i ≠ j) :
    Agree i d' d := by
  obtain ⟨r, r', hr, hc, rfl⟩ := change_eq_ok_iff.1 h
  apply Agree.replace_of_ne
  rwa [(Record.change_sameSignal hc).identity, identity_of_record? hr]

theorem agree_perform {now : UInt32} {op : Operation} (hs : op.Single)
    (hi : op.addressed? ≠ some i) : Agree i (Node.perform ⟨d, now⟩ op).2.dictionary d := by
  cases op with
  | ingest bytes =>
    have hother : namedBy (Reader.ofBytes bytes).remaining ≠ some i := hi
    exact agree_ingest hother now
  | drain bytes => exact hs.elim
  | change j c =>
    simp only [Node.perform]
    split
    · exact Agree.refl i d
    · next hc => exact agree_change hc fun hij => hi (hij ▸ rfl)
  | _ => exact Agree.refl i d

end Frame

variable {d e : Dictionary} {i : Identity} {c : Call}

/-- The reply to a call and the record it leaves of the signal it addresses depend on the
record of that signal alone. -/
theorem Agree.call (h : Agree i d e) (hc : c.addresses i = true) :
    (d.call c).1 = (e.call c).1 ∧ Agree i (d.call c).2 (e.call c).2 := by
  obtain ⟨now, request⟩ := c
  have hi : request.addressed? = some i := of_decide_eq_true hc
  cases request with
  | ingest reader =>
    obtain ⟨hresult, hreader, hafter⟩ := h.ingest hi now
    refine ⟨?_, hafter⟩
    simp only [Dictionary.call, hresult, hreader]
  | emit j w =>
    cases hi
    refine ⟨?_, h⟩
    simp only [Dictionary.call, h.emit_eq]
  | perform op single => exact h.perform now hi

theorem agree_call (hc : c.addresses i = false) : Agree i (d.call c).2 d := by
  obtain ⟨now, request⟩ := c
  have hi : request.addressed? ≠ some i := of_decide_eq_false hc
  cases request with
  | ingest reader => exact agree_ingest hi now
  | emit j w => exact Agree.refl i d
  | perform op single => exact agree_perform single hi

end Dictionary
end InstrumentBus
