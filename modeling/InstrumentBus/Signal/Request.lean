import InstrumentBus.Signal.Field
import InstrumentBus.Wire.Cursor

/-!
# Requests to a reader

What can be asked of a reader that is moved in place: every field of a stream, a header ahead, and
to start over. A reply tells the result of a read, and what its operand and the reader are left as.
-/

namespace InstrumentBus
namespace Signal

open Wire

namespace Header

/-- The fields of a header one after the other. If one is cut off, those before it are passed. -/
def fields : Reading Wire.Error Header := do
  let device ← Reading.byte
  let priority ← Reading.byte
  let category ← Reading.byte
  let subcategory ← Reading.byte
  let timestamp ← Reading.word
  return ⟨device, ⟨priority⟩, ⟨category, subcategory⟩, timestamp⟩

/-- The next header, which the reader passes as a whole or not at all. -/
def take : Reading Wire.Error Header := fields.attempt

/-- The next header, which the reader does not pass. -/
def takeAhead : Reading Wire.Error Header := Reading.look take

end Header

/-- A read from the wire as a part of what is received for a signal. -/
def receiving {α : Type} : Reading Wire.Error α → Reading Error α := ExceptT.adapt .wire

namespace Payload

/-- The bytes of a string behind the length in front of them, which must be the one expected. -/
def stringOf (expected : Nat) (length : UInt32) : Reading Error Payload :=
  if length.toNat ≠ expected then throw (.sizeMismatch expected length.toNat)
  else do return .buffer (← receiving (Reading.take length.toNat))

/-- The parts of a payload like the one held. If one is cut off or wrong, those before it are
passed. -/
def content : Payload → Reading Error Payload
  | .scaled held => do return .scaled (← receiving (Reading.fixed held))
  | .integer _ => do return .integer (← receiving Reading.word)
  | .buffer held => do stringOf held.length (← receiving Reading.word)

/-- The next payload like the one held, which the reader passes as a whole or not at all. -/
def take (held : Payload) : Reading Error Payload := held.content.attempt

end Payload

/-- What a read leaves: its result, its operand and the reader. -/
structure Reply where
  result : Except Error Field
  operand : Template
  reader : Reader

namespace Template

/-- The reply of a read that does not touch its operand. -/
def reply {α : Type} (t : Template) (wrap : α → Field) (x : Reading Error α) (r : Reader) : Reply :=
  ⟨(x r).1.map wrap, t, (x r).2⟩

/-- Read in place. A fixed-point value is read into the operand. -/
def ask (t : Template) (r : Reader) : Reply :=
  match t with
  | .byte => t.reply .byte (receiving Reading.byte) r
  | .half => t.reply .half (receiving Reading.half) r
  | .word => t.reply .word (receiving Reading.word) r
  | .signedWord => t.reply .signedWord (receiving Reading.signedWord) r
  | .bytes length => t.reply .bytes (receiving (Reading.take length)) r
  | .fixed target =>
    match Reading.fixedInto target r with
    | (.error e, target, after) => ⟨.error (.wire e), .fixed target, after⟩
    | (.ok (), target, after) => ⟨.ok (.fixed target), .fixed target, after⟩
  | .header => t.reply .header (receiving Header.take) r
  | .headerAhead => t.reply .header (receiving Header.takeAhead) r
  | .payload held => t.reply .payload held.take r

/-- The operand once a value is read: a fixed-point value is put into it. -/
def holding : Template → Field → Template
  | .fixed _, .fixed value => .fixed value
  | t, _ => t

end Template

inductive Request where
  | read (t : Template)
  | startOver

namespace Request

/-- The reader after a request, whether or not it succeeded. -/
def serve (r : Reader) : Request → Reader
  | .read t => (t.ask r).reader
  | .startOver => r.reset

/-- The reader that is left when requests were made of a fresh reader on a buffer. -/
def after (buffer : List UInt8) (requests : List Request) : Reader :=
  requests.foldl serve (Reader.ofBytes buffer)

end Request

section Reads

variable {r : Reader}

theorem receiving_eq {α : Type} {x : Reading Wire.Error α} {y : Except Wire.Error (α × Reader)}
    (h : x r = Reading.settle r y) :
    receiving x r = Reading.settle r (y.mapError .wire) := Reading.settle_adapt h _

theorem outcome_receiving {α : Type} {x : Reading Wire.Error α}
    {y : Except Wire.Error (α × Reader)} (h : x r = Reading.settle r y) :
    Reading.outcome (receiving x) r = y.mapError .wire :=
  Reading.outcome_of_settle (receiving_eq h)

theorem Header.outcome_fields (r : Reader) : Reading.outcome Header.fields r = Header.read r := by
  simp only [Header.fields, Reading.outcome_bind, Reading.outcome_pure,
    Reading.outcome_of_settle (Reading.byte_eq _), Reading.outcome_of_settle (Reading.word_eq _)]
  rfl

theorem Header.take_eq (r : Reader) : Header.take r = Reading.settle r (Header.read r) := by
  rw [Header.take, Reading.attempt_eq, Header.outcome_fields]

theorem Header.takeAhead_eq (r : Reader) :
    Header.takeAhead r = Reading.settle r ((Header.peek r).map fun h => (h, r)) := by
  rw [Header.takeAhead, Reading.look_eq (Header.take_eq r), Header.peek]
  cases Header.read r <;> rfl

theorem Payload.outcome_stringOf (expected : Nat) (length : UInt32) (r : Reader) :
    Reading.outcome (stringOf expected length) r =
      if length.toNat ≠ expected then .error (.sizeMismatch expected length.toNat)
      else
        match r.bytes expected with
        | .ok (bytes, after) => .ok (.buffer bytes, after)
        | .error e => .error (.wire e) := by
  unfold stringOf
  split
  · rfl
  · next hlength =>
    rw [Reading.outcome_bind, outcome_receiving (Reading.take_eq r length.toNat),
      Decidable.not_not.1 hlength]
    cases r.bytes expected <;> rfl

theorem Payload.outcome_content (held : Payload) (r : Reader) :
    Reading.outcome held.content r = held.read r := by
  cases held with
  | scaled held =>
    rw [content, Reading.outcome_bind, outcome_receiving (Reading.fixed_eq r held), read]
    cases r.fixed held <;> rfl
  | integer held =>
    rw [content, Reading.outcome_bind, outcome_receiving (Reading.word_eq r), read]
    cases r.word <;> rfl
  | buffer held =>
    rw [content, Reading.outcome_bind, outcome_receiving (Reading.word_eq r), read]
    rcases r.word with e | ⟨length, after⟩
    · rfl
    · exact outcome_stringOf held.length length after

theorem Payload.take_eq (held : Payload) (r : Reader) :
    held.take r = Reading.settle r (held.read r) := by
  rw [Payload.take, Reading.attempt_eq, outcome_content]

end Reads

namespace Template

/-- The reply of a read that is all or nothing. -/
def settled (t : Template) (r : Reader) : Except Error (Field × Reader) → Reply
  | .error e => ⟨.error e, t, r⟩
  | .ok (value, after) => ⟨.ok value, t.holding value, after⟩

theorem reply_wired {α : Type} {t : Template} {wrap : α → Field} {x : Reading Wire.Error α}
    {r : Reader} {y : Except Wire.Error (α × Reader)} (h : x r = Reading.settle r y)
    (ht : ∀ a, t.holding (wrap a) = t) :
    t.reply wrap (receiving x) r = t.settled r (Field.wired wrap y) := by
  rw [reply, receiving_eq h]
  rcases y with e | ⟨a, after⟩
  · rfl
  · change (⟨.ok (wrap a), t, after⟩ : Reply) = ⟨.ok (wrap a), t.holding (wrap a), after⟩
    rw [ht]

/-- To read in place is to read a field; a fault leaves the operand and the reader as they were. -/
theorem ask_eq (t : Template) (r : Reader) : t.ask r = t.settled r (Field.read t r) := by
  cases t with
  | byte => exact reply_wired (Reading.byte_eq r) fun _ => rfl
  | half => exact reply_wired (Reading.half_eq r) fun _ => rfl
  | word => exact reply_wired (Reading.word_eq r) fun _ => rfl
  | signedWord => exact reply_wired (Reading.signedWord_eq r) fun _ => rfl
  | bytes length => exact reply_wired (Reading.take_eq r length) fun _ => rfl
  | fixed target =>
    rw [ask, Reading.fixedInto_eq, Field.read]
    rcases r.fixed target with _ | ⟨_, _⟩ <;> rfl
  | header => exact reply_wired (Header.take_eq r) fun _ => rfl
  | headerAhead => exact reply_wired (Header.takeAhead_eq r) fun _ => rfl
  | payload held =>
    rw [ask, reply, Payload.take_eq, Field.read]
    rcases held.read r with _ | ⟨_, _⟩ <;> rfl

end Template

end Signal
end InstrumentBus
