import InstrumentBus.Signal.Record

/-!
# Fields of a byte stream

Everything that can be written to a stream or read from it, as one type: bytes,
numbers, byte strings, fixed-point values, headers and payloads. A template says
what a read expects.
-/

namespace InstrumentBus
namespace Signal

open Wire

inductive Field where
  | byte (b : UInt8)
  | half (n : UInt16)
  | word (n : UInt32)
  | signedWord (n : Int)
  | bytes (content : List UInt8)
  | fixed (f : FixedPoint)
  | header (h : Header)
  | payload (p : Payload)

inductive Template where
  | byte
  | half
  | word
  | signedWord
  | bytes (length : Nat)
  | fixed (f : FixedPoint)
  | header
  /-- A header that is looked at and not passed. -/
  | headerAhead
  | payload (p : Payload)

namespace Field

def parts : Field → List (List UInt8)
  | .byte b => [[b]]
  | .half n => [halfBytes n]
  | .word n => [wordBytes32 n]
  | .signedWord n => [wordBytes32 (wordOf n)]
  | .bytes content => [content]
  | .fixed f => [f.bytes]
  | .header h => h.parts
  | .payload p => p.parts

/-- The full encoding of a field. -/
def encoding (f : Field) : List UInt8 := f.parts.flatten

def write (f : Field) (w : Writer) : Except Wire.Error Unit × Writer := w.putAll f.parts

/-- Write a field for a signal. A payload may be refused before anything is written. -/
def send (f : Field) (w : Writer) : Except Error Unit × Writer :=
  match f with
  | .payload p => p.write w
  | _ => sending (f.write w)

/-- A value read from the wire as a field. -/
def wired {α : Type} (wrap : α → Field) :
    Except Wire.Error (α × Reader) → Except Error (Field × Reader)
  | .ok (x, r) => .ok (wrap x, r)
  | .error e => .error (.wire e)

/-- The field a reader stands at. -/
def read (t : Template) (r : Reader) : Except Error (Field × Reader) :=
  match t with
  | .byte => wired .byte r.byte
  | .half => wired .half r.half
  | .word => wired .word r.word
  | .signedWord => wired .signedWord r.signedWord
  | .bytes length => wired .bytes (r.bytes length)
  | .fixed f => wired .fixed (r.fixed f)
  | .header => wired .header (Header.read r)
  | .headerAhead => wired .header ((Header.peek r).map fun h => (h, r))
  | .payload p =>
    match p.read r with
    | .ok (p, r) => .ok (.payload p, r)
    | .error e => .error e

/-- The template that reads a field back. -/
def template : Field → Template
  | .byte _ => .byte
  | .half _ => .half
  | .word _ => .word
  | .signedWord _ => .signedWord
  | .bytes content => .bytes content.length
  | .fixed f => .fixed f
  | .header _ => .header
  | .payload p => .payload p

/-- There is an encoding of a field, be it a payload or not. -/
def Encodable : Field → Prop
  | .payload p => p.Encodable
  | _ => True

theorem send_of_encodable {f : Field} (h : f.Encodable) (w : Writer) :
    f.send w = sending (f.write w) := by
  cases f with
  | payload p => exact Payload.write_of_encodable h w
  | _ => rfl

end Field
end Signal
end InstrumentBus
