import InstrumentBus.Signal.Priority

/-!
# Node settings

What a node stamps on the datagrams it sends, and the checksum, if any, that
follows every datagram.
-/

namespace InstrumentBus
namespace Dictionary

open Signal

/-- A checksum over the header and payload of a datagram. -/
abbrev Integrity := List UInt8 → UInt16

namespace Integrity

/-- The width of a checksum on the wire. -/
def size : Nat := 2

def zero : Integrity := fun _ => 0

/-- The sum of the bytes. -/
def sum : Integrity := fun data => data.foldl (fun acc b => acc + b.toUInt16) 0

/-- The bytes as coefficients at thirty-one, started from their number. -/
def polynomial : Integrity := fun data =>
  data.foldl (fun acc b => acc * 31 + b.toUInt16) (UInt16.ofNat data.length)

end Integrity

structure Config where
  device : UInt8
  priority : Priority
  integrity : Option Integrity

namespace Config

/-- Device zero, healthy with rank zero, no checksum. -/
def standard : Config := ⟨0, Priority.ofRank true 0, none⟩

/-- The bytes that follow a datagram. -/
def trailerSize (c : Config) : Nat := if c.integrity.isSome then Integrity.size else 0

def text (c : Config) : String :=
  s!"DictionaryConfig \x7b local_device: {c.device.toNat}, transmit_priority: Priority \x7b "
    ++ s!"healthy: {c.priority.healthy}, rank: {c.priority.rank.toNat} \x7d, "
    ++ s!"integrity: {c.integrity.isSome} \x7d"

end Config
end Dictionary
end InstrumentBus
