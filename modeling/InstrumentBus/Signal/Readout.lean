import InstrumentBus.Signal.Payload

/-!
# Values for people

The text of a payload: a scaled value with as many decimal places as its
resolution needs, an integer in decimal, a byte string in hexadecimal.
-/

namespace InstrumentBus
namespace Signal

open Numeric

/-- A resolution this close below `10 ^ (-places)` still counts as it, by number of
places: `10 ^ (-10 ^ (-9))`, and what the negated logarithm loses when it is rounded. -/
def placesMargins : List Nat := [
  9999999976974149, 9999999976974145, 9999999976974140, 9999999976974143, 9999999976974137,
  9999999976974136, 9999999976974137, 9999999976974136, 9999999976974127, 9999999976974127,
  9999999976974127, 9999999976974126]

def placesMarginScale : Nat := 10000000000000000

/-- Whether a number of decimal places, with its margin, shows one step of a resolution. -/
def showsStep (units margin places : Nat) : Bool :=
  margin * unitsPerOne ≤ units * Nat.pow 10 places * placesMarginScale

/-- The decimal places needed to show one step of a resolution. What is no
resolution needs none. -/
def decimalPlaces : Binary64 → Nat
  | .finite false m =>
    if m.units = 0 then 0
    else placesMargins.zipIdx.findIdx fun (margin, places) => showsStep m.units margin places
  | _ => 0

def Payload.text : Payload → String
  | .scaled f => Decimal.fixed (decimalPlaces f.resolution) f.value
  | .integer n => toString n.toNat
  | .buffer bytes => Text.Hex.encodeText bytes

end Signal
end InstrumentBus
