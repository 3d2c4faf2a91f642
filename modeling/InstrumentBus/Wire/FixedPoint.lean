import InstrumentBus.Wire.Word
import InstrumentBus.Wire.Error
import InstrumentBus.Numeric.Arithmetic

/-!
# Fixed-point values

An engineering value that travels as a 32-bit multiple of a resolution. The value
is held as a double between the least and the greatest multiple; encoding
truncates toward zero, except that a quotient within a few units of rounding of a
whole number counts as that number.
-/

namespace InstrumentBus
namespace Wire

open Numeric

structure FixedPoint where
  resolution : Binary64
  value : Binary64
  deriving DecidableEq

/-- The resolution that spreads all words over a full turn of degrees. -/
def degreesPerTurnStep : Binary64 := (Binary64.ofNat 180).div (Binary64.ofNat 0x80000000)

/-- How far a quotient may be from a whole number, relative to it, to count as it: `2 ^ -49`. -/
def snapTolerance : Binary64 := Binary64.ofRatio false unitsPerOne 0x2000000000000

/-- A resolution must be finite and positive. -/
def isResolution (resolution : Binary64) : Bool :=
  resolution.isFinite && (Binary64.zero false).lt resolution

/-- The multiple of a resolution that a word stands for. -/
def latticePoint (resolution : Binary64) (raw : UInt32) : Binary64 :=
  (Binary64.ofInt (signedValue raw)).mul resolution

/-- The integer a quotient is encoded as: the nearest one if it is within tolerance,
else the one toward zero, held between the least and the greatest word. -/
def snap (quotient : Binary64) : Int :=
  let nearest := quotient.round
  let tolerance := snapTolerance.mul (nearest.abs.max (Binary64.ofNat 1))
  let whole :=
    if (quotient.sub nearest).abs.le tolerance then nearest else quotient.truncate
  whole.toIntClamped (-0x80000000) 0x7fffffff

namespace FixedPoint

/-- Zero in a given resolution. -/
def new (resolution : Binary64) : Except Error FixedPoint :=
  if isResolution resolution then .ok ⟨resolution, .zero false⟩
  else .error (.badResolution resolution)

/-- The value of a word in a given resolution. -/
def ofRaw (resolution : Binary64) (raw : UInt32) : Except Error FixedPoint :=
  (new resolution).map fun f => { f with value := latticePoint f.resolution raw }

/-- The greatest value that fits a word. -/
def maximum (f : FixedPoint) : Binary64 := (Binary64.ofInt 0x7fffffff).mul f.resolution

/-- The least value that fits a word. -/
def minimum (f : FixedPoint) : Binary64 := (Binary64.ofInt (-0x80000000)).mul f.resolution

/-- Hold a number, moved to the nearer limit if it lies outside; NaN is held as zero. -/
def set (f : FixedPoint) (x : Binary64) : FixedPoint :=
  { f with value := if x.isNaN then .zero false else x.clamp f.minimum f.maximum }

/-- The word of the value held. -/
def encode (f : FixedPoint) : UInt32 := wordOf (snap (f.value.div f.resolution))

/-- Hold the value of a word. -/
def decode (f : FixedPoint) (raw : UInt32) : FixedPoint :=
  { f with value := latticePoint f.resolution raw }

@[simp] theorem set_resolution (f : FixedPoint) (x : Binary64) :
    (f.set x).resolution = f.resolution := by rw [set]

@[simp] theorem decode_resolution (f : FixedPoint) (raw : UInt32) :
    (f.decode raw).resolution = f.resolution := by rw [decode]

theorem new_eq_ok_iff {resolution : Binary64} {f : FixedPoint} :
    new resolution = .ok f ↔ isResolution resolution = true ∧ f = ⟨resolution, .zero false⟩ := by
  unfold new
  split
  · next h => simp [h, eq_comm]
  · next h => simp [h]

end FixedPoint

/-- A change of a fixed-point value. -/
inductive FixedPoint.Step where
  | set (x : Binary64)
  | decode (raw : UInt32)
  | requantize

def FixedPoint.step (f : FixedPoint) : FixedPoint.Step → FixedPoint
  | .set x => f.set x
  | .decode raw => f.decode raw
  | .requantize => f.decode f.encode

/-- The values held before the first step and after each one. -/
def FixedPoint.trace (f : FixedPoint) : List FixedPoint.Step → List FixedPoint
  | [] => [f]
  | s :: steps => f :: (f.step s).trace steps

end Wire
end InstrumentBus
