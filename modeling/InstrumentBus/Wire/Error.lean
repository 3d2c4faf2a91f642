import InstrumentBus.Decimal.Layout

/-!
# Faults of reading and writing
-/

namespace InstrumentBus
namespace Wire

open Numeric

inductive Error where
  /-- Fewer bytes remain in the input than a value needs. -/
  | underrun (needed available : Nat)
  /-- Less room remains in the output than a value needs. -/
  | overflow (needed available : Nat)
  /-- A resolution must be finite and positive. -/
  | badResolution (resolution : Binary64)
  deriving DecidableEq

def Error.message : Error → String
  | .underrun needed available =>
    s!"buffer underrun ({needed} bytes needed, {available} available)"
  | .overflow needed available =>
    s!"buffer overflow ({needed} bytes needed, {available} available)"
  | .badResolution resolution =>
    "invalid fixed-point resolution " ++ Decimal.plain.render resolution

end Wire
end InstrumentBus
