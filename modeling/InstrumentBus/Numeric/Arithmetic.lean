import InstrumentBus.Numeric.Rounding

/-!
# Arithmetic on doubles

Each operation is the exact rational result, rounded once. Integral parts and
the saturating conversion to integers are exact.
-/

namespace InstrumentBus
namespace Numeric
namespace Binary64

/-- The sum of two zeros is negative only if both are; any other exact zero is positive. -/
def add : Binary64 → Binary64 → Binary64
  | .nan, _ | _, .nan => .nan
  | .infinite s, .infinite t => if s = t then .infinite s else .nan
  | .infinite s, .finite _ _ => .infinite s
  | .finite _ _, .infinite t => .infinite t
  | .finite s m, .finite t n =>
    ofSigned (s && t && m.units == 0 && n.units == 0) (signed s m.units + signed t n.units)

def sub (x y : Binary64) : Binary64 := x.add y.neg

def mul : Binary64 → Binary64 → Binary64
  | .nan, _ | _, .nan => .nan
  | .infinite s, .infinite t => .infinite (s ^^ t)
  | .infinite s, .finite t n => if n.units = 0 then .nan else .infinite (s ^^ t)
  | .finite s m, .infinite t => if m.units = 0 then .nan else .infinite (s ^^ t)
  | .finite s m, .finite t n => ofRatio (s ^^ t) (m.units * n.units) unitsPerOne

def div : Binary64 → Binary64 → Binary64
  | .nan, _ | _, .nan => .nan
  | .infinite _, .infinite _ => .nan
  | .infinite s, .finite t _ => .infinite (s ^^ t)
  | .finite s _, .infinite t => zero (s ^^ t)
  | .finite s m, .finite t n =>
    if n.units = 0 then
      if m.units = 0 then .nan else .infinite (s ^^ t)
    else ofRatio (s ^^ t) (m.units * unitsPerOne) n.units

/-- The integral part, toward zero. -/
def truncate : Binary64 → Binary64
  | .finite s m => ofRatio s (m.units / unitsPerOne * unitsPerOne) 1
  | x => x

/-- The nearest integer, an exact half going away from zero. -/
def round : Binary64 → Binary64
  | .finite s m => ofRatio s ((2 * m.units + unitsPerOne) / (2 * unitsPerOne) * unitsPerOne) 1
  | x => x

/-- The integer a number truncates to, held between two limits; NaN gives zero. -/
def toIntClamped (low high : Int) : Binary64 → Int
  | .nan => 0
  | .infinite s => if s then low else high
  | .finite s m => Max.max low (Min.min high (signed s (m.units / unitsPerOne)))

end Binary64
end Numeric
end InstrumentBus
