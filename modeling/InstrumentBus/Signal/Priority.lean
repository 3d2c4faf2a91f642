import InstrumentBus.Text.Hex

/-!
# Priorities

A priority is one byte: bit 7 says whether the source is healthy, the other bits
are its rank. Priorities compare as bytes, so that any healthy source stands above
every unhealthy one.
-/

namespace InstrumentBus
namespace Signal

structure Priority where
  byte : UInt8
  deriving DecidableEq, Repr

namespace Priority

/-- A health flag and a rank; the top bit of the rank is dropped. -/
def ofRank (healthy : Bool) (rank : UInt8) : Priority :=
  ⟨if healthy then rank ||| 0x80 else rank &&& 0x7f⟩

def healthy (p : Priority) : Bool := 0x80 ≤ p.byte

def rank (p : Priority) : UInt8 := p.byte &&& 0x7f

/-- `p` stands above `q`. -/
def above (p q : Priority) : Bool := q.byte < p.byte

def compare (p q : Priority) : Ordering := Ord.compare p.byte q.byte

def text (p : Priority) : String := "0x" ++ Text.Hex.encodeText [p.byte]

theorem rank_toNat (p : Priority) : p.rank.toNat = p.byte.toNat % 128 := by
  have h := Nat.and_two_pow_sub_one_eq_mod p.byte.toNat 7
  simpa [rank, UInt8.toNat_and] using h

theorem rank_le (p : Priority) : p.rank.toNat ≤ 127 := by
  rw [rank_toNat]
  omega

theorem healthy_iff (p : Priority) : p.healthy = true ↔ 128 ≤ p.byte.toNat := by
  simp [healthy, UInt8.le_iff_toNat_le]

theorem above_iff_lt {p q : Priority} : p.above q = true ↔ q.byte < p.byte := decide_eq_true_iff

theorem above_iff (p q : Priority) : p.above q = true ↔ q.byte.toNat < p.byte.toNat := by
  simp [above, UInt8.lt_iff_toNat_lt]

end Priority
end Signal
end InstrumentBus
