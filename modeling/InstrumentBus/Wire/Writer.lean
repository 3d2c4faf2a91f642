import InstrumentBus.Wire.FixedPoint

/-!
# Writing bytes

A writer is a buffer of fixed length and a position in it. Bytes are written one
at a time. When there is no room for one the write fails, and the bytes before it
stay where they are. A value made of several parts stops at the first part that
does not fit.
-/

namespace InstrumentBus
namespace Wire

structure Writer where
  buffer : List UInt8
  position : Nat
  deriving DecidableEq

namespace Writer

def ofBuffer (buffer : List UInt8) : Writer := ⟨buffer, 0⟩

def available (w : Writer) : Nat := w.buffer.length - w.position

/-- The bytes before the position. -/
def written (w : Writer) : List UInt8 := w.buffer.take w.position

def reset (w : Writer) : Writer := { w with position := 0 }

/-- One byte at the position, which moves behind it. -/
def putByte (w : Writer) (b : UInt8) : Except Error Unit × Writer :=
  if w.position < w.buffer.length then
    (.ok (), ⟨w.buffer.set w.position b, w.position + 1⟩)
  else (.error (.overflow 1 0), w)

/-- Bytes one after the other. Where one has no room the write ends with a fault. -/
def putEach (fault : Error) (w : Writer) : List UInt8 → Except Error Unit × Writer
  | [] => (.ok (), w)
  | b :: bytes =>
    match w.putByte b with
    | (.error _, w) => (.error fault, w)
    | (.ok (), w) => w.putEach fault bytes

/-- Several bytes. The fault tells how many there are and what room there was for them. -/
def put (w : Writer) (bytes : List UInt8) : Except Error Unit × Writer :=
  w.putEach (.overflow bytes.length w.available) bytes

/-- Parts one after the other, up to the first that does not fit. -/
def putAll (w : Writer) : List (List UInt8) → Except Error Unit × Writer
  | [] => (.ok (), w)
  | part :: parts =>
    match w.put part with
    | (.error e, w) => (.error e, w)
    | (.ok (), w) => w.putAll parts

/-- Bytes laid over the buffer at the position, which moves behind them. -/
def lay (w : Writer) (bytes : List UInt8) : Writer :=
  ⟨w.buffer.take w.position ++ bytes ++ w.buffer.drop (w.position + bytes.length),
    w.position + bytes.length⟩

theorem length_lay {w : Writer} {bytes : List UInt8} (h : bytes.length ≤ w.available) :
    (w.lay bytes).buffer.length = w.buffer.length := by
  simp only [available] at h
  simp only [lay, List.length_append, List.length_take, List.length_drop]
  omega

theorem position_lay_le {w : Writer} {bytes : List UInt8} (hp : w.position ≤ w.buffer.length)
    (h : bytes.length ≤ w.available) : (w.lay bytes).position ≤ (w.lay bytes).buffer.length := by
  rw [length_lay h]
  simp only [available, lay] at h ⊢
  omega

theorem written_lay {w : Writer} (hp : w.position ≤ w.buffer.length) (bytes : List UInt8) :
    (w.lay bytes).written = w.written ++ bytes := by
  have hl : (w.buffer.take w.position ++ bytes).length = w.position + bytes.length := by
    simp [Nat.min_eq_left hp]
  rw [written, written, lay, List.take_append_of_le_length (Nat.le_of_eq hl.symm), ← hl,
    List.take_length]

theorem available_lay {w : Writer} {bytes : List UInt8} (h : bytes.length ≤ w.available) :
    (w.lay bytes).available = w.available - bytes.length := by
  rw [available, length_lay h]
  simp only [lay, available]
  omega

theorem lay_nil (w : Writer) : w.lay [] = w := by
  simp [lay]

/-- Bytes laid behind others are laid together with them. -/
theorem lay_lay {w : Writer} (hp : w.position ≤ w.buffer.length) (a b : List UInt8) :
    (w.lay a).lay b = w.lay (a ++ b) := by
  have hl : (w.buffer.take w.position ++ a).length = w.position + a.length := by
    simp [Nat.min_eq_left hp]
  have hbefore : (w.lay a).buffer.take (w.position + a.length) =
      w.buffer.take w.position ++ a := by
    rw [lay, List.take_append_of_le_length (Nat.le_of_eq hl.symm), ← hl, List.take_length]
  have hbehind : (w.lay a).buffer.drop (w.position + a.length + b.length) =
      w.buffer.drop (w.position + (a ++ b).length) := by
    rw [lay, ← hl, List.drop_append, List.drop_eq_nil_of_le (Nat.le_add_right _ _),
      Nat.add_sub_cancel_left, List.drop_drop, hl, List.nil_append, List.length_append,
      Nat.add_assoc]
  calc
    (w.lay a).lay b
      = ⟨(w.lay a).buffer.take (w.position + a.length) ++ b ++
          (w.lay a).buffer.drop (w.position + a.length + b.length),
        w.position + a.length + b.length⟩ := rfl
    _ = w.lay (a ++ b) := by
      rw [hbefore, hbehind]
      simp [lay, Nat.add_assoc]

theorem putByte_of_lt {w : Writer} (h : w.position < w.buffer.length) (b : UInt8) :
    w.putByte b = (.ok (), w.lay [b]) := by
  rw [putByte, if_pos h, List.set_eq_take_append_cons_drop, if_pos h, lay, List.append_assoc]
  rfl

/-- Of bytes one after the other, those that fit are laid at the position. -/
theorem putEach_eq (fault : Error) (w : Writer) (bytes : List UInt8) :
    w.putEach fault bytes =
      if bytes.length ≤ w.available then (.ok (), w.lay bytes)
      else (.error fault, w.lay (bytes.take w.available)) := by
  induction bytes generalizing w with
  | nil => simp [putEach, lay_nil]
  | cons b bytes ih =>
    by_cases hroom : w.position < w.buffer.length
    · have hone : [b].length ≤ w.available := by
        simp only [available, List.length_singleton]
        omega
      obtain ⟨left, hleft⟩ := Nat.exists_eq_add_of_le' hone
      have hrest : (w.lay [b]).available = left := by
        rw [available_lay hone, hleft, Nat.add_sub_cancel]
      have hall (more : List UInt8) : (w.lay [b]).lay more = w.lay (b :: more) :=
        lay_lay (Nat.le_of_lt hroom) [b] more
      have hcount : (b :: bytes).length ≤ left + 1 ↔ bytes.length ≤ left :=
        Nat.add_le_add_iff_right
      simp only [putEach, putByte_of_lt hroom, ih, hrest, hall, hleft, List.length_singleton,
        List.take_succ_cons, hcount]
    · have hfull : w.available = 0 := Nat.sub_eq_zero_of_le (Nat.le_of_not_lt hroom)
      have hcut : ¬ (b :: bytes).length ≤ w.available := by simp [hfull]
      rw [putEach, putByte, if_neg hroom, if_neg hcut, hfull, List.take_zero, lay_nil]

theorem put_eq (w : Writer) (bytes : List UInt8) :
    w.put bytes =
      if bytes.length ≤ w.available then (.ok (), w.lay bytes)
      else (.error (.overflow bytes.length w.available), w.lay (bytes.take w.available)) :=
  putEach_eq _ w bytes

theorem put_of_le {w : Writer} {bytes : List UInt8} (h : bytes.length ≤ w.available) :
    w.put bytes = (.ok (), w.lay bytes) := by
  rw [put_eq, if_pos h]

theorem putAll_singleton (w : Writer) (part : List UInt8) : w.putAll [part] = w.put part := by
  rw [putAll]
  rcases w.put part with ⟨_ | _, after⟩ <;> rfl

/-- Parts that fit are laid one behind the other. -/
theorem putAll_of_le {w : Writer} {parts : List (List UInt8)}
    (hp : w.position ≤ w.buffer.length) (h : parts.flatten.length ≤ w.available) :
    w.putAll parts = (.ok (), w.lay parts.flatten) := by
  induction parts generalizing w with
  | nil => rw [putAll, List.flatten_nil, lay_nil]
  | cons part parts ih =>
    rw [List.flatten_cons, List.length_append] at h
    have hpart : part.length ≤ w.available := by omega
    have hnext := position_lay_le hp hpart
    have hrest : parts.flatten.length ≤ (w.lay part).available := by
      rw [available_lay hpart]
      omega
    rw [putAll, put_of_le hpart, List.flatten_cons, ← lay_lay hp]
    exact ih hnext hrest

end Writer

def halfBytes (n : UInt16) : List UInt8 := wordBytes 2 n.toNat

def wordBytes32 (n : UInt32) : List UInt8 := wordBytes 4 n.toNat

theorem byte_mod (n : Nat) : UInt8.ofNat (n % 256) = UInt8.ofNat n := UInt8.ofNat_mod_size

theorem halfBytes_eq (n : UInt16) :
    halfBytes n = [UInt8.ofNat (n.toNat / 256), UInt8.ofNat (n.toNat % 256)] := by
  simp only [halfBytes, wordBytes, byte_mod, List.nil_append, List.cons_append]

theorem wordBytes32_eq (n : UInt32) :
    wordBytes32 n = [UInt8.ofNat (n.toNat / 0x1000000), UInt8.ofNat (n.toNat / 0x10000 % 256),
      UInt8.ofNat (n.toNat / 0x100 % 256), UInt8.ofNat (n.toNat % 256)] := by
  simp only [wordBytes32, wordBytes, byte_mod, Nat.div_div_eq_div_mul, List.nil_append,
    List.cons_append]

def FixedPoint.bytes (f : FixedPoint) : List UInt8 := wordBytes32 f.encode

end Wire
end InstrumentBus
