import InstrumentBus.Wire.Reader

/-!
# Reading in place

A read in place yields its result and the reader as it is left, whether or not it succeeds. What
is made of several reads can fail between two of them, with the reader behind the first. It is
attempted on a copy, which takes the place of the reader once all of it is read.
-/

namespace InstrumentBus
namespace Wire

/-- A read in place: what it makes of a reader, and the reader after it. -/
abbrev Reading (ε α : Type) := ExceptT ε (StateM Reader) α

namespace Reading

variable {ε ε' α β : Type}

/-- The next bytes, which the reader passes if there are that many. -/
def take (count : Nat) : Reading Error (List UInt8) := fun r =>
  if count ≤ r.available then (.ok (r.remaining.take count), r.advance count)
  else (.error (.underrun count r.available), r)

def byte : Reading Error UInt8 := do return UInt8.ofNat (wordValue (← take 1))

def half : Reading Error UInt16 := do return UInt16.ofNat (wordValue (← take 2))

def word : Reading Error UInt32 := do return UInt32.ofNat (wordValue (← take 4))

def signedWord : Reading Error Int := do return signedValue (UInt32.ofNat (wordValue (← take 4)))

/-- A fixed-point value read into a target, which is yielded as the read leaves it. -/
def fixedInto (target : FixedPoint) (r : Reader) : Except Error Unit × FixedPoint × Reader :=
  match word r with
  | (.error e, after) => (.error e, target, after)
  | (.ok raw, after) => (.ok (), target.decode raw, after)

/-- A fixed-point value read into a copy of the one held. -/
def fixed (held : FixedPoint) : Reading Error FixedPoint := fun r =>
  match fixedInto held r with
  | (.error e, _, after) => (.error e, after)
  | (.ok (), value, after) => (.ok value, after)

/-- A read on a copy of the reader, which takes its place if the read succeeds. -/
def attempt (x : Reading ε α) : Reading ε α := fun r =>
  match x r with
  | (.error e, _) => (.error e, r)
  | (.ok a, probe) => (.ok a, probe)

/-- A read on a copy of the reader, which stays where it is. -/
def look (x : Reading ε α) : Reading ε α := fun r => ((x r).1, r)

/-- What comes of a read: a value and the reader behind it, or a fault. -/
def outcome (x : Reading ε α) (r : Reader) : Except ε (α × Reader) :=
  match x r with
  | (.error e, _) => .error e
  | (.ok a, after) => .ok (a, after)

/-- What is left where a fault leaves the reader as it was. -/
def settle (r : Reader) : Except ε (α × Reader) → Except ε α × Reader
  | .error e => (.error e, r)
  | .ok (a, after) => (.ok a, after)

section Runs

variable {x : Reading ε α} {r : Reader} {y : Except ε (α × Reader)}

/-- One read behind another: the second one starts where the first one ends, and is not made if
the first one fails. -/
theorem bind_apply (x : Reading ε α) (f : α → Reading ε β) (r : Reader) :
    (x >>= f) r = match x r with
      | (.error e, after) => (.error e, after)
      | (.ok a, after) => f a after := by
  change ExceptT.bindCont f (x r).1 (x r).2 = _
  rcases x r with ⟨_ | _, _⟩ <;> rfl

theorem outcome_pure (a : α) (r : Reader) : outcome (pure a : Reading ε α) r = .ok (a, r) := rfl

theorem outcome_bind (x : Reading ε α) (f : α → Reading ε β) (r : Reader) :
    outcome (x >>= f) r = outcome x r >>= fun p => outcome (f p.1) p.2 := by
  unfold outcome
  rw [bind_apply]
  rcases x r with ⟨_ | _, _⟩ <;> rfl

theorem outcome_of_settle (h : x r = settle r y) : outcome x r = y := by
  rw [outcome, h]
  rcases y with _ | ⟨_, _⟩ <;> rfl

theorem attempt_eq (x : Reading ε α) (r : Reader) : attempt x r = settle r (outcome x r) := by
  unfold attempt outcome
  rcases x r with ⟨_ | _, _⟩ <;> rfl

theorem look_eq (h : x r = settle r y) : look x r = settle r (y.map fun p => (p.1, r)) := by
  rw [look, h]
  rcases y with _ | ⟨_, _⟩ <;> rfl

/-- What is made of the value of a read is left as the read leaves it. -/
theorem settle_map (h : x r = settle r y) (f : α → β) :
    (do return f (← x) : Reading ε β) r = settle r (y.map fun p => (f p.1, p.2)) := by
  rw [bind_apply, h]
  rcases y with _ | ⟨_, _⟩ <;> rfl

theorem settle_adapt (h : x r = settle r y) (f : ε → ε') :
    ExceptT.adapt f x r = settle r (y.mapError f) := by
  change (Except.mapError f (x r).1, (x r).2) = _
  rw [h]
  rcases y with _ | ⟨_, _⟩ <;> rfl

end Runs

section Numbers

variable (r : Reader)

theorem take_eq (count : Nat) : take count r = settle r (r.bytes count) := by
  unfold take Reader.bytes
  split <;> rfl

theorem byte_eq : byte r = settle r r.byte := by
  rw [byte, settle_map (take_eq r 1), Reader.byte, Reader.number]
  rcases r.bytes 1 with _ | _ <;> rfl

theorem half_eq : half r = settle r r.half := by
  rw [half, settle_map (take_eq r 2), Reader.half, Reader.number]
  rcases r.bytes 2 with _ | _ <;> rfl

theorem word_eq : word r = settle r r.word := by
  rw [word, settle_map (take_eq r 4), Reader.word, Reader.number]
  rcases r.bytes 4 with _ | _ <;> rfl

theorem signedWord_eq : signedWord r = settle r r.signedWord := by
  rw [signedWord, settle_map (take_eq r 4), Reader.signedWord, Reader.word, Reader.number]
  rcases r.bytes 4 with _ | _ <;> rfl

/-- The target is given a value if a word could be read, and is as it was if not. -/
theorem fixedInto_eq (target : FixedPoint) : fixedInto target r = match r.fixed target with
    | .error e => (.error e, target, r)
    | .ok (value, after) => (.ok (), value, after) := by
  rw [fixedInto, word_eq, Reader.fixed]
  rcases r.word with _ | ⟨_, _⟩ <;> rfl

theorem fixed_eq (held : FixedPoint) : fixed held r = settle r (r.fixed held) := by
  rw [fixed, fixedInto_eq]
  rcases r.fixed held with _ | ⟨_, _⟩ <;> rfl

end Numbers

end Reading
end Wire
end InstrumentBus
