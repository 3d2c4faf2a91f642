import InstrumentBus.Proofs.Signal.WellFormed

/-!
# Operations on a record

Every operation on a record is checked in full before it takes effect, so that one that fails
leaves the record, and the reader it was given, as they were. One that succeeds changes what it
is for and nothing else: a new value comes with a new stamp, a byte of a byte string leaves the
other bytes alone, and what a record was registered with never changes.
-/

namespace InstrumentBus
namespace Signal

open Wire

/-- What a new value makes of a payload. A byte string is replaced by one as long as itself, or
differs afterwards at one place only. -/
inductive Payload.Replaced : Payload → ValueChange → Payload → Prop where
  | scaled (f : FixedPoint) (x : Numeric.Binary64) :
      Replaced (.scaled f) (.scaled x) (.scaled (f.set x))
  | integer (m n : UInt32) : Replaced (.integer m) (.integer n) (.integer n)
  | bytes {held bytes : List UInt8} (h : bytes.length = held.length) :
      Replaced (.buffer held) (.bytes bytes) (.buffer bytes)
  | byte {held after : List UInt8} {index : Nat} {x : UInt8} (hx : after[index]? = some x)
      (hlength : after.length = held.length)
      (hrest : ∀ j, j ≠ index → after[j]? = held[j]?) :
      Replaced (.buffer held) (.byte index x) (.buffer after)

inductive Payload.Unfit (p : Payload) : ValueChange → Error → Prop where
  | shape {v : ValueChange} (h : v.shape ≠ p.shape) : Unfit p v (.shapeMismatch v.shape p.shape)
  | length {held bytes : List UInt8} (hp : p = .buffer held) (h : bytes.length ≠ held.length) :
      Unfit p (.bytes bytes) (.sizeMismatch held.length bytes.length)
  | index {held : List UInt8} {index : Nat} {x : UInt8} (hp : p = .buffer held)
      (h : held.length ≤ index) : Unfit p (.byte index x) (.indexOutOfRange index held.length)

namespace Payload

variable {p q : Payload} {v : ValueChange}

theorem replaced_byte_iff {held after : List UInt8} {index : Nat} {x : UInt8} :
    (after[index]? = some x ∧ after.length = held.length ∧
      ∀ j, j ≠ index → after[j]? = held[j]?) ↔ index < held.length ∧ after = held.set index x := by
  constructor
  · rintro ⟨hx, hlength, hrest⟩
    obtain ⟨hindex, -⟩ := List.getElem?_eq_some_iff.1 hx
    refine ⟨hlength ▸ hindex, List.ext_getElem? fun j => ?_⟩
    by_cases hj : j = index
    · subst hj
      rw [hx, List.getElem?_set_self (hlength ▸ hindex)]
    · rw [hrest j hj, List.getElem?_set_ne (Ne.symm hj)]
  · rintro ⟨hindex, rfl⟩
    exact ⟨List.getElem?_set_self hindex, List.length_set,
      fun j hj => List.getElem?_set_ne (Ne.symm hj)⟩

theorem change_eq_ok_iff : p.change v = .ok q ↔ p.Replaced v q := by
  constructor
  · intro h
    unfold change at h
    split at h
    · cases h
      exact .scaled _ _
    · cases h
      exact .integer _ _
    · split at h
      · next hlength =>
        cases h
        exact .bytes hlength.symm
      · cases h
    · split at h
      · next hindex =>
        cases h
        obtain ⟨hx, hlength, hrest⟩ := replaced_byte_iff.2 ⟨hindex, rfl⟩
        exact .byte hx hlength hrest
      · cases h
    · cases h
  · intro h
    cases h with
    | scaled f x => rfl
    | integer m n => rfl
    | bytes h => simp [change, h]
    | byte hx hlength hrest =>
      obtain ⟨hindex, rfl⟩ := replaced_byte_iff.1 ⟨hx, hlength, hrest⟩
      simp [change, hindex]

theorem change_eq_error_iff {e : Error} : p.change v = .error e ↔ p.Unfit v e := by
  constructor
  · intro h
    unfold change at h
    split at h
    · cases h
    · cases h
    · split at h
      · cases h
      · next hlength =>
        cases h
        exact .length rfl (Ne.symm hlength)
    · split at h
      · cases h
      · next hindex =>
        cases h
        exact .index rfl (Nat.le_of_not_lt hindex)
    · next hscaled hinteger hbytes hbyte =>
      cases h
      refine .shape fun hs => ?_
      cases p <;> cases v <;> try cases hs
      · exact hscaled _ _ rfl rfl
      · exact hinteger _ _ rfl rfl
      · exact hbytes _ _ rfl rfl
      · exact hbyte _ _ _ rfl rfl
  · intro h
    cases h with
    | shape h => cases p <;> cases v <;> first | rfl | exact absurd rfl h
    | length hp h =>
      subst hp
      simp [change, Ne.symm h]
    | index hp h =>
      subst hp
      simp [change, Nat.not_lt.2 h]

end Payload

namespace Record

/-- Records that can arise: registered, then offered datagrams and changed locally. -/
inductive Reachable : Record → Prop where
  | new {descriptor : Descriptor} {kind : Kind} {mode : Mode} {r : Record}
      (h : Record.new descriptor kind mode = .ok r) : Reachable r
  | receive {r : Record} (h : Reachable r) (reader : Reader) (now : UInt32) :
      Reachable (r.receive reader now).2.1
  | amend {r : Record} (h : Reachable r) (c : Change) (now : UInt32) :
      Reachable (r.amend c now).2

/-- Why a record refuses a local change: it is not for this node to send, or the new value does
not fit the payload. -/
inductive Refuses (r : Record) : Change → Error → Prop where
  | mode {c : Change} (h : r.mode ≠ .transmit) : Refuses r c (.wrongMode r.identity r.mode)
  | value {v : ValueChange} {e : Error} (hm : r.mode = .transmit) (h : r.payload.Unfit v e) :
      Refuses r (.value v) e

/-- What a local change makes of a record. A new value is stamped, in the header and as the time
of the last update. -/
inductive Amended (r : Record) (now : UInt32) : Change → Record → Prop where
  | value {v : ValueChange} {payload : Payload} (h : r.payload.Replaced v payload) :
      Amended r now (.value v)
        ⟨r.descriptor, r.mode, { r.header with timestamp := now }, payload, now⟩
  | priority (p : Priority) :
      Amended r now (.priority p)
        ⟨r.descriptor, r.mode, { r.header with priority := p }, r.payload, r.updated⟩
  | device (device : UInt8) :
      Amended r now (.device device)
        ⟨r.descriptor, r.mode, { r.header with device := device }, r.payload, r.updated⟩

variable {r s : Record} {c : Change} {now : UInt32}

theorem WellFormed.amend (h : r.WellFormed) (c : Change) (now : UInt32) :
    (r.amend c now).2.WellFormed := by
  rw [amend_eq]
  cases hc : r.change c now with
  | ok r' => exact h.change hc
  | error e => exact h

theorem Reachable.wellFormed (h : r.Reachable) : r.WellFormed := by
  induction h with
  | new h =>
    obtain ⟨payload, hzero, rfl⟩ := new_eq_ok_iff.1 h
    exact ⟨rfl, (Payload.kind_zero hzero).symm ▸ Kind.registrable_of_zero hzero, fun _ => rfl⟩
  | receive _ reader now ih => exact ih.receive reader now
  | amend _ c now ih => exact ih.amend c now

theorem change_eq_error_iff {e : Error} : r.change c now = .error e ↔ r.Refuses c e := by
  by_cases hm : r.mode = .transmit
  · cases c with
    | value v =>
      have hchange : r.change (.value v) now = .error e ↔ r.payload.change v = .error e := by
        simp only [Record.change, require, hm, ↓reduceIte]
        cases r.payload.change v <;> simp [Except.map]
      rw [hchange, Payload.change_eq_error_iff]
      refine ⟨.value hm, fun h => ?_⟩
      cases h with
      | mode h => exact absurd hm h
      | value _ h => exact h
    | priority p =>
      simp only [Record.change, require, hm, ↓reduceIte, reduceCtorEq, false_iff]
      rintro ⟨h⟩
      exact h hm
    | device device =>
      simp only [Record.change, require, hm, ↓reduceIte, reduceCtorEq, false_iff]
      rintro ⟨h⟩
      exact h hm
  · have hchange : r.change c now = .error (.wrongMode r.identity r.mode) := by
      simp [Record.change, require, hm]
    rw [hchange]
    constructor
    · intro h
      cases h
      exact .mode hm
    · intro h
      cases h with
      | mode h => rfl
      | value ht h => exact absurd ht hm

theorem amended_of_change (h : r.change c now = .ok s) : r.Amended now c s := by
  obtain ⟨-, ⟨v, payload, rfl, hv, rfl⟩ | ⟨p, rfl, rfl⟩ | ⟨device, rfl, rfl⟩⟩ := change_cases h
  · exact .value (Payload.change_eq_ok_iff.1 hv)
  · exact .priority p
  · exact .device device

/-- All that can come of a local change: it is refused and the record is as it was, or it is
made and no more than it. -/
theorem amend_cases (r : Record) (c : Change) (now : UInt32) :
    (∃ e, r.Refuses c e ∧ r.amend c now = (.error e, r)) ∨
      ∃ s, r.Amended now c s ∧ SameSignal s r ∧ r.amend c now = (.ok (), s) := by
  rw [amend_eq]
  cases hc : r.change c now with
  | error e => exact Or.inl ⟨e, change_eq_error_iff.1 hc, rfl⟩
  | ok s => exact Or.inr ⟨s, amended_of_change hc, change_sameSignal hc, rfl⟩

theorem amend_error_iff {e : Error} : (r.amend c now).1 = .error e ↔ r.Refuses c e := by
  have hchange : r.change c now = .error e ↔ r.Refuses c e := change_eq_error_iff
  rw [← hchange, amend_eq]
  cases r.change c now <;> simp

theorem Amended.identity_header (h : r.Amended now c s) :
    s.header.identity = r.header.identity := by
  cases h <;> rfl

theorem decode_ne_wrongMode (r : Record) (reader : Reader) (i : Identity) (m : Mode) :
    r.decode reader ≠ .error (.wrongMode i m) := by
  intro h
  unfold decode at h
  split at h
  · cases h
  · split at h
    · cases h
    · split at h
      · next he =>
        cases h
        unfold Payload.read at he
        split at he
        · split at he <;> cases he
        · split at he <;> cases he
        · split at he
          · cases he
          · split at he
            · cases he
            · split at he <;> cases he
      · cases h

theorem receive_error_wrongMode_iff {reader : Reader} {i : Identity} {m : Mode} :
    (r.receive reader now).1 = .error (.wrongMode i m) ↔
      r.mode ≠ .receive ∧ i = r.identity ∧ m = r.mode := by
  cases hm : r.mode with
  | transmit => simp [receive_of_transmit hm, eq_comm]
  | receive =>
    cases hd : r.decode reader with
    | error e =>
      have hne : e ≠ .wrongMode i m := fun h => r.decode_ne_wrongMode reader i m (h ▸ hd)
      simp [receive_of_decode_error hm hd, hne]
    | ok out =>
      obtain ⟨candidate, payload, after⟩ := out
      simp [receive_of_decode hm hd]

theorem WellFormed.receive_identity_header (h : r.WellFormed) (reader : Reader) (now : UInt32) :
    (r.receive reader now).2.1.header.identity = r.header.identity := by
  rw [(h.receive reader now).header, h.header, (r.receive_sameSignal reader now).identity]

/-- An operation that fails leaves the record alone, and it fails for the reasons given and no
others. One that succeeds changes what it names. What the record was registered with, and the
signal its header names, stay as they are in any case. -/
theorem operations_checked_first {r : Record} (hr : r.Reachable) (now : UInt32) :
    (∀ reader,
      (∀ i m, (r.receive reader now).1 = .error (.wrongMode i m) ↔
        r.mode ≠ .receive ∧ i = r.identity ∧ m = r.mode) ∧
      (∀ e, (r.receive reader now).1 = .error e → (r.receive reader now).2 = (r, reader)) ∧
      SameSignal (r.receive reader now).2.1 r ∧
      (r.receive reader now).2.1.header.identity = r.header.identity) ∧
    ∀ c,
      (∀ e, (r.amend c now).1 = .error e ↔ r.Refuses c e) ∧
      (∀ e, (r.amend c now).1 = .error e → (r.amend c now).2 = r) ∧
      ((r.amend c now).1 = .ok () → r.Amended now c (r.amend c now).2) ∧
      SameSignal (r.amend c now).2 r ∧
      (r.amend c now).2.header.identity = r.header.identity := by
  constructor
  · intro reader
    refine ⟨fun i m => receive_error_wrongMode_iff, fun e he => ?_,
      r.receive_sameSignal reader now, hr.wellFormed.receive_identity_header reader now⟩
    rcases r.receive_cases reader now with ⟨e', h⟩ | ⟨candidate, payload, after, -, -, h⟩
    · rw [h]
    · rw [h] at he
      cases he
  · intro c
    refine ⟨fun e => amend_error_iff, ?_⟩
    rcases r.amend_cases c now with ⟨e, -, h⟩ | ⟨s, hs, hsame, h⟩
    · refine ⟨fun _ _ => congrArg Prod.snd h, fun hok => ?_, ?_, ?_⟩
      · rw [h] at hok
        cases hok
      · rw [h]
        exact SameSignal.refl r
      · rw [h]
    · refine ⟨fun e he => ?_, fun _ => ?_, ?_, ?_⟩
      · rw [h] at he
        cases he
      · rw [h]
        exact hs
      · rw [h]
        exact hsame
      · rw [h]
        exact hs.identity_header

/-- A signal of three bytes in transmit mode, as it is registered. -/
def sampleString : Record :=
  ⟨⟨⟨10, 20⟩, 1000⟩, .transmit, Header.silent ⟨10, 20⟩, .buffer [0, 0, 0], 0⟩

/-- The second byte is put in and stamped; there is no fourth, and no datagram is taken in. -/
theorem sampleString_holds_three :
    sampleString.Reachable ∧
    sampleString.Amended 40 (.value (.byte 1 9)) ⟨⟨⟨10, 20⟩, 1000⟩, .transmit,
      ⟨0, ⟨0⟩, ⟨10, 20⟩, 40⟩, .buffer [0, 9, 0], 40⟩ ∧
    sampleString.Refuses (.value (.byte 3 9)) (.indexOutOfRange 3 3) ∧
    (sampleString.amend (.value (.byte 3 9)) 40).2 = sampleString ∧
    (sampleString.receive (Reader.ofBytes [1, 2]) 40).2 =
      (sampleString, Reader.ofBytes [1, 2]) := by
  have hnew : Record.new ⟨⟨10, 20⟩, 1000⟩ (.buffer 3) .transmit = .ok sampleString := rfl
  have hr : sampleString.Reachable := .new hnew
  obtain ⟨hreceive, hamend⟩ := operations_checked_first hr 40
  obtain ⟨-, -, hmade, -⟩ := hamend (.value (.byte 1 9))
  obtain ⟨hrefused, hkept, -⟩ := hamend (.value (.byte 3 9))
  obtain ⟨-, hunread, -⟩ := hreceive (Reader.ofBytes [1, 2])
  exact ⟨hr, hmade rfl, (hrefused _).1 rfl, hkept _ rfl, hunread _ rfl⟩

end Record
end Signal
end InstrumentBus
