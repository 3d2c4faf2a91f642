import InstrumentBus.Proofs.Signal.Reception

/-!
# Well-formed records

What is true of a record from its registration on: its header names its own signal,
its kind is one that can be registered, and a record in transmit mode bears the time
of its last update. Every way to change a record preserves it.
-/

namespace InstrumentBus
namespace Signal

open Wire

def Kind.Registrable : Kind → Prop
  | .scaled resolution => isResolution resolution = true
  | .integer => True
  | .buffer length => length ≤ maxBufferLength

theorem Kind.Registrable.extent_le {k : Kind} (h : k.Registrable) : k.extent ≤ sizeLimit := by
  cases k with
  | scaled resolution => exact (by decide : wordSize ≤ sizeLimit)
  | integer => exact (by decide : wordSize ≤ sizeLimit)
  | buffer length =>
    have hl : length ≤ 4096 := h
    simp only [Kind.extent, wordSize, sizeLimit]
    omega

theorem Kind.registrable_of_zero {k : Kind} {p : Payload} (h : Payload.zero k = .ok p) :
    k.Registrable := by
  cases k with
  | scaled resolution =>
    simp only [Payload.zero] at h
    split at h
    · next hf => exact (FixedPoint.new_eq_ok_iff.1 hf).1
    · cases h
  | integer => trivial
  | buffer length =>
    simp only [Payload.zero] at h
    split at h
    · cases h
    · next hl => exact Nat.le_of_not_lt hl

def Payload.Zeroed : Payload → Prop
  | .scaled f => f.value = .zero false
  | .integer n => n = 0
  | .buffer bytes => ∀ b ∈ bytes, b = 0

theorem Payload.zeroed_of_zero {k : Kind} {p : Payload} (h : Payload.zero k = .ok p) :
    p.Zeroed := by
  cases k with
  | scaled resolution =>
    simp only [Payload.zero] at h
    split at h
    · next f hf =>
      obtain ⟨-, rfl⟩ := FixedPoint.new_eq_ok_iff.1 hf
      cases h
      rfl
    · cases h
  | integer =>
    cases h
    rfl
  | buffer length =>
    simp only [Payload.zero] at h
    split at h
    · cases h
    · cases h
      intro b hb
      exact List.eq_of_mem_replicate hb

namespace Record

structure WellFormed (r : Record) : Prop where
  header : r.header.identity = r.identity
  kind : r.payload.kind.Registrable
  stamped : r.mode = .transmit → r.header.timestamp = r.updated

variable {r r' : Record}

theorem WellFormed.packetSize_eq (h : r.WellFormed) :
    r.packetSize = headerSize + r.payload.kind.extent := by
  rw [packetSize, Payload.size, Kind.size_eq_extent h.kind.extent_le]

/-- A record in transmit mode takes nothing in, so its stamp is not touched. -/
theorem WellFormed.receive (h : r.WellFormed) (reader : Reader) (now : UInt32) :
    (r.receive reader now).2.1.WellFormed := by
  have hsame := r.receive_sameSignal reader now
  have hkind : (r.receive reader now).2.1.payload.kind.Registrable := hsame.kind ▸ h.kind
  rcases r.receive_cases reader now with ⟨e, he⟩ | ⟨candidate, payload, after, hm, hd, he⟩
  · rw [he]
    exact h
  · obtain ⟨-, hi, -, hout⟩ := decode_eq_ok_iff.1 hd
    cases hout
    refine ⟨?_, hkind, ?_⟩
    · rw [he]
      unfold offer
      split
      · exact hi
      · exact h.header
    · intro ht
      rw [hsame.mode, hm] at ht
      cases ht

theorem change_cases {c : Change} {now : UInt32} (h : r.change c now = .ok r') :
    r.mode = .transmit ∧
    ((∃ v payload, c = .value v ∧ r.payload.change v = .ok payload ∧
        r' = { r with payload := payload }.touch now) ∨
      (∃ p, c = .priority p ∧ r' = { r with header := { r.header with priority := p } }) ∨
      (∃ device, c = .device device ∧
        r' = { r with header := { r.header with device := device } })) := by
  cases hm : r.mode with
  | receive => simp [Record.change, require, hm] at h
  | transmit =>
    simp only [Record.change, require, hm, ↓reduceIte] at h
    refine ⟨rfl, ?_⟩
    cases c with
    | value v =>
      cases hp : r.payload.change v with
      | error e => simp [hp, Except.map] at h
      | ok payload =>
        simp only [hp, Except.map, Except.ok.injEq] at h
        exact Or.inl ⟨v, payload, rfl, hp, h.symm⟩
    | priority p =>
      cases h
      exact Or.inr (Or.inl ⟨p, rfl, rfl⟩)
    | device device =>
      cases h
      exact Or.inr (Or.inr ⟨device, rfl, rfl⟩)

theorem change_sameSignal {c : Change} {now : UInt32} (h : r.change c now = .ok r') :
    SameSignal r' r := by
  obtain ⟨-, ⟨v, payload, -, hp, rfl⟩ | ⟨p, -, rfl⟩ | ⟨device, -, rfl⟩⟩ := change_cases h
  · exact ⟨rfl, rfl, Payload.kind_change hp⟩
  · exact ⟨rfl, rfl, rfl⟩
  · exact ⟨rfl, rfl, rfl⟩

theorem WellFormed.change {c : Change} {now : UInt32} (h : r.WellFormed)
    (hc : r.change c now = .ok r') : r'.WellFormed := by
  have hkind : r'.payload.kind.Registrable := (change_sameSignal hc).kind ▸ h.kind
  obtain ⟨-, ⟨v, payload, -, -, rfl⟩ | ⟨p, -, rfl⟩ | ⟨device, -, rfl⟩⟩ := change_cases hc
  · exact ⟨h.header, hkind, fun _ => rfl⟩
  · exact ⟨h.header, hkind, h.stamped⟩
  · exact ⟨h.header, hkind, h.stamped⟩

end Record
end Signal
end InstrumentBus
