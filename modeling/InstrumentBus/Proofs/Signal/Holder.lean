import InstrumentBus.Proofs.Signal.Reception
import Mathlib.Data.List.Induction

/-!
# A holder that keeps its record fresh

The device whose datagram a record holds cannot be displaced by devices of the same
or a lower priority, as long as its own datagrams keep coming in time. The record
then always holds the last datagram of that device, which is the invariant carried
along the run.
-/

namespace InstrumentBus
namespace Signal

open Wire

def sentBy (device : UInt8) (offers : List Offer) : List Offer :=
  offers.filter fun o => o.header.device = device

theorem mem_sentBy {device : UInt8} {offers : List Offer} {o : Offer} :
    o ∈ sentBy device offers ↔ o ∈ offers ∧ o.header.device = device := by
  simp [sentBy]

theorem sentBy_concat_self {device : UInt8} {o : Offer} (h : o.header.device = device)
    (offers : List Offer) : sentBy device (offers ++ [o]) = sentBy device offers ++ [o] := by
  simp [sentBy, h]

theorem sentBy_concat_of_ne {device : UInt8} {o : Offer} (h : o.header.device ≠ device)
    (offers : List Offer) : sentBy device (offers ++ [o]) = sentBy device offers := by
  simp [sentBy, h]

namespace Record

def lastOfHolder (r : Record) (offers : List Offer) : Option Offer :=
  (sentBy r.header.device offers).getLast?

def heldAfter (r : Record) (offers : List Offer) : Record :=
  match r.lastOfHolder offers with
  | none => r
  | some o => r.adopt o

/-- The local time of the last datagram of the holder, which is the time of the last
update before there is one. -/
def refreshedAt (r : Record) (offers : List Offer) : UInt32 :=
  match r.lastOfHolder offers with
  | none => r.updated
  | some o => o.now

/-- Datagrams for a record among which those of its holder keep it fresh and no others
outrank it. -/
structure Sustained (r : Record) (offers : List Offer) : Prop where
  takes : ∀ o ∈ offers, r.Takes o.bytes
  priority : ∀ o ∈ sentBy r.header.device offers, o.header.priority = r.header.priority
  ascending : (r.header.timestamp ::
    (sentBy r.header.device offers).map (·.header.timestamp)).Pairwise (· ≤ ·)
  peers : ∀ o ∈ offers, o.header.device ≠ r.header.device →
    o.header.priority.byte ≤ r.header.priority.byte
  fresh : ∀ before o after, offers = before ++ o :: after →
    o.now - r.refreshedAt before ≤ r.descriptor.timeout

variable {r : Record} {before offers : List Offer} {o : Offer}

theorem Sustained.of_append {after : List Offer} (h : r.Sustained (before ++ after)) :
    r.Sustained before := by
  have hsent : sentBy r.header.device (before ++ after) =
      sentBy r.header.device before ++ sentBy r.header.device after := List.filter_append ..
  refine ⟨?_, ?_, ?_, ?_, ?_⟩
  · intro o ho
    exact h.takes o (List.mem_append_left _ ho)
  · intro o ho
    exact h.priority o (hsent ▸ List.mem_append_left _ ho)
  · have hasc := h.ascending
    rw [hsent, List.map_append, ← List.cons_append] at hasc
    exact (List.pairwise_append.1 hasc).1
  · intro o ho
    exact h.peers o (List.mem_append_left _ ho)
  · intro first o rest he
    apply h.fresh first o (rest ++ after)
    rw [he, List.append_assoc, List.cons_append]

theorem lastOfHolder_concat_self (h : o.header.device = r.header.device) :
    r.lastOfHolder (before ++ [o]) = some o := by
  rw [lastOfHolder, sentBy_concat_self h, List.getLast?_concat]

theorem lastOfHolder_concat_of_ne (h : o.header.device ≠ r.header.device) :
    r.lastOfHolder (before ++ [o]) = r.lastOfHolder before := by
  rw [lastOfHolder, sentBy_concat_of_ne h, lastOfHolder]

theorem mem_of_lastOfHolder (h : r.lastOfHolder offers = some o) :
    o ∈ sentBy r.header.device offers := List.mem_of_getLast? h

theorem updated_heldAfter (r : Record) (offers : List Offer) :
    (r.heldAfter offers).updated = r.refreshedAt offers := by
  unfold heldAfter refreshedAt
  split <;> rfl

theorem heldAfter_sameSignal (h : r.Sustained offers) : SameSignal (r.heldAfter offers) r := by
  unfold heldAfter
  split
  · exact SameSignal.refl r
  · next o ho =>
    exact adopt_sameSignal (h.takes o (mem_sentBy.1 (mem_of_lastOfHolder ho)).1)

theorem header_heldAfter (h : r.Sustained offers) :
    (r.heldAfter offers).header.device = r.header.device ∧
      (r.heldAfter offers).header.priority = r.header.priority := by
  unfold heldAfter
  split
  · exact ⟨rfl, rfl⟩
  · next o ho =>
    have hmem := mem_of_lastOfHolder ho
    exact ⟨(mem_sentBy.1 hmem).2, h.priority o hmem⟩

theorem timestamp_heldAfter_le (h : r.Sustained (before ++ [o]))
    (ho : o.header.device = r.header.device) :
    (r.heldAfter before).header.timestamp ≤ o.header.timestamp := by
  have hasc := h.ascending
  rw [sentBy_concat_self ho, List.map_append, ← List.cons_append] at hasc
  have hle := (List.pairwise_append.1 hasc).2.2
  unfold heldAfter
  split
  · exact hle _ (List.mem_cons_self ..) _ (List.mem_singleton.2 rfl)
  · next last hlast =>
    apply hle last.header.timestamp _ _ (List.mem_singleton.2 rfl)
    exact List.mem_cons_of_mem _ (List.mem_map_of_mem (mem_of_lastOfHolder hlast))

theorem isValid_heldAfter (hh : r.header.priority.healthy = true)
    (h : r.Sustained (before ++ [o])) : (r.heldAfter before).isValid o.now = true := by
  have hp := h.of_append
  have hfresh := h.fresh before o [] rfl
  simp [isValid, (header_heldAfter hp).2, hh, updated_heldAfter,
    (heldAfter_sameSignal hp).descriptor, hfresh]

/-- One step of a sustained run: the holder's datagram is accepted and every other one is
rejected. -/
theorem take_heldAfter (hh : r.header.priority.healthy = true)
    (h : r.Sustained (before ++ [o])) :
    ((r.heldAfter before).receive (Reader.ofBytes o.bytes) o.now).1 =
        .ok (if o.header.device = r.header.device then .accepted else .rejected) ∧
      (r.heldAfter before).take o = r.heldAfter (before ++ [o]) := by
  have hp := h.of_append
  have hsame := heldAfter_sameSignal hp
  obtain ⟨hdevice, hpriority⟩ := header_heldAfter hp
  have hmem : o ∈ before ++ [o] := List.mem_append_right _ (List.mem_singleton.2 rfl)
  have htakes : (r.heldAfter before).Takes o.bytes := hsame.takes_iff.2 (h.takes o hmem)
  by_cases ho : o.header.device = r.header.device
  · have hacc : (r.heldAfter before).accepts o.header o.now = true := by
      rw [accepts_eq_true_iff]
      refine ⟨identity_of_takes htakes, Or.inr (Or.inr ⟨ho.trans hdevice.symm, ?_⟩)⟩
      exact timestamp_heldAfter_le h ho
    obtain ⟨hout, htake⟩ := take_of_accepts htakes hacc
    rw [hout, htake, hsame.adopt_eq, heldAfter, lastOfHolder_concat_self ho, if_pos ho]
    exact ⟨rfl, rfl⟩
  · have hrej : (r.heldAfter before).accepts o.header o.now = false := by
      rw [← Bool.not_eq_true, accepts_eq_true_iff]
      rintro ⟨-, hinvalid | habove | ⟨hfrom, -⟩⟩
      · rw [isValid_heldAfter hh h] at hinvalid
        cases hinvalid
      · rw [hpriority, Priority.above_iff_lt] at habove
        exact absurd habove (UInt8.not_lt.2 (h.peers o hmem ho))
      · exact ho (hfrom.trans hdevice)
    obtain ⟨hout, htake⟩ := take_of_not_accepts htakes hrej
    rw [hout, htake, heldAfter, heldAfter, lastOfHolder_concat_of_ne ho, if_neg ho]
    exact ⟨rfl, rfl⟩

theorem takeAll_eq_heldAfter (hh : r.header.priority.healthy = true)
    (h : r.Sustained offers) : r.takeAll offers = r.heldAfter offers := by
  induction offers using List.reverseRecOn with
  | nil => rfl
  | append_singleton before o ih =>
    rw [takeAll_concat, ih h.of_append]
    exact (take_heldAfter hh h).2

theorem isValid_heldAfter_concat (hh : r.header.priority.healthy = true)
    (h : r.Sustained (before ++ [o])) : (r.heldAfter (before ++ [o])).isValid o.now = true := by
  have hupdated : o.now - (r.heldAfter (before ++ [o])).updated ≤ r.descriptor.timeout := by
    rw [updated_heldAfter, refreshedAt]
    by_cases ho : o.header.device = r.header.device
    · rw [lastOfHolder_concat_self ho]
      simp
    · rw [lastOfHolder_concat_of_ne ho]
      exact h.fresh before o [] rfl
  simp [isValid, (header_heldAfter h).2, hh, (heldAfter_sameSignal h).descriptor, hupdated]

/-- A record held by a healthy source that keeps it fresh, against sources of at most its
priority: every datagram of the holder is accepted and every other one rejected, the
record is valid all along, and at the end the holder's last datagram is held. The local
clock may wrap at any point. -/
theorem refreshed_holder_is_never_displaced {r : Record} {offers : List Offer}
    (hh : r.header.priority.healthy = true) (h : r.Sustained offers) :
    (∀ before o after, offers = before ++ o :: after →
      ((r.takeAll before).receive (Reader.ofBytes o.bytes) o.now).1 =
          .ok (if o.header.device = r.header.device then .accepted else .rejected) ∧
        (r.takeAll before).isValid o.now = true ∧
        (r.takeAll (before ++ [o])).isValid o.now = true) ∧
      r.takeAll offers = r.heldAfter offers := by
  refine ⟨?_, takeAll_eq_heldAfter hh h⟩
  intro before o after he
  have happ : r.Sustained ((before ++ [o]) ++ after) := by
    rwa [List.append_assoc, List.singleton_append, ← he]
  have hstep := happ.of_append
  rw [takeAll_eq_heldAfter hh hstep.of_append, takeAll_eq_heldAfter hh hstep]
  exact ⟨(take_heldAfter hh hstep).1, isValid_heldAfter hh hstep,
    isValid_heldAfter_concat hh hstep⟩

/-- An integer signal held by device 10, last updated shortly before the clock wraps. -/
def sampleHeld : Record :=
  ⟨⟨⟨10, 20⟩, 1000⟩, .receive, ⟨10, ⟨0x85⟩, ⟨10, 20⟩, 100⟩, .integer 7, 0xffffff00⟩

/-- Two datagrams of a peer, and one of the holder between them after the wrap. -/
def sampleTraffic : List Offer :=
  [⟨sampleDatagram 11 0x85 500 1, 0xfffffff0⟩, ⟨sampleDatagram 10 0x85 150 2, 300⟩,
    ⟨sampleDatagram 11 0x85 600 3, 1200⟩]

theorem sampleTraffic_keeps_holder :
    sampleHeld.header.priority.healthy = true ∧ sampleHeld.Sustained sampleTraffic ∧
      (sampleHeld.takeAll sampleTraffic).header = ⟨10, ⟨0x85⟩, ⟨10, 20⟩, 150⟩ ∧
      (sampleHeld.takeAll sampleTraffic).payload = .integer 2 := by
  have hh : sampleHeld.header.priority.healthy = true := by decide
  have hs : sampleHeld.Sustained sampleTraffic := by
    refine ⟨?_, by decide, by decide, by decide, ?_⟩
    · intro o ho
      rw [takes_iff]
      revert o
      decide
    · intro before o after he
      rcases before with _ | ⟨a, _ | ⟨b, _ | ⟨c, rest⟩⟩⟩
      all_goals simp only [sampleTraffic, List.nil_append, List.cons_append, List.cons.injEq] at he
      · obtain ⟨rfl, -⟩ := he
        decide
      · obtain ⟨rfl, rfl, -⟩ := he
        decide
      · obtain ⟨rfl, rfl, rfl, -⟩ := he
        decide
      · simp at he
  have hend := (refreshed_holder_is_never_displaced hh hs).2
  refine ⟨hh, hs, ?_, ?_⟩
  · rw [hend]
    decide
  · rw [hend]
    decide

end Record
end Signal
end InstrumentBus
