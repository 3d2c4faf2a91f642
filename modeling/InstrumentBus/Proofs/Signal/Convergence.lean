import InstrumentBus.Proofs.Signal.Reception
import Mathlib.Data.Finset.Max
import Mathlib.Data.List.Induction
import Mathlib.Data.List.Pairwise

/-!
# Arbitration does not depend on the order of arrival

Sources that are told apart by their priority compete for a fresh record within one
validity window. Before the highest of them shows up the record is held below its
priority, and from then on it holds the newest of its datagrams so far; either way
the order of arrival leaves no trace in the end.
-/

namespace InstrumentBus
namespace Signal

open Wire

/-- Datagrams for a record from devices that each keep to a priority of their own and
never use a timestamp twice, with a healthy device among them. -/
structure Rivals (r : Record) (datagrams : List (List UInt8)) : Prop where
  takes : ∀ b ∈ datagrams, r.Takes b
  priority : ∀ a ∈ datagrams, ∀ b ∈ datagrams,
    (Header.ofBytes a).device = (Header.ofBytes b).device ↔
      (Header.ofBytes a).priority = (Header.ofBytes b).priority
  timestamps : datagrams.Pairwise fun a b =>
    (Header.ofBytes a).device = (Header.ofBytes b).device →
      (Header.ofBytes a).timestamp ≠ (Header.ofBytes b).timestamp
  healthy : ∃ b ∈ datagrams, (Header.ofBytes b).priority.healthy = true

/-- The datagrams in some order, offered at times that do not go back and stay within a
span from its start on. Times count from the start, so the clock may wrap in between. -/
structure Schedule (start span : UInt32) (datagrams : List (List UInt8))
    (offers : List Offer) : Prop where
  perm : (offers.map (·.bytes)).Perm datagrams
  within : ∀ o ∈ offers, o.now - start ≤ span
  ascending : offers.Pairwise fun a b => a.now - start ≤ b.now - start

/-- The newest datagram of the device with the highest priority. -/
structure Foremost (datagrams : List (List UInt8)) (best : List UInt8) : Prop where
  mem : best ∈ datagrams
  priority_le : ∀ b ∈ datagrams,
    (Header.ofBytes b).priority.byte ≤ (Header.ofBytes best).priority.byte
  timestamp_le : ∀ b ∈ datagrams, (Header.ofBytes b).device = (Header.ofBytes best).device →
    (Header.ofBytes b).timestamp ≤ (Header.ofBytes best).timestamp

def standing (h : Header) : Nat := 2 ^ 32 * h.priority.byte.toNat + h.timestamp.toNat

theorem priority_le_of_standing_le {a b : Header} (h : standing a ≤ standing b) :
    a.priority.byte ≤ b.priority.byte := by
  have ha := a.timestamp.toNat_lt
  have hb := b.timestamp.toNat_lt
  rw [UInt8.le_iff_toNat_le]
  unfold standing at h
  omega

theorem timestamp_le_of_standing_le {a b : Header} (hp : a.priority = b.priority)
    (h : standing a ≤ standing b) : a.timestamp ≤ b.timestamp := by
  rw [UInt32.le_iff_toNat_le]
  unfold standing at h
  rw [hp] at h
  omega

theorem Rivals.exists_foremost {r : Record} {datagrams : List (List UInt8)}
    (h : Rivals r datagrams) : ∃ best, Foremost datagrams best := by
  obtain ⟨b, hb, -⟩ := h.healthy
  obtain ⟨best, hbest, hmax⟩ := Finset.exists_max_image datagrams.toFinset
    (fun b => standing (Header.ofBytes b)) ⟨b, List.mem_toFinset.2 hb⟩
  have hmem := List.mem_toFinset.1 hbest
  refine ⟨best, hmem, ?_, ?_⟩
  · intro b hb
    exact priority_le_of_standing_le (hmax b (List.mem_toFinset.2 hb))
  · intro b hb hdevice
    apply timestamp_le_of_standing_le ((h.priority b hb best hmem).1 hdevice)
    exact hmax b (List.mem_toFinset.2 hb)

theorem Rivals.foremost_unique {r : Record} {datagrams : List (List UInt8)}
    (h : Rivals r datagrams) {a b : List UInt8} (ha : Foremost datagrams a)
    (hb : b ∈ datagrams) (hdevice : (Header.ofBytes b).device = (Header.ofBytes a).device)
    (hle : (Header.ofBytes a).timestamp ≤ (Header.ofBytes b).timestamp) : b = a := by
  by_contra hne
  have hsymm : Std.Symm fun a b : List UInt8 =>
      (Header.ofBytes a).device = (Header.ofBytes b).device →
        (Header.ofBytes a).timestamp ≠ (Header.ofBytes b).timestamp :=
    ⟨fun _ _ hab heq => (hab heq.symm).symm⟩
  have hts := h.timestamps.forall hb ha.mem hne hdevice
  exact hts (UInt32.le_antisymm (ha.timestamp_le b hb hdevice) hle)

theorem Foremost.healthy {r : Record} {datagrams : List (List UInt8)} {best : List UInt8}
    (hf : Foremost datagrams best) (h : Rivals r datagrams) :
    (Header.ofBytes best).priority.healthy = true := by
  obtain ⟨b, hb, hh⟩ := h.healthy
  have hle := UInt8.le_iff_toNat_le.1 (hf.priority_le b hb)
  rw [Priority.healthy_iff] at hh ⊢
  omega

theorem Foremost.priority_lt {r : Record} {datagrams : List (List UInt8)}
    {best b : List UInt8} (hf : Foremost datagrams best) (h : Rivals r datagrams)
    (hb : b ∈ datagrams) (hne : (Header.ofBytes b).device ≠ (Header.ofBytes best).device) :
    (Header.ofBytes b).priority.byte < (Header.ofBytes best).priority.byte := by
  apply UInt8.lt_of_le_of_ne (hf.priority_le b hb)
  intro heq
  apply hne
  rw [h.priority b hb best hf.mem]
  exact congrArg Priority.mk heq

namespace Record

variable {r fresh : Record} {o lead : Offer}

theorem take_of_held_below (ht : r.Takes o.bytes)
    (hlt : r.header.priority.byte < o.header.priority.byte) : r.take o = r.adopt o :=
  (take_of_accepts ht (accepts_of_priority_lt ht hlt)).2

theorem priority_take_lt {p : UInt8} (ht : r.Takes o.bytes) (hr : r.header.priority.byte < p)
    (ho : o.header.priority.byte < p) : (r.take o).header.priority.byte < p := by
  cases ha : r.accepts o.header o.now with
  | true =>
    rw [(take_of_accepts ht ha).2]
    exact ho
  | false =>
    rw [(take_of_not_accepts ht ha).2]
    exact hr

/-- A record that holds a healthy datagram within its validity window gives way only to
its own device, and only to a datagram that is not older. -/
theorem take_adopt (hl : fresh.Takes lead.bytes) (ht : fresh.Takes o.bytes)
    (hh : lead.header.priority.healthy = true)
    (hvalid : o.now - lead.now ≤ fresh.descriptor.timeout)
    (hother : o.header.device ≠ lead.header.device →
      o.header.priority.byte < lead.header.priority.byte)
    (hown : o.header.device = lead.header.device → o.header.priority = lead.header.priority) :
    (fresh.adopt lead).take o =
      if o.header.device = lead.header.device ∧ lead.header.timestamp ≤ o.header.timestamp then
        fresh.adopt o
      else fresh.adopt lead := by
  have hsame := adopt_sameSignal hl
  have htakes : (fresh.adopt lead).Takes o.bytes := hsame.takes_iff.2 ht
  have hv : (fresh.adopt lead).isValid o.now = true := by
    simp [isValid, adopt, hh, hvalid]
  have hnot : o.header.priority.above lead.header.priority = false := by
    rw [← Bool.not_eq_true, Priority.above_iff_lt]
    intro habove
    by_cases ho : o.header.device = lead.header.device
    · rw [hown ho] at habove
      exact UInt8.lt_irrefl _ habove
    · exact UInt8.lt_asymm habove (hother ho)
  have hiff : (fresh.adopt lead).accepts o.header o.now = true ↔
      o.header.device = lead.header.device ∧ lead.header.timestamp ≤ o.header.timestamp := by
    rw [accepts_eq_true_iff, hv]
    simp only [adopt, hnot, Bool.true_eq_false, Bool.false_eq_true, false_or]
    exact ⟨And.right, fun h => ⟨identity_of_takes htakes, h⟩⟩
  split
  · next h => rw [(take_of_accepts htakes (hiff.2 h)).2, hsame.adopt_eq]
  · next h =>
    have hrej := Bool.eq_false_iff.2 (mt hiff.1 h)
    exact (take_of_not_accepts htakes hrej).2

/-- What some of the datagrams have made of a fresh record: it is held below the foremost
priority as long as no datagram of that device has come, and then by the newest of them. -/
def LedBy (fresh : Record) (best : Header) (offers : List Offer) : Prop :=
  ((∀ o ∈ offers, o.header.device ≠ best.device) ∧
    (fresh.takeAll offers).header.priority.byte < best.priority.byte) ∨
  ∃ lead ∈ offers, lead.header.device = best.device ∧
    (∀ o ∈ offers, o.header.device = best.device →
      o.header.timestamp ≤ lead.header.timestamp) ∧
    fresh.takeAll offers = fresh.adopt lead

variable {datagrams : List (List UInt8)} {best : List UInt8} {before : List Offer}

/-- The first datagram of the foremost device is accepted; those of other devices before
it leave the record below its priority. -/
theorem ledBy_of_absent (h : Rivals fresh datagrams) (hf : Foremost datagrams best)
    (hmem : o.bytes ∈ datagrams)
    (habsent : ∀ a ∈ before, a.header.device ≠ (Header.ofBytes best).device)
    (hlt : (fresh.takeAll before).header.priority.byte < (Header.ofBytes best).priority.byte) :
    fresh.LedBy (Header.ofBytes best) (before ++ [o]) := by
  have hsame := fresh.takeAll_sameSignal before
  have htakes := hsame.takes_iff.2 (h.takes o.bytes hmem)
  by_cases ho : o.header.device = (Header.ofBytes best).device
  · have hp := (h.priority o.bytes hmem best hf.mem).1 ho
    refine Or.inr ⟨o, by simp, ho, ?_, ?_⟩
    · refine List.forall_mem_append.2 ⟨?_, List.forall_mem_singleton.2 fun _ => ?_⟩
      · intro a ha hdevice
        exact absurd hdevice (habsent a ha)
      · exact UInt32.le_refl _
    · rw [takeAll_concat, take_of_held_below htakes, hsame.adopt_eq]
      rwa [Offer.header, hp]
  · refine Or.inl ⟨?_, ?_⟩
    · exact List.forall_mem_append.2 ⟨habsent, List.forall_mem_singleton.2 ho⟩
    · rw [takeAll_concat]
      exact priority_take_lt htakes hlt (hf.priority_lt h hmem ho)

/-- Once the foremost device holds the record, only a newer datagram of its own changes
what is held. -/
theorem ledBy_of_lead (h : Rivals fresh datagrams) (hf : Foremost datagrams best)
    (hmem : o.bytes ∈ datagrams) (hlead : lead ∈ before) (hleadMem : lead.bytes ∈ datagrams)
    (hvalid : o.now - lead.now ≤ fresh.descriptor.timeout)
    (hdevice : lead.header.device = (Header.ofBytes best).device)
    (hnewest : ∀ a ∈ before, a.header.device = (Header.ofBytes best).device →
      a.header.timestamp ≤ lead.header.timestamp)
    (hheld : fresh.takeAll before = fresh.adopt lead) :
    fresh.LedBy (Header.ofBytes best) (before ++ [o]) := by
  have hp : lead.header.priority = (Header.ofBytes best).priority :=
    (h.priority lead.bytes hleadMem best hf.mem).1 hdevice
  have htake := take_adopt (h.takes _ hleadMem) (h.takes _ hmem) (hp ▸ hf.healthy h) hvalid
    (fun ho => by rw [hp]; exact hf.priority_lt h hmem (hdevice ▸ ho))
    (h.priority o.bytes hmem lead.bytes hleadMem).1
  rw [← hheld, ← takeAll_concat] at htake
  refine Or.inr ?_
  by_cases hnew : o.header.device = lead.header.device ∧
      lead.header.timestamp ≤ o.header.timestamp
  · rw [if_pos hnew] at htake
    refine ⟨o, by simp, hnew.1.trans hdevice, ?_, htake⟩
    refine List.forall_mem_append.2 ⟨?_, List.forall_mem_singleton.2 fun _ => ?_⟩
    · intro a ha had
      exact UInt32.le_trans (hnewest a ha had) hnew.2
    · exact UInt32.le_refl _
  · rw [if_neg hnew, hheld] at htake
    refine ⟨lead, List.mem_append_left _ hlead, hdevice, ?_, htake⟩
    refine List.forall_mem_append.2 ⟨hnewest, List.forall_mem_singleton.2 fun ho => ?_⟩
    apply UInt32.le_of_lt (UInt32.not_le.1 _)
    intro hle
    exact hnew ⟨ho.trans hdevice.symm, hle⟩

theorem elapsed_le {start span early late : UInt32} (hle : early - start ≤ late - start)
    (hspan : late - start ≤ span) : late - early ≤ span := by
  have he : late - early = (late - start) - (early - start) := by grind
  have hd : ((late - start) - (early - start)).toNat =
      (late - start).toNat - (early - start).toNat := UInt32.toNat_sub_of_le _ _ hle
  have hs := UInt32.le_iff_toNat_le.1 hspan
  rw [he, UInt32.le_iff_toNat_le, hd]
  omega

theorem ledBy_takeAll (h : Rivals fresh datagrams) (hf : Foremost datagrams best)
    (hsilent : fresh.header.priority.byte = 0) {start : UInt32} {offers : List Offer}
    (hmem : ∀ o ∈ offers, o.bytes ∈ datagrams)
    (hwithin : ∀ o ∈ offers, o.now - start ≤ fresh.descriptor.timeout)
    (hasc : offers.Pairwise fun a b => a.now - start ≤ b.now - start) :
    fresh.LedBy (Header.ofBytes best) offers := by
  induction offers using List.reverseRecOn with
  | nil =>
    refine Or.inl ⟨fun o ho => absurd ho List.not_mem_nil, ?_⟩
    rw [takeAll_nil, hsilent, UInt8.lt_iff_toNat_lt]
    have hh := (Priority.healthy_iff _).1 (hf.healthy h)
    exact Nat.lt_of_lt_of_le (by decide) hh
  | append_singleton before o ih =>
    obtain ⟨hbefore, -, hlast⟩ := List.pairwise_append.1 hasc
    have hstep := ih (fun a ha => hmem a (List.mem_append_left _ ha))
      (fun a ha => hwithin a (List.mem_append_left _ ha)) hbefore
    have ho : o ∈ before ++ [o] := by simp
    rcases hstep with ⟨habsent, hlt⟩ | ⟨lead, hlead, hdevice, hnewest, hheld⟩
    · exact ledBy_of_absent h hf (hmem o ho) habsent hlt
    · have hvalid := elapsed_le (hlast lead hlead o (by simp)) (hwithin o ho)
      exact ledBy_of_lead h hf (hmem o ho) hlead (hmem lead (List.mem_append_left _ hlead))
        hvalid hdevice hnewest hheld

/-- Datagrams of rivals offered to a fresh record end in the same header and payload in
whatever order they come: those of the newest datagram of the device with the highest
priority. -/
theorem arbitration_converges {descriptor : Descriptor} {kind : Kind} {fresh : Record}
    {datagrams : List (List UInt8)} (hnew : Record.new descriptor kind .receive = .ok fresh)
    (h : Rivals fresh datagrams) :
    (∃ best, Foremost datagrams best) ∧
      ∀ best start offers, Foremost datagrams best →
        Schedule start descriptor.timeout datagrams offers →
        (fresh.takeAll offers).header = Header.ofBytes best ∧
          (fresh.takeAll offers).payload = Payload.ofBytes kind (best.drop headerSize) := by
  obtain ⟨payload, hzero, rfl⟩ := new_eq_ok_iff.1 hnew
  have hkind : payload.kind = kind := Payload.kind_zero hzero
  refine ⟨h.exists_foremost, ?_⟩
  intro best start offers hf hs
  have hmem : ∀ o ∈ offers, o.bytes ∈ datagrams := by
    intro o ho
    exact hs.perm.subset (List.mem_map_of_mem ho)
  obtain ⟨champion, hchampion, hbytes⟩ := List.mem_map.1 (hs.perm.symm.subset hf.mem)
  have hled := ledBy_takeAll h hf rfl hmem hs.within hs.ascending
  rcases hled with ⟨habsent, -⟩ | ⟨lead, hlead, hdevice, hnewest, hheld⟩
  · exact absurd (congrArg (fun b => (Header.ofBytes b).device) hbytes)
      (habsent champion hchampion)
  · have hle := hnewest champion hchampion (by rw [Offer.header, hbytes])
    have hsame : lead.bytes = best := by
      apply h.foremost_unique hf (hmem lead hlead) hdevice
      rwa [Offer.header, hbytes] at hle
    rw [hheld, adopt, Offer.header, Offer.payload, hsame, hkind]
    exact ⟨rfl, rfl⟩

/-- Datagrams of three devices, one of them unhealthy. -/
def sampleRivals : List (List UInt8) :=
  [sampleDatagram 1 0x85 900 1, sampleDatagram 2 0x90 50 2, sampleDatagram 2 0x90 60 3,
    sampleDatagram 3 0x7f 999 4]

/-- The same in another order, over a wrap of the clock. -/
def sampleArrivals : List Offer :=
  [⟨sampleDatagram 3 0x7f 999 4, 0xfffffff0⟩, ⟨sampleDatagram 2 0x90 60 3, 0xfffffff8⟩,
    ⟨sampleDatagram 2 0x90 50 2, 8⟩, ⟨sampleDatagram 1 0x85 900 1, 8⟩]

theorem sampleArrivals_converge :
    ∃ fresh, Record.new ⟨⟨10, 20⟩, 1000⟩ .integer .receive = .ok fresh ∧
      Rivals fresh sampleRivals ∧ Schedule 0xfffffff0 1000 sampleRivals sampleArrivals ∧
      (fresh.takeAll sampleArrivals).header = ⟨2, ⟨0x90⟩, ⟨10, 20⟩, 60⟩ ∧
      (fresh.takeAll sampleArrivals).payload = .integer 3 := by
  have hnew : Record.new ⟨⟨10, 20⟩, 1000⟩ .integer .receive =
      .ok ⟨⟨⟨10, 20⟩, 1000⟩, .receive, Header.silent ⟨10, 20⟩, .integer 0, 0⟩ := rfl
  have hrivals : Rivals ⟨⟨⟨10, 20⟩, 1000⟩, .receive, Header.silent ⟨10, 20⟩, .integer 0, 0⟩
      sampleRivals := by
    refine ⟨?_, by decide, by decide, by decide⟩
    intro b hb
    rw [takes_iff]
    revert b
    decide
  have hschedule : Schedule 0xfffffff0 1000 sampleRivals sampleArrivals :=
    ⟨by decide, by decide, by decide⟩
  have hbest : Foremost sampleRivals (sampleDatagram 2 0x90 60 3) :=
    ⟨by decide, by decide, by decide⟩
  have hend := (arbitration_converges hnew hrivals).2 _ _ _ hbest hschedule
  refine ⟨_, hnew, hrivals, hschedule, ?_, ?_⟩
  · rw [hend.1]
    decide
  · rw [hend.2]
    decide

end Record
end Signal
end InstrumentBus
