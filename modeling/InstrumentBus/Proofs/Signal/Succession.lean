import InstrumentBus.Proofs.Signal.Reception

/-!
# Holders of a valid record

As long as a record stays valid its holder is displaced by a higher priority only. When
every device keeps to one priority, the held header therefore moves in one direction: to
newer datagrams of its device, or to a higher priority. No run of datagrams leads back to
a device that has been displaced.
-/

namespace InstrumentBus
namespace Signal

open Wire

/-- The ways in which a held header gives way: to a newer one of its device, or to a higher
priority. -/
def Header.YieldsTo (held next : Header) : Prop :=
  (next.device = held.device ∧ next.priority = held.priority ∧
    held.timestamp ≤ next.timestamp) ∨
    held.priority.byte < next.priority.byte

namespace Header.YieldsTo

variable {a b c : Header}

theorem refl (a : Header) : a.YieldsTo a := Or.inl ⟨rfl, rfl, UInt32.le_refl _⟩

theorem priority_le (h : a.YieldsTo b) : a.priority.byte ≤ b.priority.byte := by
  rcases h with ⟨-, hpriority, -⟩ | hlt
  · rw [hpriority]
    exact UInt8.le_refl _
  · exact UInt8.le_of_lt hlt

theorem trans (hab : a.YieldsTo b) (hbc : b.YieldsTo c) : a.YieldsTo c := by
  rcases hab with ⟨hdevice, hpriority, hle⟩ | hlt
  · rcases hbc with ⟨hdevice', hpriority', hle'⟩ | hlt'
    · exact Or.inl ⟨hdevice'.trans hdevice, hpriority'.trans hpriority, UInt32.le_trans hle hle'⟩
    · exact Or.inr (hpriority ▸ hlt')
  · exact Or.inr (UInt8.lt_of_lt_of_le hlt hbc.priority_le)

end Header.YieldsTo

namespace Record

/-- Datagrams for a record that is valid whenever one of them comes. Each device keeps to one
priority, the holder to the one held. -/
structure Contest (r : Record) (offers : List Offer) : Prop where
  takes : ∀ o ∈ offers, r.Takes o.bytes
  priority : ∀ o ∈ offers, ∀ p ∈ offers, o.header.device = p.header.device →
    o.header.priority = p.header.priority
  holder : ∀ o ∈ offers, o.header.device = r.header.device →
    o.header.priority = r.header.priority
  valid : ∀ before o after, offers = before ++ o :: after →
    (r.takeAll before).isValid o.now = true

variable {r : Record} {o : Offer} {offers before between after : List Offer}

/-- What a contender achieves: it succeeds the holder, which gives way to it, or it is rejected
and has no higher priority. -/
theorem Contest.take_cases (h : r.Contest (o :: offers)) :
    ((r.receive (Reader.ofBytes o.bytes) o.now).1 = .ok .accepted ∧
      (r.take o).header = o.header ∧ r.header.YieldsTo o.header) ∨
    ((r.receive (Reader.ofBytes o.bytes) o.now).1 = .ok .rejected ∧
      r.take o = r ∧ o.header.priority.byte ≤ r.header.priority.byte) := by
  have htakes := h.takes o (List.mem_cons_self ..)
  have hvalid : r.isValid o.now = true := h.valid [] o offers rfl
  cases ha : r.accepts o.header o.now with
  | true =>
    obtain ⟨hout, htake⟩ := take_of_accepts htakes ha
    refine Or.inl ⟨hout, by rw [htake]; rfl, ?_⟩
    obtain ⟨-, hinvalid | habove | ⟨hdevice, hle⟩⟩ := accepts_eq_true_iff.1 ha
    · cases hvalid.symm.trans hinvalid
    · exact Or.inr (Priority.above_iff_lt.1 habove)
    · exact Or.inl ⟨hdevice, h.holder o (List.mem_cons_self ..) hdevice, hle⟩
  | false =>
    obtain ⟨hout, htake⟩ := take_of_not_accepts htakes ha
    refine Or.inr ⟨hout, htake, UInt8.not_lt.1 ?_⟩
    intro hlt
    cases ha.symm.trans (accepts_of_priority_lt htakes hlt)

theorem Contest.tail (h : r.Contest (o :: offers)) : (r.take o).Contest offers := by
  refine ⟨?_, ?_, ?_, ?_⟩
  · intro p hp
    exact (r.receive_sameSignal _ _).takes_iff.2 (h.takes p (List.mem_cons_of_mem _ hp))
  · intro p hp q hq
    exact h.priority p (List.mem_cons_of_mem _ hp) q (List.mem_cons_of_mem _ hq)
  · intro p hp
    rcases h.take_cases with ⟨-, htake, -⟩ | ⟨-, htake, -⟩
    · rw [htake]
      exact h.priority p (List.mem_cons_of_mem _ hp) o (List.mem_cons_self ..)
    · rw [htake]
      exact h.holder p (List.mem_cons_of_mem _ hp)
  · intro before p after he
    exact h.valid (o :: before) p after (by rw [he]; rfl)

theorem Contest.rest (h : r.Contest (before ++ offers)) :
    (r.takeAll before).Contest offers := by
  induction before generalizing r with
  | nil => exact h
  | cons o before ih => exact ih h.tail

theorem Contest.of_append (h : r.Contest (offers ++ after)) : r.Contest offers := by
  refine ⟨?_, ?_, ?_, ?_⟩
  · intro o ho
    exact h.takes o (List.mem_append_left _ ho)
  · intro o ho p hp
    exact h.priority o (List.mem_append_left _ ho) p (List.mem_append_left _ hp)
  · intro o ho
    exact h.holder o (List.mem_append_left _ ho)
  · intro before o rest he
    apply h.valid before o (rest ++ after)
    rw [he, List.append_assoc, List.cons_append]

/-- One datagram: the held header gives way, if at all, and stands at least as high as the
datagram. -/
theorem Contest.yieldsTo_take (h : r.Contest (o :: offers)) :
    r.header.YieldsTo (r.take o).header ∧
      o.header.priority.byte ≤ (r.take o).header.priority.byte := by
  rcases h.take_cases with ⟨-, htake, hyields⟩ | ⟨-, htake, hle⟩
  · rw [htake]
    exact ⟨hyields, UInt8.le_refl _⟩
  · rw [htake]
    exact ⟨.refl _, hle⟩

theorem Contest.yieldsTo_takeAll (h : r.Contest offers) :
    r.header.YieldsTo (r.takeAll offers).header ∧
      ∀ o ∈ offers, o.header.priority.byte ≤ (r.takeAll offers).header.priority.byte := by
  induction offers generalizing r with
  | nil => exact ⟨.refl _, List.forall_mem_nil _⟩
  | cons o rest ih =>
    obtain ⟨hfirst, hle⟩ := h.yieldsTo_take
    obtain ⟨hrest, hall⟩ := ih h.tail
    refine ⟨hfirst.trans hrest, List.forall_mem_cons.2 ⟨?_, hall⟩⟩
    exact UInt8.le_trans hle hrest.priority_le

theorem Contest.header_takeAll (h : r.Contest offers) :
    (r.takeAll offers).header = r.header ∨
      ∃ o ∈ offers, (r.takeAll offers).header = o.header := by
  induction offers generalizing r with
  | nil => exact Or.inl rfl
  | cons o rest ih =>
    rcases ih h.tail with hsame | ⟨p, hp, hsame⟩
    · rcases h.take_cases with ⟨-, htake, -⟩ | ⟨-, htake, -⟩
      · exact Or.inr ⟨o, List.mem_cons_self .., hsame.trans htake⟩
      · exact Or.inl (hsame.trans (congrArg Record.header htake))
    · exact Or.inr ⟨p, List.mem_cons_of_mem _ hp, hsame⟩

theorem Contest.priority_takeAll (h : r.Contest offers)
    (hdevice : (r.takeAll offers).header.device = r.header.device) :
    (r.takeAll offers).header.priority = r.header.priority := by
  rcases h.header_takeAll with hsame | ⟨o, ho, hsame⟩
  · rw [hsame]
  · rw [hsame] at hdevice ⊢
    exact h.holder o ho hdevice

structure Succeeds (later earlier : Record) : Prop where
  priority_le : earlier.header.priority.byte ≤ later.header.priority.byte
  priority_lt_iff : earlier.header.priority.byte < later.header.priority.byte ↔
    later.header.device ≠ earlier.header.device
  timestamp_le : later.header.device = earlier.header.device →
    earlier.header.timestamp ≤ later.header.timestamp

theorem Contest.succeeds (h : r.Contest offers) : (r.takeAll offers).Succeeds r := by
  have hyields := h.yieldsTo_takeAll.1
  refine ⟨hyields.priority_le, ?_, ?_⟩
  · constructor
    · intro hlt hdevice
      rw [h.priority_takeAll hdevice] at hlt
      exact UInt8.lt_irrefl _ hlt
    · intro hdevice
      rcases hyields with ⟨hsame, -, -⟩ | hlt
      · exact absurd hsame hdevice
      · exact hlt
  · intro hdevice
    rcases hyields with ⟨-, -, hle⟩ | hlt
    · exact hle
    · rw [h.priority_takeAll hdevice] at hlt
      exact absurd hlt (UInt8.lt_irrefl _)

/-- A device below the priority held is rejected, since it would have to keep to its own. -/
theorem Contest.rejects_of_lt (h : r.Contest (o :: offers))
    (hlt : o.header.priority.byte < r.header.priority.byte) :
    (r.receive (Reader.ofBytes o.bytes) o.now).1 = .ok .rejected := by
  rcases h.take_cases with ⟨-, -, hyields⟩ | ⟨hout, -, -⟩
  · exact absurd hlt (UInt8.not_lt.2 hyields.priority_le)
  · exact hout

/-- While a record stays valid and every device keeps to its priority, the priority held never
falls. It rises exactly when the device that holds the record changes, and between two changes
the timestamp held does not go back. No datagram stands above what is held after it, and a
device that has been displaced is rejected for the rest of the run. -/
theorem displaced_device_never_returns {r : Record} {offers : List Offer}
    (h : r.Contest offers) :
    (∀ before between after, offers = before ++ between ++ after →
      (r.takeAll (before ++ between)).Succeeds (r.takeAll before) ∧
        ∀ o ∈ between, o.header.priority.byte ≤
          (r.takeAll (before ++ between)).header.priority.byte) ∧
    ∀ before o between p after, offers = before ++ (o :: between ++ p :: after) →
      (r.takeAll (before ++ [o])).header.device ≠ (r.takeAll before).header.device →
      p.header.device = (r.takeAll before).header.device →
      ((r.takeAll (before ++ o :: between)).receive (Reader.ofBytes p.bytes) p.now).1 =
        .ok .rejected := by
  refine ⟨?_, ?_⟩
  · intro before between after he
    subst he
    have hbetween := h.of_append.rest
    rw [takeAll_append]
    exact ⟨hbetween.succeeds, hbetween.yieldsTo_takeAll.2⟩
  · intro before o between p after he hdisplaced hreturns
    subst he
    have hstart : (r.takeAll before).Contest ((o :: between) ++ p :: after) := h.rest
    have hend := hstart.rest
    have hown := hstart.holder p (by simp) hreturns
    rw [takeAll_append] at hdisplaced
    rw [takeAll_append]
    -- From the displacement on, more is held than the displaced device keeps to.
    have hfirst : (r.takeAll before).Contest ([o] ++ between) := hstart.of_append
    have hrise := hfirst.of_append.succeeds.priority_lt_iff.2 hdisplaced
    apply hend.rejects_of_lt
    rw [hown]
    exact UInt8.lt_of_lt_of_le hrise hstart.of_append.tail.succeeds.priority_le

def sampleSlot : Record :=
  ⟨⟨⟨10, 20⟩, 1000⟩, .receive, ⟨10, ⟨0x85⟩, ⟨10, 20⟩, 100⟩, .integer 7, 50⟩

/-- Device 11 displaces the holder, which goes on sending. -/
def sampleContest : List Offer :=
  [⟨sampleDatagram 10 0x85 120 1, 60⟩, ⟨sampleDatagram 11 0x90 5 2, 70⟩,
    ⟨sampleDatagram 11 0x90 9 3, 80⟩, ⟨sampleDatagram 10 0x85 130 4, 90⟩]

theorem sampleContest_displaces_once :
    sampleSlot.Contest sampleContest ∧
      (sampleSlot.takeAll sampleContest).Succeeds sampleSlot ∧
      (sampleSlot.takeAll sampleContest).header.device = 11 ∧
      ((sampleSlot.takeAll (sampleContest.take 3)).receive
        (Reader.ofBytes (sampleDatagram 10 0x85 130 4)) 90).1 = .ok .rejected := by
  have hcontest : sampleSlot.Contest sampleContest := by
    refine ⟨?_, by decide, by decide, ?_⟩
    · intro o ho
      rw [takes_iff]
      revert o
      decide
    · intro before o after he
      rcases before with _ | ⟨a, _ | ⟨b, _ | ⟨c, _ | ⟨d, rest⟩⟩⟩⟩
      all_goals simp only [sampleContest, List.nil_append, List.cons_append, List.cons.injEq] at he
      · obtain ⟨rfl, -⟩ := he
        decide
      · obtain ⟨rfl, rfl, -⟩ := he
        decide
      · obtain ⟨rfl, rfl, rfl, -⟩ := he
        decide
      · obtain ⟨rfl, rfl, rfl, rfl, -⟩ := he
        decide
      · simp at he
  obtain ⟨hsucceeds, hrejected⟩ := displaced_device_never_returns hcontest
  refine ⟨hcontest, (hsucceeds [] sampleContest [] rfl).1, by decide, ?_⟩
  exact hrejected [⟨sampleDatagram 10 0x85 120 1, 60⟩] ⟨sampleDatagram 11 0x90 5 2, 70⟩
    [⟨sampleDatagram 11 0x90 9 3, 80⟩] ⟨sampleDatagram 10 0x85 130 4, 90⟩ [] rfl
    (by decide) (by decide)

end Record
end Signal
end InstrumentBus
