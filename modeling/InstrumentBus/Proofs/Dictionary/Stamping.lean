import InstrumentBus.Proofs.Dictionary.History
import InstrumentBus.Proofs.Dictionary.Sealing
import InstrumentBus.Proofs.Dictionary.SingleSource
import InstrumentBus.Proofs.Signal.Amendment

/-!
# Stamps of the signals a node sends

A signal in transmit mode bears the reading of the clock at the last change of its value, in its
header and as the time of its last update. A change of its priority or of its device leaves that
stamp as it is, so that a datagram can bear a changed header under an old time. No call but a
local change of the signal touches it.
-/

namespace InstrumentBus

namespace Signal

structure LocalChange where
  now : UInt32
  change : Change

def LocalChange.reading? (m : LocalChange) : Option UInt32 :=
  match m.change with
  | .value _ => some m.now
  | .priority _ | .device _ => none

def lastReading? (changes : List LocalChange) : Option UInt32 :=
  (changes.filterMap LocalChange.reading?).getLast?

inductive Record.AmendedBy : Record → List LocalChange → Record → Prop where
  | refl (r : Record) : AmendedBy r [] r
  | cons {r s t : Record} {m : LocalChange} {ms : List LocalChange}
      (h : r.Amended m.now m.change s) (hs : AmendedBy s ms t) : AmendedBy r (m :: ms) t

theorem lastReading?_cons (m : LocalChange) (ms : List LocalChange) :
    lastReading? (m :: ms) = (lastReading? ms).or m.reading? := by
  unfold lastReading?
  cases hm : m.reading? with
  | none => simp [hm]
  | some now =>
    rw [List.filterMap_cons_some hm, List.getLast?_cons]
    cases (ms.filterMap LocalChange.reading?).getLast? <;> rfl

theorem lastReading?_of_getLast? {ms : List LocalChange} {m : LocalChange}
    (h : ms.getLast? = some m) (hm : m.reading? = some m.now) :
    lastReading? ms = some m.now := by
  obtain ⟨before, rfl⟩ := List.getLast?_eq_some_iff.1 h
  simp [lastReading?, hm]

namespace Record

variable {r s t : Record} {m : LocalChange} {ms later : List LocalChange}

theorem AmendedBy.append (h : r.AmendedBy ms s) (hs : s.AmendedBy later t) :
    r.AmendedBy (ms ++ later) t := by
  induction h with
  | refl r => exact hs
  | cons h _ ih => exact .cons h (ih hs)

theorem Amended.mode {now : UInt32} {c : Change} (h : r.Amended now c s) : s.mode = r.mode := by
  cases h <;> rfl

theorem AmendedBy.mode (h : r.AmendedBy ms s) : s.mode = r.mode := by
  induction h with
  | refl r => rfl
  | cons h _ ih => exact ih.trans h.mode

theorem Amended.stamps (h : r.Amended m.now m.change s) :
    s.header.timestamp = m.reading?.getD r.header.timestamp ∧
      s.updated = m.reading?.getD r.updated := by
  obtain ⟨now, change⟩ := m
  cases h with
  | value h => exact ⟨rfl, rfl⟩
  | priority p => exact ⟨rfl, rfl⟩
  | device device => exact ⟨rfl, rfl⟩

theorem AmendedBy.stamps (h : r.AmendedBy ms s) :
    s.header.timestamp = (lastReading? ms).getD r.header.timestamp ∧
      s.updated = (lastReading? ms).getD r.updated := by
  induction h with
  | refl r => exact ⟨rfl, rfl⟩
  | @cons r s t m ms h _ ih =>
    obtain ⟨hheader, hupdated⟩ := h.stamps
    rw [lastReading?_cons, ih.1, ih.2, hheader, hupdated]
    cases lastReading? ms <;> exact ⟨rfl, rfl⟩

end Record
end Signal

namespace Dictionary

open Wire Signal

def Request.change? (i : Identity) : Request → Option Change
  | .perform (.change j change) _ => if j = i then some change else none
  | _ => none

def Reply.made : Reply → Bool
  | .changed (.ok _) => true
  | _ => false

/-- The change of a signal that a call makes, if it makes one. -/
def changed? (d : Dictionary) (i : Identity) (c : Call) : Option LocalChange :=
  if (d.call c).1.made then (c.request.change? i).map (LocalChange.mk c.now) else none

def changes (d : Dictionary) (i : Identity) : List Call → List LocalChange
  | [] => []
  | c :: calls => (d.changed? i c).toList ++ (d.call c).2.changes i calls

section Steps

variable {d : Dictionary} {i : Identity} {r : Record}

/-- What a call makes of a signal in transmit mode: the change that it makes of the signal, or
nothing. -/
theorem record?_call_of_transmit (hr : d.record? i = some r) (hm : r.mode = .transmit)
    (c : Call) :
    ∃ s, (d.call c).2.record? i = some s ∧ r.AmendedBy (d.changed? i c).toList s := by
  obtain ⟨now, request⟩ := c
  cases request with
  | ingest reader => exact ⟨r, record?_ingest_of_transmit hr hm now reader, .refl r⟩
  | emit j w => exact ⟨r, hr, .refl r⟩
  | perform op single =>
    cases op with
    | ingest bytes =>
      exact ⟨r, record?_ingest_of_transmit hr hm now (Reader.ofBytes bytes), .refl r⟩
    | drain bytes => exact single.elim
    | change j change =>
      cases hc : d.change now j change with
      | error e =>
        have hcall : d.call ⟨now, .perform (.change j change) single⟩ =
            (.changed (.error e), d) := by
          simp only [call, Node.perform, hc]
        rw [changed?, hcall]
        exact ⟨r, hr, .refl r⟩
      | ok d' =>
        have hcall : d.call ⟨now, .perform (.change j change) single⟩ =
            (.changed (.ok ()), d') := by
          simp only [call, Node.perform, hc]
        rw [changed?, hcall]
        by_cases hj : j = i
        · subst hj
          obtain ⟨r₀, s, hr₀, hs, rfl⟩ := change_eq_ok_iff.1 hc
          cases hr.symm.trans hr₀
          have hidentity : s.identity = j :=
            (Record.change_sameSignal hs).identity.trans (identity_of_record? hr)
          refine ⟨s, record?_replace_self hr hidentity, ?_⟩
          simp only [Reply.made, Request.change?, ↓reduceIte, Option.map_some, Option.toList_some]
          exact .cons (Record.amended_of_change hs) (.refl s)
        · refine ⟨r, ((agree_change hc (Ne.symm hj)).record).trans hr, ?_⟩
          simp only [Reply.made, Request.change?, hj, ↓reduceIte, Option.map_none,
            Option.toList_none]
          exact .refl r
    | _ => exact ⟨r, hr, .refl r⟩

/-- A run leaves a signal in transmit mode with the changes that it made of it. -/
theorem record?_after_of_transmit (hr : d.record? i = some r) (hm : r.mode = .transmit)
    (calls : List Call) :
    ∃ s, (d.after calls).record? i = some s ∧ r.AmendedBy (d.changes i calls) s := by
  induction calls generalizing d r with
  | nil => exact ⟨r, hr, .refl r⟩
  | cons c calls ih =>
    obtain ⟨s, hs, hfirst⟩ := record?_call_of_transmit hr hm c
    obtain ⟨t, ht, hrest⟩ := ih hs (hfirst.mode.trans hm)
    exact ⟨t, ht, hfirst.append hrest⟩

theorem record?_call_of_changed? (hr : d.record? i = some r) (hm : r.mode = .transmit) {c : Call}
    {m : LocalChange} (hc : d.changed? i c = some m) :
    ∃ s, (d.call c).2.record? i = some s ∧ r.Amended m.now m.change s := by
  obtain ⟨s, hs, hby⟩ := record?_call_of_transmit hr hm c
  rw [hc] at hby
  obtain ⟨⟩ | ⟨h, ⟨⟩⟩ := hby
  exact ⟨s, hs, h⟩

theorem now_of_changed? {c : Call} {m : LocalChange} (hc : d.changed? i c = some m) :
    m.now = c.now := by
  unfold changed? at hc
  split at hc
  · obtain ⟨change, -, rfl⟩ := Option.map_eq_some_iff.1 hc
    rfl
  · cases hc

theorem IsDatagram.header_eq {bytes : List UInt8} (h : IsDatagram d r bytes) :
    Header.ofBytes bytes = r.header := by
  have hheader := header_datagram d r []
  rwa [List.append_nil, ← isDatagram_iff.1 h] at hheader

end Steps

/-- A change of the value stamps the record, and a change of the priority or of the device does
not. So after any run the record of a signal that is sent, and every datagram emitted from it,
bears the reading of the clock at the last change of its value. That is the last change of all
unless one of another kind has been made since. -/
theorem value_changes_stamp {b : Builder} (hb : b.Reachable) {i : Identity} {r : Record}
    (hr : b.build.record? i = some r) (hm : r.mode = .transmit) (calls : List Call) :
    ∃ s stamp, (b.build.after calls).record? i = some s ∧
      r.AmendedBy (b.build.changes i calls) s ∧
      stamp = (lastReading? (b.build.changes i calls)).getD 0 ∧
      s.header.timestamp = stamp ∧ s.updated = stamp ∧
      (∀ c m, (b.build.after calls).changed? i c = some m →
        ∃ t, ((b.build.after calls).call c).2.record? i = some t ∧ s.Amended c.now m.change t ∧
          ∀ v, m.change = .value v → t.header.timestamp = c.now ∧ t.updated = c.now) ∧
      (∀ w n, ((b.build.after calls).emit i w).1 = .ok n →
        ∃ bytes, Laid bytes w ((b.build.after calls).emit i w).2 ∧
          (Header.ofBytes bytes).timestamp = stamp) ∧
      (∃ bytes, (b.build.after calls).emitBytes i = .ok bytes ∧
        (Header.ofBytes bytes).timestamp = stamp) ∧
      ∀ m v, (b.build.changes i calls).getLast? = some m → m.change = .value v →
        stamp = m.now := by
  have hbuilt : b.build.Reachable := .build hb
  have hwf := (hbuilt.after calls).wellFormed
  obtain ⟨s, hs, hby⟩ := record?_after_of_transmit hr hm calls
  have hmode := hby.mode.trans hm
  have hzero := (hb.silent (mem_of_record? hr)).1
  have hupdated : r.updated = 0 :=
    ((hbuilt.wellFormed.of_record? hr).stamped hm).symm.trans hzero
  obtain ⟨hheader, hlast⟩ := hby.stamps
  rw [hzero] at hheader
  rw [hupdated] at hlast
  refine ⟨s, _, hs, hby, rfl, hheader, hlast, ?_, ?_, ?_, ?_⟩
  · intro c m hc
    obtain ⟨t, ht, hamended⟩ := record?_call_of_changed? hs hmode hc
    have hstamps := hamended.stamps
    rw [now_of_changed? hc] at hamended
    refine ⟨t, ht, hamended, ?_⟩
    intro v hv
    simpa [LocalChange.reading?, hv, now_of_changed? hc] using hstamps
  · intro w n hn
    obtain ⟨-, s', bytes, hs', -, hbytes, -, hlaid⟩ := laid_of_emit_ok hwf hn
    cases hs.symm.trans hs'
    exact ⟨bytes, hlaid, hbytes.header_eq ▸ hheader⟩
  · have hbytes := isDatagram_iff.2 (rfl : (b.build.after calls).datagram s = _)
    exact ⟨_, (emitBytes_ok_iff hwf).2 ⟨s, hs, hmode, hbytes⟩, hbytes.header_eq ▸ hheader⟩
  · intro m v hlatest hv
    have hreading : m.reading? = some m.now := by simp [LocalChange.reading?, hv]
    rw [lastReading?_of_getLast? hlatest hreading]
    rfl

/-- A new value at time 20 and a new priority at time 40. -/
def sampleChanges : List Call :=
  [⟨20, .perform (.change ⟨10, 20⟩ (.value (.integer 9))) trivial⟩,
    ⟨40, .perform (.change ⟨10, 20⟩ (.priority ⟨0x85⟩)) trivial⟩]

/-- The datagram of the new value and the new priority bears the time of the new value. -/
theorem sampleChanges_stamp_value :
    sampleBuilder.Reachable ∧
    ∃ bytes, (sampleBuilder.build.after sampleChanges).emitBytes ⟨10, 20⟩ = .ok bytes ∧
      bytes = [7, 0x85, 10, 20, 0, 0, 0, 20, 0, 0, 0, 9] ∧
      (Header.ofBytes bytes).timestamp = 20 := by
  have hb : sampleBuilder.Reachable := (Builder.Reachable.new _).attemptAll _
  have hr : sampleBuilder.build.record? ⟨10, 20⟩ = some ⟨⟨⟨10, 20⟩, 1000⟩, .transmit,
      ⟨7, ⟨0x90⟩, ⟨10, 20⟩, 0⟩, .integer 0, 0⟩ := by decide +kernel
  have hlast : lastReading? (sampleBuilder.build.changes ⟨10, 20⟩ sampleChanges) = some 20 := by
    decide +kernel
  have hsent : (sampleBuilder.build.after sampleChanges).emitBytes ⟨10, 20⟩ =
      .ok [7, 0x85, 10, 20, 0, 0, 0, 20, 0, 0, 0, 9] := by decide +kernel
  obtain ⟨s, stamp, -, -, rfl, -, -, -, -, ⟨bytes, hbytes, hstamp⟩, -⟩ :=
    value_changes_stamp hb hr rfl sampleChanges
  rw [hlast] at hstamp
  cases hsent.symm.trans hbytes
  exact ⟨hb, _, hsent, rfl, hstamp⟩

/-- The last change of the signal is made at time 40 and succeeds, but neither the record nor its
datagram bears that time. -/
theorem priority_change_unstamped :
    ∃ s m, (sampleBuilder.build.after sampleChanges).record? ⟨10, 20⟩ = some s ∧
      (sampleBuilder.build.changes ⟨10, 20⟩ sampleChanges).getLast? = some m ∧
      m.now = 40 ∧ s.header.priority = ⟨0x85⟩ ∧ s.header.timestamp ≠ m.now ∧ s.updated ≠ m.now ∧
      ∃ bytes, (sampleBuilder.build.after sampleChanges).emitBytes ⟨10, 20⟩ = .ok bytes ∧
        (Header.ofBytes bytes).timestamp ≠ m.now := by
  refine ⟨⟨⟨⟨10, 20⟩, 1000⟩, .transmit, ⟨7, ⟨0x85⟩, ⟨10, 20⟩, 20⟩, .integer 9, 20⟩,
    ⟨40, .priority ⟨0x85⟩⟩, by decide +kernel, rfl, rfl, rfl, by decide, by decide,
    [7, 0x85, 10, 20, 0, 0, 0, 20, 0, 0, 0, 9], by decide +kernel, by decide⟩

end Dictionary
end InstrumentBus
