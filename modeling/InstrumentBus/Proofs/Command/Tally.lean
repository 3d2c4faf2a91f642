import InstrumentBus.Command.Replay
import InstrumentBus.Proofs.Dictionary.Reachable

/-!
# What a replay notes

A replay counts its datagrams, lists an event for each of them and remembers the signals that one
was accepted for. After every datagram the counts are those of the events listed so far, and the
signals remembered are those that an accepted event is for. The events are those of draining the
entries one after the other, and the clock is left at the time of the last one.
-/

namespace InstrumentBus

namespace Dictionary

open Wire Signal

variable {d : Dictionary} {now : UInt32} {reader : Reader}

theorem drain_of_ended (h : reader.available = 0) : d.drain now reader = ([], d) := by
  rw [drain, if_pos h]

theorem drain_of_error {e : Error} {next : Dictionary} {after : Reader}
    (hmore : reader.available ≠ 0) (h : d.ingest now reader = (.error e, next, after)) :
    d.drain now reader =
      ([⟨(Header.peek reader).toOption, .error e, after.position⟩], next) := by
  rw [drain, if_neg hmore]
  dsimp only
  split
  · next heq =>
    cases h.symm.trans heq
    rfl
  · next heq => cases h.symm.trans heq

theorem drain_of_ok {outcome : Outcome} {next : Dictionary} {after : Reader}
    (hmore : reader.available ≠ 0) (h : d.ingest now reader = (.ok outcome, next, after)) :
    d.drain now reader =
      (⟨(Header.peek reader).toOption, .ok outcome, after.position⟩ :: (next.drain now after).1,
        (next.drain now after).2) := by
  rw [drain, if_neg hmore]
  dsimp only
  split
  · next heq => cases h.symm.trans heq
  · next heq =>
    cases h.symm.trans heq
    rfl

end Dictionary

namespace Command

open Wire Signal Dictionary

namespace Tally

/-- The counts and the signals remembered are those of the events listed. -/
structure Exact (t : Tally) : Prop where
  summary : t.summary = ⟨(t.events.toList.map Event.outcomeText).count "accepted",
    (t.events.toList.map Event.outcomeText).count "rejected",
    (t.events.toList.map Event.outcomeText).count "error"⟩
  total : t.summary.accepted + t.summary.rejected + t.summary.errors = t.events.toList.length
  touched : ∀ i, i ∈ t.touched ↔
    ∃ e ∈ t.events.toList, e.result = .ok .accepted ∧ e.signal = some i

variable {t : Tally} {e : Event}

theorem exact_empty : Tally.empty.Exact := by
  refine ⟨rfl, rfl, fun i => ?_⟩
  simp [Tally.empty, IdentitySet.not_mem_empty]

theorem events_note (t : Tally) (e : Event) :
    (t.note e).events.toList = t.events.toList ++ [e] := by
  unfold note
  split <;> exact Array.toList_push

theorem summary_note (t : Tally) (e : Event) : (t.note e).summary =
    ⟨t.summary.accepted + if e.outcomeText = "accepted" then 1 else 0,
      t.summary.rejected + if e.outcomeText = "rejected" then 1 else 0,
      t.summary.errors + if e.outcomeText = "error" then 1 else 0⟩ := by
  obtain ⟨line, time, signal, result⟩ := e
  rcases result with fault | _ | _ <;> rfl

theorem touched_note {i : Identity} :
    i ∈ (t.note e).touched ↔ i ∈ t.touched ∨ e.result = .ok .accepted ∧ e.signal = some i := by
  obtain ⟨line, time, signal, result⟩ := e
  rcases result with fault | _ | _
  · simp [note]
  · simp [note, IdentitySet.mem_extend, or_comm]
  · simp [note]

theorem count_note (t : Tally) (e : Event) (text : String) :
    ((t.note e).events.toList.map Event.outcomeText).count text =
      (t.events.toList.map Event.outcomeText).count text +
        if e.outcomeText = text then 1 else 0 := by
  rw [events_note, List.map_append, List.count_append, List.map_singleton, List.count_singleton]
  simp only [beq_iff_eq]

theorem outcome_counts_once (e : Event) :
    (if e.outcomeText = "accepted" then 1 else 0) + (if e.outcomeText = "rejected" then 1 else 0) +
      (if e.outcomeText = "error" then 1 else 0) = 1 := by
  obtain ⟨line, time, signal, result⟩ := e
  rcases result with fault | _ | _ <;> rfl

theorem Exact.note (h : t.Exact) (e : Event) : (t.note e).Exact := by
  constructor
  case summary =>
    rw [summary_note, h.summary]
    simp only [count_note]
  case total =>
    have hone := outcome_counts_once e
    rw [summary_note, events_note, List.length_append, ← h.total, List.length_singleton]
    dsimp only
    omega
  case touched =>
    intro i
    simp only [touched_note, h.touched i, events_note, List.mem_append, List.mem_singleton,
      or_and_right, exists_or, exists_eq_left]

end Tally

def LogEntry.event (entry : LogEntry) (a : Arrival) : Event :=
  ⟨entry.line, entry.time, a.header.map (·.identity), a.result⟩

/-- The events of entries in order, and the dictionary after them. -/
def told (d : Dictionary) : List LogEntry → List Event × Dictionary
  | [] => ([], d)
  | entry :: rest =>
    let (arrivals, after) := d.drain entry.time (Reader.ofBytes entry.bytes)
    let (events, last) := told after rest
    (arrivals.map entry.event ++ events, last)

def endTime (entries : List LogEntry) : UInt32 := (entries.getLast?.map (·.time)).getD 0

namespace Playback

variable {p : Playback} {P : Tally → Prop}

/-- What one more event keeps is kept by an entry. -/
theorem follow_preserves (hnote : ∀ t e, P t → P (t.note e)) (entry : LogEntry) (reader : Reader)
    (h : P p.tally) : P (p.follow entry reader).tally := by
  fun_induction Playback.follow p entry reader with
  | case1 p reader hend => exact h
  | case2 p reader hmore signal e next after hstep =>
    exact hnote p.tally ⟨entry.line, entry.time, signal, .error e⟩ h
  | case3 p reader hmore signal outcome next after hstep ih => exact ih (hnote _ _ h)

theorem play_preserves (hnote : ∀ t e, P t → P (t.note e)) (entries : List LogEntry)
    (h : P p.tally) : P (p.play entries).tally := by
  induction entries generalizing p with
  | nil => exact h
  | cons entry rest ih => exact ih (follow_preserves hnote entry _ h)

theorem exact_play (d : Dictionary) (entries : List LogEntry) :
    ((start d entries).play entries).tally.Exact :=
  play_preserves (fun _ e h => h.note e) entries Tally.exact_empty

/-- To follow an entry is to drain it and to note what arrives. -/
theorem follow_eq (p : Playback) (entry : LogEntry) (reader : Reader) :
    p.follow entry reader = ⟨p.now, (p.dictionary.drain p.now reader).2,
      ((p.dictionary.drain p.now reader).1.map entry.event).foldl Tally.note p.tally⟩ := by
  fun_induction Playback.follow p entry reader with
  | case1 p reader hend => rw [drain_of_ended hend]; rfl
  | case2 p reader hmore signal e next after hstep => rw [drain_of_error hmore hstep]; rfl
  | case3 p reader hmore signal outcome next after hstep ih =>
    rw [drain_of_ok hmore hstep]
    exact ih

theorem play_eq (p : Playback) (entries : List LogEntry) :
    p.play entries = ⟨(entries.getLast?.map (·.time)).getD p.now, (told p.dictionary entries).2,
      (told p.dictionary entries).1.foldl Tally.note p.tally⟩ := by
  induction entries generalizing p with
  | nil => rfl
  | cons entry rest ih =>
    have hlast : ((entry :: rest).getLast?.map (·.time)).getD p.now =
        (rest.getLast?.map (·.time)).getD entry.time := by
      rw [List.getLast?_cons]
      cases rest.getLast? <;> rfl
    have hfirst : p.play (entry :: rest) = (p.enter entry).play rest := rfl
    rw [hfirst, ih, enter, follow_eq, hlast]
    simp only [told, List.foldl_append]

theorem events_foldl_note (t : Tally) (events : List Event) :
    (events.foldl Tally.note t).events.toList = t.events.toList ++ events := by
  induction events generalizing t with
  | nil => exact (List.append_nil _).symm
  | cons e rest ih =>
    rw [List.foldl_cons, ih, Tally.events_note, List.append_assoc, List.singleton_append]

theorem dictionary_play (p : Playback) (entries : List LogEntry) :
    (p.play entries).dictionary = (told p.dictionary entries).2 := by
  rw [play_eq]

variable (d : Dictionary) (entries : List LogEntry)

theorem now_play : ((start d entries).play entries).now = endTime entries := by
  rw [play_eq]
  cases entries with
  | nil => rfl
  | cons entry rest =>
    rw [endTime, List.getLast?_cons]
    rfl

theorem events_play :
    ((start d entries).play entries).tally.events.toList = (told d entries).1 := by
  rw [play_eq, events_foldl_note]
  rfl

end Playback

end Command
end InstrumentBus
