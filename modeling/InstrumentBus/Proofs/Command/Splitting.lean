import InstrumentBus.Proofs.Command.Replaying

/-!
# Where the lines of a log are broken

What a dictionary makes of the bytes at a reader depends on those bytes alone, and not on what was
read before them. So an entry whose bytes are taken in without an error up to some place can be
broken there into two, or two such entries joined, and the replay tells the same story.
-/

namespace InstrumentBus

namespace Dictionary

open Wire Signal

/-- The signal an arrival is for, as far as its header tells, and what became of it. -/
def Arrival.news (a : Arrival) : Option Identity × Except Error Outcome :=
  (a.header.map Header.identity, a.result)

/-- The bytes are a run of datagrams, each of which is taken in. -/
def TakesWhole (d : Dictionary) (now : UInt32) (bytes : List UInt8) : Prop :=
  ∀ a ∈ (d.drain now (Reader.ofBytes bytes)).1, ∃ outcome, a.result = .ok outcome

section Locality

variable {d : Dictionary} {now : UInt32} {reader first second : Reader}

theorem ingest_congr (hd : d.WellFormed) (h : first.remaining = second.remaining) (now : UInt32) :
    (d.ingest now first).1 = (d.ingest now second).1 ∧
      (d.ingest now first).2.1 = (d.ingest now second).2.1 ∧
      (d.ingest now first).2.2.remaining = (d.ingest now second).2.2.remaining := by
  rcases ingest_exits now hd first with ⟨e, hverdict, he⟩ | ⟨r, hr, hm, ha⟩
  · rw [h] at hverdict
    rw [he, hverdict.ingest_eq hd]
    exact ⟨rfl, rfl, h⟩
  · have hoffered := ingest_of_offered now hd hr hm ha
    rw [h] at hr ha hoffered
    rw [hoffered, ingest_of_offered now hd hr hm ha]
    refine ⟨rfl, rfl, ?_⟩
    rw [Reader.remaining_advance, Reader.remaining_advance, h]

theorem available_eq (h : first.remaining = second.remaining) :
    first.available = second.available := by
  rw [← first.length_remaining, h, second.length_remaining]

theorem header_of_ingest {outcome : Outcome} {next : Dictionary} {after : Reader}
    (h : d.ingest now reader = (.ok outcome, next, after)) :
    headerSize ≤ reader.remaining.length := by
  rw [reader.length_remaining]
  by_contra hcut
  cases h.symm.trans (ingest_of_cut now (Nat.lt_of_not_le hcut))

/-- Two readers with the same bytes left bring the same news. -/
theorem drain_congr (hd : d.Reachable) (h : first.remaining = second.remaining) :
    (d.drain now first).1.map Arrival.news = (d.drain now second).1.map Arrival.news ∧
      (d.drain now first).2 = (d.drain now second).2 := by
  revert second
  fun_induction Dictionary.drain d now first with
  | case1 d first hend =>
    intro second h
    rw [drain_of_ended (available_eq h ▸ hend)]
    exact ⟨rfl, rfl⟩
  | case2 d first hmore header e next after hstep =>
    intro second h
    obtain ⟨hresult, hnext, -⟩ := ingest_congr hd.wellFormed h now
    rcases hsecond : d.ingest now second with ⟨result, next', after'⟩
    rw [hstep, hsecond] at hresult hnext
    cases hresult
    cases hnext
    rw [drain_of_error (available_eq h ▸ hmore) hsecond]
    refine ⟨?_, rfl⟩
    simp only [List.map_cons, List.map_nil, Arrival.news, header, identity_peek, h]
  | case3 d first hmore header outcome next after hstep arrivals last hrest ih =>
    intro second h
    obtain ⟨hresult, hnext, hafter⟩ := ingest_congr hd.wellFormed h now
    have hreachable := hd.ingest now first
    rcases hsecond : d.ingest now second with ⟨result, next', after'⟩
    rw [hstep, hsecond] at hresult hnext hafter
    rw [hstep] at hreachable
    cases hresult
    cases hnext
    have hothers := ih hreachable hafter
    rw [hrest] at hothers
    rw [drain_of_ok (available_eq h ▸ hmore) hsecond]
    refine ⟨?_, hothers.2⟩
    simp only [List.map_cons, Arrival.news, header, identity_peek, h]
    exact congrArg _ hothers.1

/-- Behind bytes that are taken in to their end, more bytes are taken in as if they stood by
themselves. -/
theorem drain_extend (hd : d.Reachable) (hp : reader.position ≤ reader.buffer.length)
    (h : ∀ a ∈ (d.drain now reader).1, ∃ outcome, a.result = .ok outcome) (more : List UInt8) :
    (d.drain now (reader.extend more)).1.map Arrival.news =
        (d.drain now reader).1.map Arrival.news ++
          ((d.drain now reader).2.drain now (Reader.ofBytes more)).1.map Arrival.news ∧
      (d.drain now (reader.extend more)).2 =
        ((d.drain now reader).2.drain now (Reader.ofBytes more)).2 := by
  have hremaining := Reader.remaining_extend hp more
  fun_induction Dictionary.drain d now reader with
  | case1 d reader hend =>
    have hnone : reader.remaining = [] := by
      rw [← List.length_eq_zero_iff, reader.length_remaining, hend]
    rw [hnone] at hremaining
    exact drain_congr hd hremaining
  | case2 d reader hmore header e next after hstep =>
    obtain ⟨outcome, hok⟩ := h _ (List.mem_singleton.2 rfl)
    cases hok
  | case3 d reader hmore header outcome next after hstep arrivals last hrest ih =>
    rcases ingest_extend hd.wellFormed hp now more with ⟨hwants, -⟩ | ⟨-, hlonger⟩
    · rw [hstep] at hwants
      cases hwants
    · have hreachable := hd.ingest now reader
      have hstand := position_ingest_le hd.wellFormed hp now
      rw [hstep] at hreachable hstand hlonger
      obtain ⟨-, hothers⟩ := List.forall_mem_cons.1 h
      rw [hrest] at ih
      obtain ⟨hnews, hlast⟩ := ih hreachable hstand hothers (Reader.remaining_extend hstand more)
      have hmore' : (reader.extend more).available ≠ 0 := by
        rw [← Reader.length_remaining, hremaining, List.length_append, reader.length_remaining]
        omega
      have hnamed := namedBy_append (header_of_ingest hstep) more
      rw [← hremaining] at hnamed
      rw [drain_of_ok hmore' hlonger]
      refine ⟨?_, hlast⟩
      simp only [List.map_cons, List.cons_append, Arrival.news, header, identity_peek, hnamed,
        hnews]

end Locality

end Dictionary

namespace Command

open Wire Signal Dictionary

def Event.unnumbered (e : Event) : Event := { e with line := 0 }

def LogEntry.content (entry : LogEntry) : UInt32 × List UInt8 := (entry.time, entry.bytes)

/-- From a dictionary on, two lists of entries tell the same but for the numbers of lines, and
leave the same dictionary behind. -/
structure Alike (d : Dictionary) (entries others : List LogEntry) : Prop where
  events : (told d entries).1.map Event.unnumbered = (told d others).1.map Event.unnumbered
  last : (told d entries).2 = (told d others).2

section Playing

variable {d : Dictionary} {entry other first second : LogEntry}
  {entries others more rest : List LogEntry}

theorem told_append (d : Dictionary) (entries more : List LogEntry) :
    told d (entries ++ more) = ((told d entries).1 ++ (told (told d entries).2 more).1,
      (told (told d entries).2 more).2) := by
  induction entries generalizing d with
  | nil => rfl
  | cons entry entries ih => simp only [List.cons_append, told, ih, List.append_assoc]

theorem reachable_told (hd : d.Reachable) (entries : List LogEntry) :
    (told d entries).2.Reachable := by
  induction entries generalizing d with
  | nil => exact hd
  | cons entry entries ih =>
    exact ih (drain_preserves (fun e reader he => he.ingest entry.time reader) hd _)

theorem Alike.append (h : Alike d entries others) (hrest : Alike (told d entries).2 more rest) :
    Alike d (entries ++ more) (others ++ rest) := by
  refine ⟨?_, ?_⟩
  · rw [told_append, told_append, List.map_append, List.map_append, h.events, hrest.events, h.last]
  · rw [told_append, told_append, hrest.last, h.last]

theorem map_unnumbered (entry : LogEntry) (arrivals : List Arrival) :
    (arrivals.map entry.event).map Event.unnumbered =
      (arrivals.map Arrival.news).map fun news => ⟨0, entry.time, news.1, news.2⟩ := by
  rw [List.map_map, List.map_map]
  rfl

theorem Alike.of_entry (h : entry.content = other.content) : Alike d [entry] [other] := by
  obtain ⟨line, time, bytes⟩ := entry
  obtain ⟨line', time', bytes'⟩ := other
  cases h
  refine ⟨?_, rfl⟩
  simp only [told, List.append_nil, map_unnumbered]

theorem Alike.of_content (h : entries.map LogEntry.content = others.map LogEntry.content) :
    Alike d entries others := by
  induction entries generalizing d others with
  | nil =>
    rw [List.map_nil, eq_comm, List.map_eq_nil_iff] at h
    exact h ▸ ⟨rfl, rfl⟩
  | cons entry entries ih =>
    obtain ⟨other, others, rfl, hfirst, hrest⟩ := List.map_eq_cons_iff.1 h.symm
    exact (Alike.of_entry hfirst.symm).append (ih hrest.symm)

theorem Alike.of_split {b₁ b₂ : List UInt8} (hd : d.Reachable)
    (hentry : entry.bytes = b₁ ++ b₂) (hwhole : d.TakesWhole entry.time b₁)
    (hfirst : first.content = (entry.time, b₁)) (hsecond : second.content = (entry.time, b₂)) :
    Alike d [entry] [first, second] := by
  obtain ⟨htime, hbytes⟩ := Prod.mk.inj hfirst
  obtain ⟨htime', hbytes'⟩ := Prod.mk.inj hsecond
  have hextended : (Reader.ofBytes b₁).extend b₂ = Reader.ofBytes (b₁ ++ b₂) := rfl
  obtain ⟨hnews, hlast⟩ := drain_extend hd (Nat.zero_le _) hwhole b₂
  rw [hextended] at hnews hlast
  refine ⟨?_, ?_⟩
  · simp only [told, List.append_nil, List.map_append, map_unnumbered, hentry, htime, hbytes,
      htime', hbytes', hnews]
  · simp only [told, hentry, htime, hbytes, htime', hbytes', hlast]

end Playing

section Reporting

variable {c : Catalog} {d : Dictionary} {entries others : List LogEntry}

theorem outcomes_unnumbered (events : List Event) :
    (events.map Event.unnumbered).map Event.outcomeText = events.map Event.outcomeText := by
  rw [List.map_map]
  rfl

theorem exists_unnumbered_iff {events : List Event} {i : Identity} :
    (∃ e ∈ events.map Event.unnumbered, e.result = .ok .accepted ∧ e.signal = some i) ↔
      ∃ e ∈ events, e.result = .ok .accepted ∧ e.signal = some i := by
  simp only [List.mem_map, exists_exists_and_eq_and]
  rfl

/-- What is counted and remembered does not depend on the numbers of lines. -/
theorem Tally.Exact.unique {s t : Tally} (hs : s.Exact) (ht : t.Exact)
    (h : s.events.toList.map Event.unnumbered = t.events.toList.map Event.unnumbered) :
    s.summary = t.summary ∧ s.touched = t.touched := by
  have houtcomes : s.events.toList.map Event.outcomeText =
      t.events.toList.map Event.outcomeText := by
    rw [← outcomes_unnumbered, h, outcomes_unnumbered]
  refine ⟨?_, IdentitySet.ext_members fun i => ?_⟩
  · rw [hs.summary, ht.summary, houtcomes]
  · rw [hs.touched, ht.touched, ← exists_unnumbered_iff, h, exists_unnumbered_iff]

theorem endTime_of_split {before after : List (UInt32 × List UInt8)} {time : UInt32}
    {b b₁ b₂ : List UInt8} (hentries : entries.map LogEntry.content = before ++ (time, b) :: after)
    (hothers : others.map LogEntry.content = before ++ [(time, b₁), (time, b₂)] ++ after) :
    endTime entries = endTime others := by
  have hlast (l : List LogEntry) :
      endTime l = ((l.map LogEntry.content).getLast?.map Prod.fst).getD 0 := by
    rw [endTime, List.getLast?_map, Option.map_map]
    rfl
  rw [hlast, hlast, hentries, hothers]
  simp only [List.append_assoc, List.getLast?_append, List.cons_append, List.nil_append,
    List.getLast?_cons, Option.some_or, Option.map_some, Option.getD_some]
  cases after.getLast? with
  | none => rfl
  | some last => rfl

/-- Entries that tell the same are reported in the same way. -/
theorem Alike.replay (h : Alike d entries others) (hreceiver : receiver c = .ok d)
    (hend : endTime entries = endTime others) :
    ∃ x y, replayEntries c entries = .ok x ∧ replayEntries c others = .ok y ∧
      x.events.map Event.unnumbered = y.events.map Event.unnumbered ∧
      x.summary = y.summary ∧ x.signals = y.signals := by
  have hreplay (l : List LogEntry) :
      replayEntries c l = .ok (((Playback.start d l).play l).report c) := by
    simp only [replayEntries, hreceiver]
  have hevents := h.events
  rw [← Playback.events_play, ← Playback.events_play] at hevents
  have hdictionary : ((Playback.start d entries).play entries).dictionary =
      ((Playback.start d others).play others).dictionary := by
    rw [Playback.dictionary_play, Playback.dictionary_play]
    exact h.last
  have hnow : ((Playback.start d entries).play entries).now =
      ((Playback.start d others).play others).now := by
    rw [Playback.now_play, Playback.now_play, hend]
  obtain ⟨hsummary, htouched⟩ :=
    (Playback.exact_play d entries).unique (Playback.exact_play d others) hevents
  refine ⟨_, _, hreplay entries, hreplay others, hevents, hsummary, ?_⟩
  simp only [Playback.report, hdictionary, hnow, htouched]

end Reporting

/-- An entry of a log may be broken into two where a run of datagrams ends that are all taken in,
and two such entries may be joined. Whatever numbers the lines have then, the events are for the
same signals, at the same times and with the same results, and the summary and the signals in the
end are the same. -/
theorem broken_entry_replays_alike {c : Catalog} (hc : c.Reachable)
    {before after others : List LogEntry} {entry : LogEntry} {b₁ b₂ : List UInt8}
    (hentry : entry.bytes = b₁ ++ b₂)
    (hwhole : ∀ d, receiver c = .ok d →
      ((Playback.start d (before ++ entry :: after)).play before).dictionary.TakesWhole
        entry.time b₁)
    (hothers : others.map LogEntry.content = before.map LogEntry.content ++
      [(entry.time, b₁), (entry.time, b₂)] ++ after.map LogEntry.content) :
    ∃ x y, replayEntries c (before ++ entry :: after) = .ok x ∧
      replayEntries c others = .ok y ∧
      x.events.map Event.unnumbered = y.events.map Event.unnumbered ∧
      x.summary = y.summary ∧ x.signals = y.signals := by
  obtain ⟨d, hreceiver, hd⟩ := exists_receiver hc.coherent
  obtain ⟨front, tail, rfl, hfront, htail⟩ := List.map_eq_append_iff.1 hothers
  obtain ⟨start, broken, rfl, hstart, hbroken⟩ := List.map_eq_append_iff.1 hfront
  obtain ⟨first, more, rfl, hfirst, hmore⟩ := List.map_eq_cons_iff.1 hbroken
  obtain ⟨second, rfl, hsecond⟩ := List.map_eq_singleton_iff.1 hmore
  have hreached := reachable_told hd.reachable before
  have htaken := hwhole d hreceiver
  rw [Playback.dictionary_play] at htaken
  have halike : Alike d (before ++ [entry] ++ after) (start ++ [first, second] ++ tail) :=
    ((Alike.of_content hstart.symm).append
      (.of_split hreached hentry htaken hfirst hsecond)).append
        (.of_content htail.symm)
  have hjoined : (before ++ entry :: after).map LogEntry.content =
      before.map LogEntry.content ++ entry.content :: after.map LogEntry.content := by
    rw [List.map_append, List.map_cons]
  rw [List.append_assoc] at halike
  exact halike.replay hreceiver (endTime_of_split hjoined hothers)

def sampleLine : LogEntry :=
  ⟨1, 500, [10, 129, 10, 20, 0, 0, 0, 0, 0, 0, 48, 57,
    11, 128, 10, 20, 0, 0, 1, 244, 0, 0, 78, 32, 11]⟩

/-- The line broken behind the first datagram, and another one. -/
def sampleLines : List LogEntry :=
  [⟨4, 500, sampleLine.bytes.take 12⟩, ⟨7, 500, sampleLine.bytes.drop 12⟩, ⟨9, 2000, []⟩]

/-- The stray byte is the third event in either case. -/
theorem sampleLine_broken : Catalog.builtin.Reachable ∧
    ∃ x y, replayEntries .builtin ([] ++ sampleLine :: [⟨3, 2000, []⟩]) = .ok x ∧
      replayEntries .builtin sampleLines = .ok y ∧
      x.events.map Event.unnumbered = y.events.map Event.unnumbered ∧
      x.summary = ⟨1, 1, 1⟩ ∧ y.summary = ⟨1, 1, 1⟩ ∧ x.signals = y.signals := by
  have hreachable : Catalog.builtin.Reachable := .origin (o := .builtin) rfl
  have hrun : (receiver .builtin).toOption.all (fun d =>
      (d.drain sampleLine.time
        (Reader.ofBytes (sampleLine.bytes.take 12))).1.all (·.result.toOption.isSome)) = true := by
    decide +kernel
  have hwhole : ∀ d, receiver .builtin = .ok d →
      ((Playback.start d ([] ++ sampleLine :: [⟨3, 2000, []⟩])).play []).dictionary.TakesWhole
        sampleLine.time (sampleLine.bytes.take 12) := by
    intro d hd a ha
    rw [hd] at hrun
    have htaken := List.all_eq_true.1 hrun a ha
    cases hresult : a.result with
    | error e =>
      rw [hresult] at htaken
      cases htaken
    | ok outcome => exact ⟨outcome, rfl⟩
  have hlines : sampleLines.map LogEntry.content = [].map LogEntry.content ++
      [(sampleLine.time, sampleLine.bytes.take 12), (sampleLine.time, sampleLine.bytes.drop 12)] ++
        [(⟨3, 2000, []⟩ : LogEntry)].map LogEntry.content := rfl
  obtain ⟨x, y, hx, hy, hevents, hsummary, hsignals⟩ :=
    broken_entry_replays_alike hreachable (List.take_append_drop 12 _).symm hwhole hlines
  have hcount : (replayEntries .builtin sampleLines).toOption.map (·.summary) =
      some ⟨1, 1, 1⟩ := by
    decide +kernel
  rw [hy] at hcount
  have hthree := Option.some.inj hcount
  exact ⟨hreachable, x, y, hx, hy, hevents, hsummary.trans hthree, hthree, hsignals⟩

end Command
end InstrumentBus
