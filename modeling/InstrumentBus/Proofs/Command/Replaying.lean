import InstrumentBus.Proofs.Command.Decoding
import InstrumentBus.Proofs.Command.Tally
import InstrumentBus.Proofs.Dictionary.Resumption

/-!
# What a replay reports

The bytes of an entry fall into pieces, one for each event: whole datagrams from the start on,
and behind them, if one of them fails, all that is left. Taken in by themselves, one after the
other, the pieces have the results that the events show, and the signals in the end are those of
the pieces that were accepted, as the last of them says.
-/

namespace InstrumentBus

namespace Dictionary

open Wire Signal

/-- A node that receives every signal of a catalog and expects no checksums. -/
structure Listens (d : Dictionary) (c : Catalog) : Prop where
  reachable : d.Reachable
  bare : d.config.integrity = none
  defined : ∀ {i r}, d.record? i = some r → ∃ e, c.definition? i = some e ∧
    r.descriptor = e.descriptor ∧ r.payload.kind = e.kind ∧ r.mode = .receive
  registered : ∀ {i e}, c.definition? i = some e → ∃ r, d.record? i = some r

section Listening

variable {d e : Dictionary} {c : Catalog}

theorem Builder.Covers.listens {b : Builder} (h : b.Covers c fun _ => .receive)
    (hbare : b.config.integrity = none) : b.build.Listens c := by
  refine ⟨.build h.reachable, hbare, ?_, ?_⟩
  · intro i r hr
    obtain ⟨e, he, hfresh⟩ := h.defined i r hr
    obtain ⟨hdescriptor, hmode, hkind⟩ := Builder.record_eq hfresh
    exact ⟨e, he, hdescriptor, hkind, hmode⟩
  · intro i e he
    obtain ⟨r, hr, -⟩ := h.registered i e he
    exact ⟨r, hr⟩

theorem Listens.of_sameSignals (h : e.Listens c) (hd : d.Reachable) (hsame : SameSignals d e) :
    d.Listens c := by
  refine ⟨hd, ?_, ?_, ?_⟩
  · rw [hsame.config]
    exact h.bare
  · intro i s hs
    obtain ⟨r, hr, hsr⟩ := hsame.found hs
    obtain ⟨definition, hdefinition, hdescriptor, hkind, hmode⟩ := h.defined hr
    exact ⟨definition, hdefinition, hsr.descriptor.trans hdescriptor, hsr.kind.trans hkind,
      hsr.mode.trans hmode⟩
  · intro i definition hdefinition
    obtain ⟨r, hr⟩ := h.registered hdefinition
    obtain ⟨s, hs, -⟩ := hsame.record hr
    exact ⟨s, hs⟩

theorem Listens.ingest (h : d.Listens c) (now : UInt32) (reader : Reader) :
    (d.ingest now reader).2.1.Listens c :=
  h.of_sameSignals (h.reachable.ingest now reader) (sameSignals_ingest d now reader)

theorem Listens.after (h : d.Listens c) (calls : List Call) : (d.after calls).Listens c :=
  h.of_sameSignals (h.reachable.after calls) (sameSignals_after d calls)

end Listening

end Dictionary

namespace Command

open Wire Signal Dictionary

def Event.accepted (e : Event) : Bool :=
  match e.result with
  | .ok .accepted => true
  | _ => false

structure Piece where
  bytes : List UInt8
  event : Event

namespace Piece

def call (p : Piece) : Call := ⟨p.event.time, .ingest (Reader.ofBytes p.bytes)⟩

def offer (p : Piece) : Offer := ⟨p.bytes, p.event.time⟩

def acceptedFor (i : Identity) (p : Piece) : Bool := p.event.accepted && p.event.signal == some i

end Piece

/-- The pieces have the results that their events show when they are taken in one after the
other. -/
def Truthful (d : Dictionary) : List Piece → Prop
  | [] => True
  | p :: rest =>
    (d.ingest p.event.time (Reader.ofBytes p.bytes)).1 = p.event.result ∧
      Truthful (d.call p.call).2 rest

/-- The pieces that bytes of an entry fall into. What is taken in is one datagram of the catalog
each time; what is not is all that is left, and only the last piece. -/
structure Tells (c : Catalog) (entry : LogEntry) (bytes : List UInt8) (pieces : List Piece) :
    Prop where
  covers : (pieces.map Piece.bytes).flatten = bytes
  filled : ∀ p ∈ pieces, p.bytes ≠ []
  stamped : ∀ p ∈ pieces, p.event.line = entry.line ∧ p.event.time = entry.time ∧
    p.event.signal = namedBy p.bytes
  whole : ∀ p ∈ pieces, ∀ outcome, p.event.result = .ok outcome →
    ∃ x, decodeBytes c p.bytes = .ok x ∧ x.trailing = 0
  settled : ∀ p ∈ pieces.dropLast, ∃ outcome, p.event.result = .ok outcome

section Pieces

variable {c : Catalog} {entry : LogEntry} {d : Dictionary} {p : Piece} {pieces : List Piece}

theorem truthful_append {more : List Piece} :
    Truthful d (pieces ++ more) ↔
      Truthful d pieces ∧ Truthful (d.after (pieces.map Piece.call)) more := by
  induction pieces generalizing d with
  | nil => exact (and_iff_right trivial).symm
  | cons p rest ih =>
    rw [List.cons_append, Truthful, Truthful, ih, and_assoc, List.map_cons, after_cons]

theorem Tells.nil : Tells c entry [] [] := by
  refine ⟨rfl, ?_, ?_, ?_, ?_⟩ <;> exact List.forall_mem_nil _

theorem Tells.fault {bytes : List UInt8} {e : Dictionary.Error} (hfilled : bytes ≠ []) :
    Tells c entry bytes [⟨bytes, ⟨entry.line, entry.time, namedBy bytes, .error e⟩⟩] := by
  refine ⟨List.append_nil _, ?_, ?_, ?_, List.forall_mem_nil _⟩
  · exact List.forall_mem_singleton.2 hfilled
  · exact List.forall_mem_singleton.2 ⟨rfl, rfl, rfl⟩
  · refine List.forall_mem_singleton.2 ?_
    rintro outcome ⟨⟩

theorem Tells.cons {datagram more : List UInt8} (h : Tells c entry more pieces)
    (outcome : Outcome) (hfilled : datagram ≠ [])
    (hwhole : ∃ x, decodeBytes c datagram = .ok x ∧ x.trailing = 0) :
    Tells c entry (datagram ++ more)
      (⟨datagram, ⟨entry.line, entry.time, namedBy datagram, .ok outcome⟩⟩ :: pieces) := by
  refine ⟨?_, ?_, ?_, ?_, ?_⟩
  · rw [List.map_cons, List.flatten_cons, h.covers]
  · exact List.forall_mem_cons.2 ⟨hfilled, h.filled⟩
  · exact List.forall_mem_cons.2 ⟨⟨rfl, rfl, rfl⟩, h.stamped⟩
  · exact List.forall_mem_cons.2 ⟨fun _ _ => hwhole, h.whole⟩
  · cases pieces with
    | nil => exact List.forall_mem_nil _
    | cons p rest =>
      rw [List.dropLast_cons_cons]
      exact List.forall_mem_cons.2 ⟨⟨outcome, rfl⟩, h.settled⟩

end Pieces

section Playing

variable {c : Catalog} {d next : Dictionary} {now : UInt32} {reader after : Reader}

/-- What such a node takes in is a datagram of the catalog, whatever follows it. -/
theorem exists_datagram {outcome : Outcome} (hc : c.Coherent) (hd : d.Listens c)
    (h : d.ingest now reader = (.ok outcome, next, after)) :
    ∃ datagram more x, reader.remaining = datagram ++ more ∧ after.remaining = more ∧
      headerSize ≤ datagram.length ∧ decodeBytes c datagram = .ok x ∧ x.trailing = 0 ∧
      (d.ingest now (Reader.ofBytes datagram)).1 = .ok outcome ∧
      (d.ingest now (Reader.ofBytes datagram)).2.1 = next := by
  have hwf := hd.reachable.wellFormed
  obtain ⟨r, datagram, more, hsplit, hlength, hintact, hannounced, rfl, halone⟩ :=
    ingest_alone hwf h
  obtain ⟨e, he, -, hkind, -⟩ := hd.defined hintact.record
  have hsize : d.sizeOf r = headerSize + e.kind.extent := by
    rw [Dictionary.sizeOf, (hwf.of_record? hintact.record).packetSize_eq, hkind]
    simp [Config.trailerSize, hd.bare]
  have hspells : Spells e datagram := ⟨by omega, hkind ▸ hannounced⟩
  have hdecoded : decodeBytes c datagram = .ok (spelled e datagram) :=
    decodeBytes_eq_ok_iff.2 ⟨e, he, hc.exists_zero he, hspells, rfl⟩
  refine ⟨datagram, more, _, hsplit, ?_, by omega, hdecoded, ?_, ?_, ?_⟩
  · rw [Reader.remaining_advance, hsplit, ← hlength]
    exact List.drop_left ..
  · simp only [spelled]
    omega
  · rw [halone]
  · rw [halone]

/-- The events of a run of datagrams are those of the pieces that its bytes fall into. -/
theorem exists_pieces (hc : c.Coherent) (hd : d.Listens c) (entry : LogEntry) (reader : Reader) :
    ∃ pieces, Tells c entry reader.remaining pieces ∧ Truthful d pieces ∧
      (d.drain entry.time reader).1.map entry.event = pieces.map Piece.event ∧
      (d.drain entry.time reader).2 = d.after (pieces.map Piece.call) := by
  fun_induction Dictionary.drain d entry.time reader with
  | case1 d reader hend =>
    have hnone : reader.remaining = [] := by
      rw [← List.length_eq_zero_iff, reader.length_remaining, hend]
    rw [hnone]
    exact ⟨[], .nil, trivial, rfl, rfl⟩
  | case2 d reader hmore header e next after hstep =>
    have hfilled : reader.remaining ≠ [] := by
      rwa [ne_eq, ← List.length_eq_zero_iff, reader.length_remaining]
    have hwf := hd.reachable.wellFormed
    rcases ingest_exits entry.time hwf reader with ⟨e', hverdict, hexit⟩ | ⟨r, hr, hm, ha⟩
    · cases hstep.symm.trans hexit
      have halone : d.ingest entry.time (Reader.ofBytes reader.remaining) = _ :=
        hverdict.ingest_eq hwf
      refine ⟨_, .fault hfilled, ⟨congrArg Prod.fst halone, trivial⟩, ?_, ?_⟩
      · simp only [List.map_cons, List.map_nil, LogEntry.event, ← identity_peek, header]
      · simp [Dictionary.after, Dictionary.call, Piece.call, halone]
    · cases hstep.symm.trans (ingest_of_offered entry.time hwf hr hm ha)
  | case3 d reader hmore header outcome next after hstep arrivals last hrest ih =>
    obtain ⟨datagram, more, x, hsplit, hbehind, hheader, hdecoded, htrailing, hresult, hnext⟩ :=
      exists_datagram hc hd hstep
    have hlistens := hd.ingest entry.time reader
    rw [hstep] at hlistens
    obtain ⟨pieces, htells, htruthful, hevents, hlast⟩ := ih hlistens
    rw [hrest] at hevents hlast
    rw [hbehind] at htells
    have hfilled : datagram ≠ [] := by
      rintro rfl
      exact absurd hheader (by decide)
    have hcall : (d.call ⟨entry.time, .ingest (Reader.ofBytes datagram)⟩).2 = next := hnext
    refine ⟨_, hsplit ▸ htells.cons outcome hfilled ⟨x, hdecoded, htrailing⟩, ?_, ?_, ?_⟩
    · rw [Truthful, Piece.call, hcall]
      exact ⟨hresult, htruthful⟩
    · have hsignal := identity_peek reader
      rw [hsplit, namedBy_append hheader] at hsignal
      simp only [List.map_cons, LogEntry.event, header, hsignal, ← hevents]
    · rw [List.map_cons, after_cons, Piece.call, hcall]
      exact hlast

/-- Entries played one after the other. -/
theorem exists_parts (hc : c.Coherent) (hd : d.Listens c) (entries : List LogEntry) :
    ∃ parts, List.Forall₂ (fun entry pieces => Tells c entry entry.bytes pieces) entries parts ∧
      Truthful d parts.flatten ∧ (told d entries).1 = parts.flatten.map Piece.event ∧
      (told d entries).2 = d.after (parts.flatten.map Piece.call) := by
  induction entries generalizing d with
  | nil => exact ⟨[], .nil, trivial, rfl, rfl⟩
  | cons entry rest ih =>
    obtain ⟨pieces, htells, htruthful, hevents, hnext⟩ :=
      exists_pieces hc hd entry (Reader.ofBytes entry.bytes)
    obtain ⟨parts, hparts, hothers, hmore, hlast⟩ := ih (hd.after (pieces.map Piece.call))
    refine ⟨pieces :: parts, .cons htells hparts, ?_, ?_, ?_⟩
    · exact truthful_append.2 ⟨htruthful, hothers⟩
    · simp only [told, hevents, hnext, hmore, List.flatten_cons, List.map_append]
    · simp only [told, hnext, hlast, List.flatten_cons, List.map_append, after_append]

end Playing

section Reporting

variable {c : Catalog} {d : Dictionary} {i : Identity} {p : Piece} {pieces : List Piece}
  {entries : List LogEntry}

theorem Event.accepted_iff {e : Event} : e.accepted = true ↔ e.result = .ok .accepted := by
  obtain ⟨line, time, signal, result⟩ := e
  rcases result with e | _ | _ <;> simp [Event.accepted]

theorem Piece.acceptedFor_iff :
    p.acceptedFor i = true ↔ p.event.result = .ok .accepted ∧ p.event.signal = some i := by
  rw [Piece.acceptedFor, Bool.and_eq_true, Event.accepted_iff, beq_iff_eq]

theorem accepted?_call (hresult : (d.ingest p.event.time (Reader.ofBytes p.bytes)).1 =
      p.event.result) (hnamed : p.event.signal = namedBy p.bytes) :
    d.accepted? i p.call = if p.acceptedFor i then some p.offer else none := by
  have houtcome : (d.call p.call).1.outcome? = p.event.result.toOption :=
    congrArg Except.toOption hresult
  have haccepted : p.event.result.toOption = some .accepted ↔
      p.event.result = .ok .accepted := by
    cases p.event.result <;> simp [Except.toOption]
  have hbrings : p.call.request.datagram? = some p.bytes := rfl
  simp only [accepted?, hbrings, houtcome, haccepted, Piece.acceptedFor_iff, hnamed, and_comm]
  rfl

theorem acceptances_eq (h : Truthful d pieces)
    (hnamed : ∀ p ∈ pieces, p.event.signal = namedBy p.bytes) (i : Identity) :
    d.acceptances i (pieces.map Piece.call) =
      (pieces.filter (Piece.acceptedFor i)).map Piece.offer := by
  induction pieces generalizing d with
  | nil => rfl
  | cons p rest ih =>
    obtain ⟨hfirst, hothers⟩ := List.forall_mem_cons.1 hnamed
    rw [List.map_cons, acceptances, accepted?_call h.1 hfirst, ih h.2 hothers, List.filter_cons]
    split
    · rfl
    · rfl

theorem tells_of_mem {parts : List (List Piece)}
    (h : List.Forall₂ (fun entry pieces => Tells c entry entry.bytes pieces) entries parts)
    (hp : p ∈ parts.flatten) : ∃ entry pieces, Tells c entry entry.bytes pieces ∧ p ∈ pieces := by
  induction h with
  | nil => exact absurd hp List.not_mem_nil
  | @cons entry pieces entries parts htells hrest ih =>
    rcases List.mem_append.1 hp with hp | hp
    · exact ⟨entry, pieces, htells, hp⟩
    · exact ih hp

def shownAt (x : Decoded) (taken now : UInt32) : SignalState :=
  ⟨x.definition.name, x.definition.identity, x.header, x.payload.text,
    x.header.priority.healthy && decide (now - taken ≤ x.definition.timeout)⟩

theorem signalState_adopt {e : Dictionary} {r : Record} {x : Decoded} (hc : c.Coherent)
    (hd : d.Listens c) (hr : d.record? i = some r) (he : e.record? i = some (r.adopt p.offer))
    (hnamed : namedBy p.bytes = some i) (hx : decodeBytes c p.bytes = .ok x) (now : UInt32) :
    signalState c e now i = some (shownAt x p.event.time now) := by
  obtain ⟨definition, hdefinition, -, -, rfl⟩ := decodeBytes_eq_ok_iff.1 hx
  rw [(namedBy_eq_some_iff.1 hnamed).2] at hdefinition
  obtain ⟨found, hfound, hdescriptor, hkind, -⟩ := hd.defined hr
  cases hdefinition.symm.trans hfound
  have hidentity : definition.identity = i := (hc.definition?_eq_some_iff.1 hdefinition).2
  have hname : signalName c i = definition.name := by
    simp [signalName, Catalog.nameFor?, hdefinition]
  have htimeout : r.descriptor.timeout = definition.timeout :=
    congrArg Descriptor.timeout hdescriptor
  simp only [signalState, Dictionary.record, he, shownAt, spelled, hname, hidentity,
    Record.isValid, Record.adopt, htimeout, hkind]
  rfl

end Reporting

theorem exists_receiver {c : Catalog} (hc : c.Coherent) :
    ∃ d, receiver c = .ok d ∧ d.Listens c := by
  obtain ⟨b, hb, hconfig, hcovers⟩ :=
    Builder.registerCatalog_of_coherent hc Config.standard fun _ => .receive
  refine ⟨b.build, ?_, hcovers.listens ?_⟩
  · rw [receiver, hb]
  · rw [hconfig]
    rfl

section Rows

variable {c : Catalog} {d : Dictionary} {i : Identity} {pieces : List Piece}

theorem exists_piece_iff : (∃ e ∈ pieces.map Piece.event, e.result = .ok .accepted ∧
    e.signal = some i) ↔ ∃ p ∈ pieces, p.acceptedFor i = true := by
  simp only [List.mem_map, exists_exists_and_eq_and, Piece.acceptedFor_iff]

theorem exists_record_of_accepted (hd : d.Listens c)
    (htells : ∀ p ∈ pieces, ∃ entry part, Tells c entry entry.bytes part ∧ p ∈ part)
    (h : ∃ p ∈ pieces, p.acceptedFor i = true) : ∃ r, d.record? i = some r := by
  obtain ⟨p, hp, haccepted⟩ := h
  obtain ⟨hresult, hsignal⟩ := Piece.acceptedFor_iff.1 haccepted
  obtain ⟨entry, part, htold, hpart⟩ := htells p hp
  obtain ⟨x, hx, -⟩ := htold.whole p hpart .accepted hresult
  obtain ⟨e, he, -⟩ := decodeBytes_eq_ok_iff.1 hx
  rw [(htold.stamped p hpart).2.2] at hsignal
  rw [(namedBy_eq_some_iff.1 hsignal).2] at he
  exact hd.registered he

theorem exists_last_of_accepted (h : ∃ p ∈ pieces, p.acceptedFor i = true) :
    ∃ p, (pieces.filter (Piece.acceptedFor i)).getLast? = some p := by
  obtain ⟨p, hp, haccepted⟩ := h
  have hmem := List.mem_filter.2 ⟨hp, haccepted⟩
  exact Option.isSome_iff_exists.1 (List.getLast?_isSome.2 (List.ne_nil_of_mem hmem))

/-- A signal is shown as the last piece says that was accepted for it. -/
theorem signalState_last (hc : c.Coherent) (hd : d.Listens c) (htruthful : Truthful d pieces)
    (htells : ∀ p ∈ pieces, ∃ entry part, Tells c entry entry.bytes part ∧ p ∈ part)
    (h : ∃ p ∈ pieces, p.acceptedFor i = true) (now : UInt32) :
    ∃ p x, (pieces.filter (Piece.acceptedFor i)).getLast? = some p ∧
      decodeBytes c p.bytes = .ok x ∧
      signalState c (d.after (pieces.map Piece.call)) now i =
        some (shownAt x p.event.time now) := by
  have hnamed : ∀ p ∈ pieces, p.event.signal = namedBy p.bytes := by
    intro q hq
    obtain ⟨entry, part, htold, hmem⟩ := htells q hq
    exact (htold.stamped q hmem).2.2
  obtain ⟨p, hp⟩ := exists_last_of_accepted h
  obtain ⟨hmem, haccepted⟩ := List.mem_filter.1 (List.mem_of_getLast? hp)
  obtain ⟨hresult, hsignal⟩ := Piece.acceptedFor_iff.1 haccepted
  obtain ⟨entry, part, htold, hpart⟩ := htells p hmem
  obtain ⟨x, hx, -⟩ := htold.whole p hpart .accepted hresult
  -- The record held in the end is the one at the start with the last offer in it.
  obtain ⟨r, hr⟩ := exists_record_of_accepted hd htells h
  obtain ⟨e, -, -, -, hmode⟩ := hd.defined hr
  obtain ⟨hlast, -⟩ := record?_after_of_receive hd.reachable hr hmode (pieces.map Piece.call)
  rw [acceptances_eq htruthful hnamed, List.getLast?_map, hp] at hlast
  exact ⟨p, x, hp, hx,
    signalState_adopt hc hd hr hlast ((hnamed p hmem).symm.trans hsignal) hx now⟩

theorem identity_of_signalState {now : UInt32} {s : SignalState}
    (h : signalState c d now i = some s) : s.identity = i := by
  unfold signalState at h
  split at h
  · cases h
  · cases h
    rfl

theorem map_identity_signals {now : UInt32} {members : List Identity}
    (h : ∀ i ∈ members, ∃ s, signalState c d now i = some s) :
    (members.filterMap (signalState c d now)).map (·.identity) = members := by
  induction members with
  | nil => rfl
  | cons i rest ih =>
    obtain ⟨⟨s, hs⟩, hrest⟩ := List.forall_mem_cons.1 h
    rw [List.filterMap_cons_some hs, List.map_cons, ih hrest, identity_of_signalState hs]

end Rows

/-- A replay succeeds and reports what happened. Its events are those of pieces that the bytes of
the entries fall into, in their order, and each has the result of taking its piece in after the
ones before. Every event counts once, under the outcome that is printed for it. The signals are
those a datagram of which was accepted, in ascending order, and each is shown as the last datagram
says that was accepted for it, valid or not at the time of the last entry. -/
theorem replay_tells_what_happened {c : Catalog} (hc : c.Reachable) (entries : List LogEntry) :
    ∃ d x parts, receiver c = .ok d ∧ replayEntries c entries = .ok x ∧
      List.Forall₂ (fun entry pieces => Tells c entry entry.bytes pieces) entries parts ∧
      Truthful d parts.flatten ∧ x.events = parts.flatten.map Piece.event ∧
      x.summary.accepted + x.summary.rejected + x.summary.errors = x.events.length ∧
      x.summary = ⟨(x.events.map Event.outcomeText).count "accepted",
        (x.events.map Event.outcomeText).count "rejected",
        (x.events.map Event.outcomeText).count "error"⟩ ∧
      (x.signals.map (·.identity)).Pairwise (· < ·) ∧
      (∀ i, i ∈ x.signals.map (·.identity) ↔
        ∃ e ∈ x.events, e.result = .ok .accepted ∧ e.signal = some i) ∧
      ∀ s ∈ x.signals, ∃ p y,
        (parts.flatten.filter (Piece.acceptedFor s.identity)).getLast? = some p ∧
        decodeBytes c p.bytes = .ok y ∧ s = shownAt y p.event.time (endTime entries) := by
  have hcoherent := hc.coherent
  obtain ⟨d, hreceiver, hd⟩ := exists_receiver hcoherent
  obtain ⟨parts, hparts, htruthful, hevents, hlast⟩ := exists_parts hcoherent hd entries
  have htells : ∀ p ∈ parts.flatten, ∃ entry part,
      Tells c entry entry.bytes part ∧ p ∈ part := fun p hp => tells_of_mem hparts hp
  have hplayed := (Playback.events_play d entries).trans hevents
  have hreport : ((Playback.start d entries).play entries).report c = ⟨_, _, _⟩ := rfl
  rw [hplayed, (Playback.dictionary_play _ entries).trans hlast, Playback.now_play] at hreport
  obtain ⟨hsummary, htotal, htouched⟩ := Playback.exact_play d entries
  rw [hplayed] at hsummary htotal htouched
  generalize ((Playback.start d entries).play entries).tally = t at *
  have hshown : ∀ i ∈ t.touched.members, ∃ p y,
      (parts.flatten.filter (Piece.acceptedFor i)).getLast? = some p ∧
      decodeBytes c p.bytes = .ok y ∧
      signalState c (d.after (parts.flatten.map Piece.call)) (endTime entries) i =
        some (shownAt y p.event.time (endTime entries)) := by
    intro i hi
    exact signalState_last hcoherent hd htruthful htells (exists_piece_iff.1 ((htouched i).1 hi)) _
  have hidentities := map_identity_signals fun i hi => by
    obtain ⟨p, y, -, -, hs⟩ := hshown i hi
    exact ⟨_, hs⟩
  refine ⟨d, ⟨t.summary, parts.flatten.map Piece.event, t.touched.members.filterMap
    (signalState c (d.after (parts.flatten.map Piece.call)) (endTime entries))⟩, parts,
    hreceiver, ?_, hparts, htruthful, rfl, htotal, hsummary, ?_, ?_, ?_⟩
  · simp only [replayEntries, hreceiver, hreport]
  · rw [hidentities]
    exact t.touched.ascending
  · intro i
    rw [hidentities]
    exact htouched i
  · intro s hs
    obtain ⟨i, hi, hstate⟩ := List.mem_filterMap.1 hs
    obtain ⟨p, y, hp, hy, hrow⟩ := hshown i hi
    rw [identity_of_signalState hstate]
    exact ⟨p, y, hp, hy, Option.some.inj (hstate.symm.trans hrow)⟩

/-- Two devices send an altitude in one entry, and the rest of it is no datagram. -/
def sampleEntries : List LogEntry :=
  [⟨1, 500, [10, 129, 10, 20, 0, 0, 0, 0, 0, 0, 48, 57,
    11, 128, 10, 20, 0, 0, 1, 244, 0, 0, 78, 32, 11]⟩, ⟨3, 2000, []⟩]

/-- The first datagram is accepted and the second one is not; the value of the first has gone out
of date at the end. -/
theorem sampleEntries_told : Catalog.builtin.Reachable ∧
    ∃ (x : Replayed) (s : SignalState) (p : Piece) (y : Decoded),
      replayEntries .builtin sampleEntries = .ok x ∧ x.summary = ⟨1, 1, 1⟩ ∧
      x.events.length = 3 ∧ x.signals = [s] ∧ decodeBytes .builtin p.bytes = .ok y ∧
      s = shownAt y p.event.time 2000 ∧ s.valid = false := by
  have hreachable : Catalog.builtin.Reachable := .origin (o := .builtin) rfl
  obtain ⟨d, x, parts, -, hx, -, -, -, htotal, -, -, -, hrows⟩ :=
    replay_tells_what_happened hreachable sampleEntries
  have hrun : (replayEntries .builtin sampleEntries).toOption.map (fun x =>
      (x.summary, x.signals.map (·.valid))) = some (⟨1, 1, 1⟩, [false]) := by
    decide +kernel
  rw [hx] at hrun
  obtain ⟨hsummary, hvalid⟩ := Prod.mk.inj (Option.some.inj hrun)
  obtain ⟨s, hs, hstale⟩ := List.map_eq_singleton_iff.1 hvalid
  obtain ⟨p, y, -, hy, hshown⟩ := hrows s (by rw [hs]; exact List.mem_singleton.2 rfl)
  have hlength : x.events.length = 3 := by
    rw [hsummary] at htotal
    exact htotal.symm
  have hend : endTime sampleEntries = 2000 := rfl
  rw [hend] at hshown
  exact ⟨hreachable, x, s, p, y, hx, hsummary, hlength, hs, hy, hshown, hstale⟩

end Command
end InstrumentBus
