import InstrumentBus.Proofs.Dictionary.Registration
import InstrumentBus.Proofs.Dictionary.Ingest
import InstrumentBus.Proofs.Signal.Transmission

/-!
# From node to node

The datagrams that one node emits, laid end to end, against another node that takes in what
the first one sends. Every datagram is found where the one before it ends, whatever becomes
of it, and one that is accepted is held as it was sent.
-/

namespace InstrumentBus
namespace Dictionary

open Wire Signal

section Datagram

/-- What follows a datagram with these bytes. -/
def trailer (d : Dictionary) (body : List UInt8) : List UInt8 :=
  match d.config.integrity with
  | none => []
  | some checksum => halfBytes (checksum body)

def datagram (d : Dictionary) (r : Record) : List UInt8 := r.bytes ++ d.trailer r.bytes

variable {d : Dictionary} {r : Record} {i : Identity} {w : Writer}

theorem datagram_append (d : Dictionary) (r : Record) (rest : List UInt8) :
    d.datagram r ++ rest =
      r.header.bytes ++ (r.payload.bytes ++ (d.trailer r.bytes ++ rest)) := by
  simp [datagram, Record.bytes]

theorem header_datagram (d : Dictionary) (r : Record) (rest : List UInt8) :
    Header.ofBytes (d.datagram r ++ rest) = r.header := by
  rw [datagram_append, Header.ofBytes_append]

theorem drop_datagram (d : Dictionary) (r : Record) (rest : List UInt8) :
    (d.datagram r ++ rest).drop headerSize =
      r.payload.bytes ++ (d.trailer r.bytes ++ rest) := by
  rw [datagram_append, Header.drop_append]

theorem length_trailer (d : Dictionary) (body : List UInt8) :
    (d.trailer body).length = d.config.trailerSize := by
  cases hc : d.config.integrity with
  | none => simp [trailer, hc, Config.trailerSize]
  | some checksum => simp [trailer, hc, Config.trailerSize, Integrity.size, halfBytes]

theorem length_datagram (hr : r.WellFormed) : (d.datagram r).length = d.sizeOf r := by
  rw [datagram, List.length_append, Record.length_bytes hr, length_trailer, sizeOf]

/-- A datagram is never empty, so a writer with room for one stands within its buffer. -/
theorem position_le_of_room (hroom : d.sizeOf r ≤ w.available) :
    w.position ≤ w.buffer.length := by
  simp only [sizeOf, Record.packetSize, headerSize, Writer.available] at hroom
  omega

theorem write_of_room (hr : r.WellFormed) (hm : r.mode = .transmit)
    (hp : w.position ≤ w.buffer.length) (hroom : r.packetSize ≤ w.available) :
    r.write w = (.ok (), w.lay r.bytes) := by
  have hlength := Record.length_bytes hr
  rw [Record.bytes, List.length_append] at hlength
  have hfirst : r.header.bytes.length ≤ w.available := by omega
  have hheader : r.header.write w = (.ok (), w.lay r.header.bytes) :=
    Writer.putAll_of_le hp hfirst
  have hsecond : r.payload.bytes.length ≤ (w.lay r.header.bytes).available := by
    rw [Writer.available_lay hfirst]
    omega
  have hpayload := Payload.write_of_le (Payload.sound_of_registrable hr.kind).encodable
    (Writer.position_lay_le hp hfirst) hsecond
  rw [Writer.lay_lay hp] at hpayload
  simp only [Record.write, Record.require, hm, ↓reduceIte, hheader, sending, hpayload]
  rfl

theorem emit_of_room (hr : r.WellFormed) (hfound : d.record? i = some r)
    (hm : r.mode = .transmit) (hroom : d.sizeOf r ≤ w.available) :
    d.emit i w = (.ok (d.sizeOf r), w.lay (d.datagram r)) := by
  have hp := position_le_of_room hroom
  have hlength := Record.length_bytes hr
  have hbody : r.packetSize ≤ w.available := Nat.le_trans (Nat.le_add_right _ _) hroom
  have hwrite := write_of_room hr hm hp hbody
  have hsent : (w.lay r.bytes).written.drop w.position = r.bytes := by
    rw [Writer.written_lay hp]
    exact List.drop_left' (by simp [Writer.written, Nat.min_eq_left hp])
  cases hc : d.config.integrity with
  | none =>
    have hbare : d.datagram r = r.bytes := by simp [datagram, trailer, hc]
    simp [emit, record, hfound, hm, Nat.not_lt.2 hroom, hwrite, hc, hbare]
  | some checksum =>
    have hseal : d.datagram r = r.bytes ++ halfBytes (checksum r.bytes) := by
      simp [datagram, trailer, hc]
    have hsize : d.sizeOf r = r.packetSize + 2 := by
      rw [sizeOf, trailerSize_of_some hc]
    have hput : (w.lay r.bytes).put (halfBytes (checksum r.bytes)) =
        (.ok (), w.lay (d.datagram r)) := by
      rw [Writer.put_of_le, Writer.lay_lay hp, hseal]
      rw [Writer.available_lay (hlength ▸ hbody), hlength]
      simp only [halfBytes, length_wordBytes]
      omega
    simp [emit, record, hfound, hm, Nat.not_lt.2 hroom, hwrite, hc, hsent, hput]

theorem emit_eq_ok {n : Nat} {w' : Writer} (h : d.emit i w = (.ok n, w')) :
    ∃ r, d.record? i = some r ∧ r.mode = .transmit ∧ d.sizeOf r ≤ w.available := by
  unfold emit at h
  split at h
  · cases h
  · next r hr =>
    split at h
    · cases h
    · next hm =>
      split at h
      · cases h
      · next hroom =>
        exact ⟨r, record_eq_ok_iff.1 hr, Decidable.of_not_not hm, Nat.le_of_not_lt hroom⟩

theorem emitBytes_of_transmit (hr : r.WellFormed) (hfound : d.record? i = some r)
    (hm : r.mode = .transmit) : d.emitBytes i = .ok (d.datagram r) := by
  have hlength := length_datagram (d := d) hr
  have hsize : d.datagramSize i = .ok (d.sizeOf r) := by
    rw [datagramSize, record_eq_ok_iff.2 hfound]
    rfl
  have hroom : d.sizeOf r ≤ (Writer.ofBuffer (List.replicate (d.sizeOf r) 0)).available := by
    simp [Writer.available, Writer.ofBuffer]
  simp only [emitBytes, hsize, emit_of_room hr hfound hm hroom]
  simp [Writer.lay, Writer.ofBuffer, hlength, List.take_of_length_le (Nat.le_of_eq hlength)]

theorem emitBytes_eq_ok {bytes : List UInt8} (hd : d.WellFormed)
    (h : d.emitBytes i = .ok bytes) :
    ∃ r, d.record? i = some r ∧ r.mode = .transmit ∧ bytes = d.datagram r := by
  have hemitted : ∃ r, d.record? i = some r ∧ r.mode = .transmit := by
    unfold emitBytes at h
    split at h
    · cases h
    · split at h
      · cases h
      · next hemit =>
        obtain ⟨r, hr, hm, -⟩ := emit_eq_ok hemit
        exact ⟨r, hr, hm⟩
  obtain ⟨r, hr, hm⟩ := hemitted
  rw [emitBytes_of_transmit (hd.of_record? hr) hr hm] at h
  exact ⟨r, hr, hm, (Except.ok.inj h).symm⟩

end Datagram

/-- A datagram that was sent: the dictionary it was sent from, as it was then, the number of
bytes that was reported, and the bytes. -/
structure Emission where
  source : Dictionary
  identity : Identity
  count : Nat
  bytes : List UInt8

def Node.sent? (n : Node) (op : Operation) : Option Emission :=
  match op, (n.perform op).1 with
  | .emit identity capacity skip, .emitted (.ok count) w =>
    some ⟨n.dictionary, identity, count,
      w.written.drop (Node.emissionBuffer capacity skip).position⟩
  | .emitBytes identity, .bytes (.ok bytes) =>
    some ⟨n.dictionary, identity, bytes.length, bytes⟩
  | _, _ => none

def Node.emissions (n : Node) : List Operation → List Emission
  | [] => []
  | op :: ops => (n.sent? op).toList ++ (n.perform op).2.emissions ops

structure Emission.Sends (e : Emission) (r : Record) : Prop where
  found : e.source.record? e.identity = some r
  mode : r.mode = .transmit
  wellFormed : r.WellFormed
  count : e.count = e.source.sizeOf r
  bytes : e.bytes = e.source.datagram r

theorem Emission.Sends.eq_of_found {e : Emission} {r s : Record} (h : e.Sends r)
    (hs : e.source.record? e.identity = some s) : r = s :=
  Option.some.inj (h.found.symm.trans hs)

theorem Node.sends_of_sent? {n : Node} {op : Operation} {e : Emission}
    (hd : n.dictionary.WellFormed) (h : n.sent? op = some e) :
    e.source = n.dictionary ∧ ∃ r, e.Sends r := by
  unfold sent? at h
  split at h
  · next i capacity skip count w hreply =>
    cases h
    refine ⟨rfl, ?_⟩
    have hemit : n.dictionary.emit i (emissionBuffer capacity skip) = (.ok count, w) := by
      injection hreply with hcount hw
      exact Prod.ext hcount hw
    obtain ⟨r, hr, hm, hroom⟩ := emit_eq_ok hemit
    have hwf := hd.of_record? hr
    have hp := position_le_of_room hroom
    rw [emit_of_room hwf hr hm hroom] at hemit
    cases hemit
    refine ⟨r, hr, hm, hwf, rfl, ?_⟩
    rw [Writer.written_lay hp]
    exact List.drop_left' (by simp [Writer.written, Nat.min_eq_left hp])
  · next i bytes hreply =>
    cases h
    refine ⟨rfl, ?_⟩
    have hemit : n.dictionary.emitBytes i = .ok bytes := by
      injection hreply
    obtain ⟨r, hr, hm, hbytes⟩ := emitBytes_eq_ok hd hemit
    have hwf := hd.of_record? hr
    refine ⟨r, hr, hm, hwf, ?_, hbytes⟩
    rw [hbytes, length_datagram hwf]
  · cases h

theorem Node.mem_emissions {n : Node} {ops : List Operation} {e : Emission}
    (h : e ∈ n.emissions ops) :
    ∃ before op after, ops = before ++ op :: after ∧ (n.run before).sent? op = some e := by
  induction ops generalizing n with
  | nil => exact absurd h List.not_mem_nil
  | cons op ops ih =>
    rcases List.mem_append.1 h with hnow | hlater
    · exact ⟨[], op, ops, rfl, Option.mem_toList.1 hnow⟩
    · obtain ⟨before, op', after, rfl, hsent⟩ := ih hlater
      exact ⟨op :: before, op', after, rfl, hsent⟩

section Arrival

/-- A signal that one dictionary sends and the other takes in, of one kind of payload. -/
def Linked (source target : Dictionary) (i : Identity) : Prop :=
  ∃ r s, source.record? i = some r ∧ target.record? i = some s ∧
    r.mode = .transmit ∧ s.mode = .receive ∧ r.payload.kind = s.payload.kind

theorem linked_of_read {source target : Dictionary} {i : Identity} {k : Kind}
    (hs : (source.record? i).map (fun r => (r.mode, r.payload.kind)) = some (.transmit, k))
    (ht : (target.record? i).map (fun r => (r.mode, r.payload.kind)) = some (.receive, k)) :
    Linked source target i := by
  obtain ⟨r, hr, hsent⟩ := Option.map_eq_some_iff.1 hs
  obtain ⟨s, hs, hheld⟩ := Option.map_eq_some_iff.1 ht
  obtain ⟨hrmode, hrkind⟩ := Prod.mk.inj hsent
  obtain ⟨hsmode, hskind⟩ := Prod.mk.inj hheld
  exact ⟨r, s, hr, hs, hrmode, hsmode, hrkind.trans hskind.symm⟩

def Emission.HeldBy (e : Emission) (d : Dictionary) : Prop :=
  ∃ r s, e.source.record? e.identity = some r ∧ d.record? e.identity = some s ∧
    s.header = r.header ∧ Payload.Carried r.payload s.payload

/-- A dictionary takes in one emission after the other from a reader, at a time each. None
fails, each ends where the next begins, and those that are accepted are held as they were
sent. The last argument is the reader in the end. -/
inductive Delivery : Dictionary → Reader → List UInt32 → List Emission → Reader → Prop where
  | done (d : Dictionary) (reader : Reader) : Delivery d reader [] [] reader
  | next {d d' : Dictionary} {reader last : Reader} {now : UInt32} {nows : List UInt32}
      {e : Emission} {es : List Emission} {outcome : Outcome}
      (h : d.ingest now reader = (.ok outcome, d', reader.advance e.count))
      (held : outcome = .accepted → e.HeldBy d')
      (rest : Delivery d' (reader.advance e.count) nows es last) :
      Delivery d reader (now :: nows) (e :: es) last

variable {source target : Dictionary} {r s : Record} {reader : Reader} {rest : List UInt8}

theorem intact_datagram (ht : target.WellFormed) (hr : r.WellFormed)
    (hc : source.config.integrity = target.config.integrity)
    (hs : target.record? r.identity = some s) (hk : r.payload.kind = s.payload.kind)
    (rest : List UInt8) :
    target.sizeOf s = source.sizeOf r ∧ Intact target (source.datagram r ++ rest) s := by
  have hpacket : s.packetSize = r.packetSize := by
    rw [(ht.of_record? hs).packetSize_eq, hr.packetSize_eq, hk]
  have hsize : target.sizeOf s = source.sizeOf r := by
    rw [sizeOf, sizeOf, hpacket, Config.trailerSize, Config.trailerSize, hc]
  have hlength := length_datagram (d := source) hr
  refine ⟨hsize, ⟨⟨?_, ?_⟩, ?_⟩, ?_⟩
  · rw [List.length_append, hlength, sizeOf, Record.packetSize]
    omega
  · rw [header_datagram, hr.header]
    exact hs
  · rw [List.length_append, hlength, hsize]
    exact Nat.le_add_right _ _
  · intro checksum hchecksum
    have hbody : (r.bytes ++ (halfBytes (checksum r.bytes) ++ rest)).take s.packetSize =
        r.bytes := List.take_left' ((Record.length_bytes hr).trans hpacket.symm)
    have hbehind : (r.bytes ++ (halfBytes (checksum r.bytes) ++ rest)).drop s.packetSize =
        halfBytes (checksum r.bytes) ++ rest :=
      List.drop_left' ((Record.length_bytes hr).trans hpacket.symm)
    have hseal : source.datagram r = r.bytes ++ halfBytes (checksum r.bytes) := by
      simp [datagram, trailer, hc, hchecksum]
    rw [hseal, List.append_assoc, hbody, ← Nat.add_zero s.packetSize, ← halfAt_drop, hbehind,
      halfAt_append]

/-- An emission that is for a dictionary: sealed as it expects, and the datagram of a signal
that it receives. -/
structure Emission.For (e : Emission) (d : Dictionary) : Prop where
  integrity : e.source.config.integrity = d.config.integrity
  sends : ∃ r s, e.Sends r ∧ d.record? e.identity = some s ∧ s.mode = .receive ∧
    r.payload.kind = s.payload.kind

namespace Emission.For

variable {e : Emission} {d d' : Dictionary}

theorem of_sameSignals (h : e.For d) (hsame : SameSignals d' d) : e.For d' := by
  obtain ⟨r, s, hsends, hs, hm, hk⟩ := h.sends
  obtain ⟨t, ht, hts⟩ := hsame.record hs
  refine ⟨?_, r, t, hsends, ht, hts.mode.trans hm, hk.trans hts.kind.symm⟩
  rw [h.integrity, hsame.config]

theorem ingest_eq (h : e.For d) (hd : d.WellFormed)
    (hreader : reader.remaining = e.bytes ++ rest) (now : UInt32) :
    ∃ r s, e.Sends r ∧ d.record? e.identity = some s ∧
      d.ingest now reader =
        (.ok (s.offer r.header r.payload.carried now).1,
          d.replace (s.offer r.header r.payload.carried now).2, reader.advance e.count) := by
  obtain ⟨r, s, hsends, hs, hm, hk⟩ := h.sends
  have hi : r.identity = e.identity := identity_of_record? hsends.found
  obtain ⟨hsize, hintact⟩ := intact_datagram hd hsends.wellFormed h.integrity (hi ▸ hs) hk rest
  rw [hsends.bytes] at hreader
  have hannounced : s.payload.kind.Announced (reader.remaining.drop headerSize) := by
    rw [hreader, drop_datagram, ← hk]
    exact Payload.announced_append (Payload.sound_of_registrable hsends.wellFormed.kind).encodable _
  refine ⟨r, s, hsends, hs, ?_⟩
  rw [ingest_of_offered now hd (hreader ▸ hintact) hm hannounced, hreader, header_datagram,
    drop_datagram, ← hk, Payload.ofBytes_append, hsize, hsends.count]

theorem step (h : e.For d) (hd : d.WellFormed)
    (hreader : reader.remaining = e.bytes ++ rest) (now : UInt32) :
    ∃ outcome d', d.ingest now reader = (.ok outcome, d', reader.advance e.count) ∧
      (reader.advance e.count).remaining = rest ∧ (outcome = .accepted → e.HeldBy d') := by
  obtain ⟨r, s, hsends, hs, hingest⟩ := h.ingest_eq hd hreader now
  refine ⟨_, _, hingest, ?_, ?_⟩
  · rw [Reader.remaining_advance, hreader, hsends.count, hsends.bytes]
    exact List.drop_left' (length_datagram hsends.wellFormed)
  · intro haccepted
    rw [Record.offer_of_accepted haccepted]
    have hidentity : s.identity = e.identity := identity_of_record? hs
    exact ⟨r, _, hsends.found, record?_replace_self hs hidentity, rfl,
      Payload.carried_spec (Payload.sound_of_registrable hsends.wellFormed.kind)⟩

end Emission.For

/-- Emissions for a dictionary that lie end to end before a reader are all delivered. -/
theorem delivery_of_for {d : Dictionary} {es : List Emission} {nows : List UInt32}
    (hd : d.Reachable) (hfor : ∀ e ∈ es, e.For d) (hnows : nows.length = es.length)
    (hreader : reader.remaining = (es.map Emission.bytes).flatten) :
    ∃ last, Delivery d reader nows es last ∧ last.available = 0 := by
  induction es generalizing d reader nows with
  | nil =>
    cases List.length_eq_zero_iff.1 hnows
    refine ⟨reader, .done d reader, ?_⟩
    rw [← Reader.length_remaining, hreader]
    rfl
  | cons e es ih =>
    cases nows with
    | nil => cases hnows
    | cons now nows =>
      have he := hfor e List.mem_cons_self
      obtain ⟨outcome, d', hstep, hbehind, hheld⟩ := he.step hd.wellFormed hreader now
      have hnext := hd.ingest now reader
      have hsame := sameSignals_ingest d now reader
      rw [hstep] at hnext hsame
      have hrest : ∀ e ∈ es, e.For d' := fun e he =>
        (hfor e (List.mem_cons_of_mem _ he)).of_sameSignals hsame
      obtain ⟨last, hlast, hend⟩ := ih hnext hrest (Nat.succ.inj hnows) hbehind
      exact ⟨last, .next hstep hheld hlast, hend⟩

theorem Node.for_of_mem_emissions {n : Node} {ops : List Operation} {e : Emission}
    (hn : n.dictionary.Reachable)
    (hc : n.dictionary.config.integrity = target.config.integrity)
    (hlinked : Linked n.dictionary target e.identity) (he : e ∈ n.emissions ops) :
    e.For target := by
  obtain ⟨before, op, after, rfl, hsent⟩ := Node.mem_emissions he
  have hsame := (n.reachableFrom_run before).sameSignals
  obtain ⟨hsource, r, hsends⟩ := Node.sends_of_sent? (Node.reachable_run hn before).wellFormed hsent
  obtain ⟨first, s, hfirst, hs, -, hm, hk⟩ := hlinked
  obtain ⟨sent, hsent, hkind⟩ := hsame.record hfirst
  have hr : r = sent := hsends.eq_of_found (hsource ▸ hsent)
  refine ⟨?_, r, s, hsends, hs, hm, ?_⟩
  · rw [hsource, hsame.config, hc]
  · rw [hr, hkind.kind, hk]

/-- Whatever a node does between and after its emissions, they all arrive at a dictionary that
has their signals in receive mode: none is refused as a fault, the stream falls apart into
them and nothing else, and those that are accepted are held as they were sent. -/
theorem emissions_arrive {n : Node} {target : Dictionary} {ops : List Operation}
    {nows : List UInt32} (hn : n.dictionary.Reachable) (ht : target.Reachable)
    (hc : n.dictionary.config.integrity = target.config.integrity)
    (hlinked : ∀ e ∈ n.emissions ops, Linked n.dictionary target e.identity)
    (hnows : nows.length = (n.emissions ops).length) :
    ∃ last, Delivery target (Reader.ofBytes ((n.emissions ops).map Emission.bytes).flatten) nows
      (n.emissions ops) last ∧ last.available = 0 := by
  apply delivery_of_for ht _ hnows rfl
  intro e he
  exact Node.for_of_mem_emissions hn hc (hlinked e he) he

/-- A node that seals its datagrams and sends a number, a byte string and a scaled value. -/
def sampleSource : Node :=
  ⟨((Builder.new ⟨7, ⟨0x90⟩, some Integrity.polynomial⟩).attemptAll
    [⟨⟨⟨10, 20⟩, 1000⟩, .integer, .transmit⟩, ⟨⟨⟨10, 21⟩, 1000⟩, .buffer 2, .transmit⟩,
      ⟨⟨⟨10, 22⟩, 1000⟩, .scaled degreesPerTurnStep, .transmit⟩]).build, 0⟩

def sampleTarget : Dictionary :=
  ((Builder.new ⟨9, ⟨0x81⟩, some Integrity.polynomial⟩).attemptAll
    [⟨⟨⟨10, 20⟩, 50⟩, .integer, .receive⟩, ⟨⟨⟨10, 21⟩, 50⟩, .buffer 2, .receive⟩,
      ⟨⟨⟨10, 22⟩, 50⟩, .scaled degreesPerTurnStep, .receive⟩]).build

/-- Three emissions among changes, one into a buffer that is taken in part; a fourth has no
room. -/
def sampleSending : List Operation :=
  [.change ⟨10, 20⟩ (.value (.integer 5)), .emit ⟨10, 20⟩ 20 3, .advance 40,
    .change ⟨10, 21⟩ (.value (.bytes [8, 9])), .emitBytes ⟨10, 21⟩, .emit ⟨10, 20⟩ 12 0,
    .change ⟨10, 22⟩ (.value (.scaled (Numeric.Binary64.ofNat 90))), .emitBytes ⟨10, 22⟩]

theorem sampleSending_arrives :
    (sampleSource.emissions sampleSending).map Emission.count = [14, 16, 14] ∧
    ∃ last, Delivery sampleTarget
      (Reader.ofBytes ((sampleSource.emissions sampleSending).map Emission.bytes).flatten)
      [70, 80, 75] (sampleSource.emissions sampleSending) last ∧ last.available = 0 := by
  have hsource : sampleSource.dictionary.Reachable :=
    .build ((Builder.Reachable.new _).attemptAll _)
  have htarget : sampleTarget.Reachable := .build ((Builder.Reachable.new _).attemptAll _)
  have hcounts : (sampleSource.emissions sampleSending).map Emission.count = [14, 16, 14] := by
    decide +kernel
  have hidentities : (sampleSource.emissions sampleSending).map Emission.identity =
      [⟨10, 20⟩, ⟨10, 21⟩, ⟨10, 22⟩] := by decide +kernel
  have hlinked : ∀ i ∈ (sampleSource.emissions sampleSending).map Emission.identity,
      Linked sampleSource.dictionary sampleTarget i := by
    rw [hidentities]
    intro i hi
    simp only [List.mem_cons, List.not_mem_nil, or_false] at hi
    rcases hi with rfl | rfl | rfl
    · exact linked_of_read (k := .integer) (by decide +kernel) (by decide +kernel)
    · exact linked_of_read (k := .buffer 2) (by decide +kernel) (by decide +kernel)
    · exact linked_of_read (k := .scaled degreesPerTurnStep) (by decide +kernel)
        (by decide +kernel)
  have hsealed : sampleSource.dictionary.config.integrity = sampleTarget.config.integrity := by
    simp [sampleSource, sampleTarget, Builder.build, Builder.new]
  refine ⟨hcounts, emissions_arrive hsource htarget hsealed ?_ ?_⟩
  · intro e he
    exact hlinked _ (List.mem_map_of_mem he)
  · rw [← List.length_map Emission.count, hcounts]
    rfl

end Arrival

end Dictionary
end InstrumentBus
