import InstrumentBus.Proofs.Dictionary.Ingest

/-!
# Streams that arrive in pieces

What becomes of a datagram does not depend on the bytes behind it. A dictionary that has asked
for more bytes has not changed, so it can go on from where it stands once they are there, and
it makes no difference where the stream was cut.
-/

namespace InstrumentBus
namespace Dictionary

open Wire Signal

def wantsMore : Except Error Outcome → Bool
  | .error (.underrun _ _) => true
  | _ => false

section Locality

variable {d : Dictionary} {r : Record} {bytes : List UInt8} {reader : Reader}

theorem Names.extend (h : Names d bytes r) (more : List UInt8) : Names d (bytes ++ more) r := by
  refine ⟨?_, ?_⟩
  · rw [List.length_append]
    exact Nat.le_trans h.header (Nat.le_add_right _ _)
  · rw [Header.ofBytes_of_le h.header]
    exact h.record

theorem Delivers.extend (h : Delivers d bytes r) (more : List UInt8) :
    Delivers d (bytes ++ more) r := by
  refine ⟨h.toNames.extend more, ?_⟩
  rw [List.length_append]
  exact Nat.le_trans h.complete (Nat.le_add_right _ _)

theorem Delivers.checked_eq (h : Delivers d bytes r) {checksum : Integrity}
    (hc : d.config.integrity = some checksum) (more : List UInt8) :
    (bytes ++ more).take r.packetSize = bytes.take r.packetSize ∧
      halfAt (bytes ++ more) r.packetSize = halfAt bytes r.packetSize := by
  have hroom := h.complete
  rw [sizeOf, trailerSize_of_some hc] at hroom
  exact ⟨List.take_append_of_le_length (by omega), halfAt_of_le hroom more⟩

theorem Intact.extend (h : Intact d bytes r) (more : List UInt8) : Intact d (bytes ++ more) r := by
  refine ⟨h.toDelivers.extend more, ?_⟩
  intro checksum hc
  obtain ⟨hbody, hseal⟩ := h.toDelivers.checked_eq hc more
  rw [hbody, hseal]
  exact h.genuine checksum hc

theorem Delivers.payload_extend (h : Delivers d bytes r) (hd : d.WellFormed) (more : List UInt8) :
    r.payload.kind.extent ≤ (bytes.drop headerSize).length ∧
      (bytes ++ more).drop headerSize = bytes.drop headerSize ++ more := by
  have hread : Delivers d (Reader.ofBytes bytes).remaining r := h
  have hroom := hread.room hd
  rw [Reader.available_ofBytes] at hroom
  refine ⟨?_, List.drop_append_of_le_length h.header⟩
  rw [List.length_drop]
  omega

/-- A verdict other than that more bytes are needed does not depend on what follows. -/
theorem Verdict.extend {now : UInt32} {result : Except Error Outcome} (hd : d.WellFormed)
    (hv : Verdict d now bytes result) (more : List UInt8) :
    wantsMore result = true ∨ Verdict d now (bytes ++ more) result := by
  cases hv with
  | cut h => exact Or.inl rfl
  | cutStamp hle h => exact Or.inl rfl
  | short hr h => exact Or.inl rfl
  | unknown hle h =>
    have hlonger : headerSize ≤ (bytes ++ more).length := by
      rw [List.length_append]
      exact Nat.le_trans hle (Nat.le_add_right _ _)
    rw [← Header.ofBytes_of_le hle more] at h ⊢
    exact Or.inr (.unknown hlonger h)
  | broken hr hc h =>
    obtain ⟨hbody, hseal⟩ := hr.checked_eq hc more
    rw [← hbody, ← hseal] at h ⊢
    exact Or.inr (.broken (hr.extend more) hc h)
  | outgoing hr h =>
    rw [← Header.ofBytes_of_le hr.header more]
    exact Or.inr (.outgoing (hr.extend more) h)
  | misannounced hr hm hk h =>
    obtain ⟨hbehind, -⟩ := hr.payload_extend hd more
    have hword : wordAt (bytes ++ more) headerSize = wordAt bytes headerSize := by
      rw [hk, Kind.extent, List.length_drop] at hbehind
      refine wordAt_of_le ?_ more
      simp only [wordSize] at hbehind
      omega
    rw [← hword] at h ⊢
    exact Or.inr (.misannounced (hr.extend more) hm hk h)
  | offered hr hm ha =>
    obtain ⟨hbehind, hdrop⟩ := hr.payload_extend hd more
    rw [← Header.ofBytes_of_le hr.header more]
    refine Or.inr (.offered (hr.extend more) hm ?_)
    rw [hdrop]
    exact (Kind.announced_of_le hbehind more).2 ha

/-- A datagram that is taken in or refused is so whatever follows it; else more bytes are asked
for and nothing has changed. -/
theorem ingest_extend (hd : d.WellFormed) (hp : reader.position ≤ reader.buffer.length)
    (now : UInt32) (more : List UInt8) :
    (wantsMore (d.ingest now reader).1 = true ∧ (d.ingest now reader).2 = (d, reader)) ∨
      (wantsMore (d.ingest now reader).1 = false ∧
        d.ingest now (reader.extend more) = ((d.ingest now reader).1,
          (d.ingest now reader).2.1, (d.ingest now reader).2.2.extend more)) := by
  have hremaining := Reader.remaining_extend hp more
  rcases ingest_exits now hd reader with ⟨e, hv, he⟩ | ⟨r, hr, hm, ha⟩
  · rw [he]
    cases hmore : wantsMore (.error e) with
    | true => exact Or.inl ⟨rfl, rfl⟩
    | false =>
      rcases hv.extend hd more with hwants | hlonger
      · cases hmore.symm.trans hwants
      · rw [← hremaining] at hlonger
        exact Or.inr ⟨rfl, hlonger.ingest_eq hd⟩
  · obtain ⟨hbehind, hdrop⟩ := hr.payload_extend hd more
    have hlonger := hr.extend more
    have hannounced := (Kind.announced_of_le hbehind more).2 ha
    rw [← hremaining] at hdrop hlonger
    rw [← hdrop] at hannounced
    rw [ingest_of_offered now hd hr hm ha, ingest_of_offered now hd hlonger hm hannounced, hdrop,
      Payload.ofBytes_of_le hbehind, hremaining, Header.ofBytes_of_le hr.header,
      Reader.advance_extend]
    exact Or.inr ⟨rfl, rfl⟩

theorem Intact.of_extend {more : List UInt8} (h : Intact d (bytes ++ more) r)
    (hshort : Delivers d bytes r) : Intact d bytes r := by
  refine ⟨hshort, ?_⟩
  intro checksum hc
  obtain ⟨hbody, hseal⟩ := hshort.checked_eq hc more
  rw [← hbody, ← hseal]
  exact h.genuine checksum hc

theorem ingest_alone {now : UInt32} {outcome : Outcome} {next : Dictionary} {after : Reader}
    (hd : d.WellFormed) (h : d.ingest now reader = (.ok outcome, next, after)) :
    ∃ r datagram more, reader.remaining = datagram ++ more ∧ datagram.length = d.sizeOf r ∧
      Intact d datagram r ∧ r.payload.kind.Announced (datagram.drop headerSize) ∧
      after = reader.advance (d.sizeOf r) ∧
      d.ingest now (Reader.ofBytes datagram) =
        (.ok outcome, next, (Reader.ofBytes datagram).advance (d.sizeOf r)) := by
  rcases ingest_exits now hd reader with ⟨e, -, he⟩ | ⟨r, hr, hm, ha⟩
  · cases h.symm.trans he
  · have hroom := hr.room hd
    have hsize : d.sizeOf r = headerSize + r.payload.kind.extent + d.config.trailerSize := by
      rw [sizeOf, (hd.of_record? hr.record).packetSize_eq]
    obtain ⟨datagram, more, hsplit, hlength⟩ : ∃ datagram more,
        reader.remaining = datagram ++ more ∧ datagram.length = d.sizeOf r := by
      refine ⟨_, _, (List.take_append_drop (d.sizeOf r) reader.remaining).symm, ?_⟩
      rw [List.length_take, reader.length_remaining]
      omega
    have hheader : headerSize ≤ datagram.length := by omega
    have hnamed := hr.record
    rw [hsplit, Header.ofBytes_of_le hheader] at hnamed
    have hdelivers : Delivers d datagram r := ⟨⟨hheader, hnamed⟩, Nat.le_of_eq hlength.symm⟩
    have hintact : Intact d datagram r := (hsplit ▸ hr).of_extend hdelivers
    obtain ⟨hbehind, hdrop⟩ := hdelivers.payload_extend hd more
    have hoffered := ingest_of_offered now hd hr hm ha
    rw [hsplit, hdrop] at ha hoffered
    have hannounced := (Kind.announced_of_le hbehind more).1 ha
    rw [Payload.ofBytes_of_le hbehind, Header.ofBytes_of_le hheader] at hoffered
    have halone : d.ingest now (Reader.ofBytes datagram) = _ :=
      ingest_of_offered now hd hintact hm hannounced
    have hsame := h.symm.trans hoffered
    simp only [Prod.mk.injEq] at hsame
    obtain ⟨houtcome, hnext, hafter⟩ := hsame
    refine ⟨r, datagram, more, hsplit, hlength, hintact, hannounced, hafter, ?_⟩
    rw [halone, houtcome, hnext]
    rfl

theorem position_ingest_le (hd : d.WellFormed) (hp : reader.position ≤ reader.buffer.length)
    (now : UInt32) :
    (d.ingest now reader).2.2.position ≤ (d.ingest now reader).2.2.buffer.length := by
  rcases ingest_exits now hd reader with ⟨e, -, he⟩ | ⟨r, hr, hm, ha⟩
  · rw [he]
    exact hp
  · have hroom := hr.complete
    rw [ingest_of_offered now hd hr hm ha]
    simp only [Reader.advance, Reader.length_remaining, Reader.available] at hroom ⊢
    omega

end Locality

/-- Take in datagrams until the bytes end before the next one does, or one fails for another
reason: what became of each, the dictionary and the reader after them. -/
def absorb (d : Dictionary) (now : UInt32) (reader : Reader) :
    List (Except Error Outcome) × Dictionary × Reader :=
  match _h : d.ingest now reader with
  | (.error e, next, after) => (if wantsMore (.error e) then [] else [.error e], next, after)
  | (.ok outcome, next, after) =>
    let (results, last, behind) := absorb next now after
    (.ok outcome :: results, last, behind)
termination_by reader.available
decreasing_by exact available_lt_of_ingest ‹_›

/-- A stream taken in as it comes. The reader stands behind the datagrams taken in so far. -/
structure Intake where
  dictionary : Dictionary
  reader : Reader
  results : List (Except Error Outcome)

namespace Intake

def start (d : Dictionary) : Intake := ⟨d, Reader.ofBytes [], []⟩

def failed (results : List (Except Error Outcome)) : Bool := results.any (·.toOption.isNone)

@[simp] theorem failed_nil : failed [] = false := rfl

@[simp] theorem failed_ok (outcome : Outcome) (results : List (Except Error Outcome)) :
    failed (.ok outcome :: results) = failed results := rfl

@[simp] theorem failed_error (e : Error) (results : List (Except Error Outcome)) :
    failed (.error e :: results) = true := rfl

@[simp] theorem failed_append (results later : List (Except Error Outcome)) :
    failed (results ++ later) = (failed results || failed later) := List.any_append

/-- One more piece of the stream. The reader goes on from where it stands, unless a datagram
has failed. -/
def feed (now : UInt32) (s : Intake) (piece : List UInt8) : Intake :=
  let reader := s.reader.extend piece
  if failed s.results then { s with reader := reader }
  else
    let (results, d, reader) := s.dictionary.absorb now reader
    ⟨d, reader, s.results ++ results⟩

end Intake

section Absorption

variable {d : Dictionary} {now : UInt32} {reader : Reader}

theorem absorb_of_error {e : Error} {d' : Dictionary} {after : Reader}
    (h : d.ingest now reader = (.error e, d', after)) :
    d.absorb now reader = (if wantsMore (.error e) then [] else [.error e], d', after) := by
  rw [absorb]
  split
  · next heq =>
    cases h.symm.trans heq
    rfl
  · next heq => cases h.symm.trans heq

theorem absorb_of_ok {outcome : Outcome} {d' : Dictionary} {after : Reader}
    (h : d.ingest now reader = (.ok outcome, d', after)) :
    d.absorb now reader = (.ok outcome :: (d'.absorb now after).1, (d'.absorb now after).2) := by
  rw [absorb]
  split
  · next heq => cases h.symm.trans heq
  · next heq =>
    cases h.symm.trans heq
    rfl

/-- More bytes behind those absorbed are absorbed from where the reader was left, unless a
datagram has failed. -/
theorem absorb_extend {results : List (Except Error Outcome)} {last : Dictionary}
    {behind : Reader} (hd : d.Reachable) (hp : reader.position ≤ reader.buffer.length)
    (h : d.absorb now reader = (results, last, behind)) (more : List UInt8) :
    d.absorb now (reader.extend more) =
      if Intake.failed results then (results, last, behind.extend more)
      else (results ++ (last.absorb now (behind.extend more)).1,
        (last.absorb now (behind.extend more)).2) := by
  fun_induction absorb d now reader generalizing results last behind with
  | case1 d reader e next after hstep =>
    cases h
    rcases ingest_extend hd.wellFormed hp now more with ⟨hmore, hsame⟩ | ⟨hfinal, hlonger⟩
    · rw [hstep] at hmore hsame
      cases hsame
      simp [hmore]
    · rw [hstep] at hfinal hlonger
      simp [absorb_of_error hlonger, hfinal]
  | case2 d reader outcome next after hstep rest last' behind' hrest ih =>
    cases h
    have hnext := hd.ingest now reader
    have hstand := position_ingest_le hd.wellFormed hp now
    rcases ingest_extend hd.wellFormed hp now more with ⟨hmore, -⟩ | ⟨-, hlonger⟩
    · rw [hstep] at hmore
      cases hmore
    · rw [hstep] at hnext hstand hlonger
      rw [absorb_of_ok hlonger, ih hnext hstand hrest, Intake.failed_ok]
      cases Intake.failed rest with
      | true => rfl
      | false => rfl

/-- All at once, a stream is absorbed as a run of datagrams is taken in, but for the complaint
about an incomplete end. -/
theorem absorb_eq_drain (d : Dictionary) (now : UInt32) (reader : Reader) :
    (d.absorb now reader).1 =
        ((d.drain now reader).1.map (·.result)).filter (fun result => !wantsMore result) ∧
      (d.absorb now reader).2.1 = (d.drain now reader).2 := by
  fun_induction Dictionary.drain d now reader with
  | case1 d reader hend =>
    have hshort : reader.available < headerSize := by
      rw [hend]
      decide
    have hcut := ingest_of_cut (d := d) now hshort
    rw [if_pos (by omega)] at hcut
    rw [absorb_of_error hcut]
    exact ⟨rfl, rfl⟩
  | case2 d reader hmore header e next after hstep =>
    rw [absorb_of_error hstep]
    cases hw : wantsMore (.error e) with
    | true => simp [hw]
    | false => simp [hw]
  | case3 d reader hmore header outcome next after hstep arrivals last hrest ih =>
    rw [hrest] at ih
    rw [absorb_of_ok hstep, ih.1, ih.2]
    exact ⟨rfl, rfl⟩

end Absorption

namespace Intake

variable {s : Intake}

/-- Two pieces one after the other are as good as the two of them in one. -/
theorem feed_feed (hd : s.dictionary.Reachable)
    (hp : s.reader.position ≤ s.reader.buffer.length) (now : UInt32) (a b : List UInt8) :
    (s.feed now a).feed now b = s.feed now (a ++ b) := by
  cases hs : failed s.results with
  | true => simp [feed, hs, Reader.extend_extend]
  | false =>
    have hstand : (s.reader.extend a).position ≤ (s.reader.extend a).buffer.length := by
      simp only [Reader.extend, List.length_append]
      omega
    rcases habsorb : s.dictionary.absorb now (s.reader.extend a) with ⟨results, d, reader⟩
    have hlonger := absorb_extend hd hstand habsorb b
    rw [Reader.extend_extend] at hlonger
    cases hr : failed results with
    | true => simp [feed, hs, habsorb, hlonger, hr]
    | false => simp [feed, hs, habsorb, hlonger, hr, List.append_assoc]

theorem foldl_feed (hd : s.dictionary.Reachable)
    (hp : s.reader.position ≤ s.reader.buffer.length) (now : UInt32) (a : List UInt8)
    (pieces : List (List UInt8)) :
    pieces.foldl (feed now) (s.feed now a) = s.feed now (a ++ pieces.flatten) := by
  induction pieces generalizing a with
  | nil => simp
  | cons b pieces ih =>
    rw [List.foldl_cons, feed_feed hd hp, ih, List.flatten_cons, List.append_assoc]

theorem feed_start (d : Dictionary) (now : UInt32) (stream : List UInt8) :
    (start d).feed now stream =
      ⟨(d.absorb now (Reader.ofBytes stream)).2.1, (d.absorb now (Reader.ofBytes stream)).2.2,
        (d.absorb now (Reader.ofBytes stream)).1⟩ := rfl

theorem feed_start_nil (d : Dictionary) (now : UInt32) : (start d).feed now [] = start d := by
  have hshort : (Reader.ofBytes []).available < headerSize := by decide
  have hcut := ingest_of_cut (d := d) now hshort
  rw [if_pos (by decide)] at hcut
  rw [feed_start, absorb_of_error hcut]
  rfl

end Intake

/-- Unless it asks for more bytes, a dictionary deals with a datagram as it would if more bytes
followed it. If it does ask, neither it nor the reader has changed. So a stream taken in piece by
piece is taken in as it would be all at once, with the same results up to the first failure for
another reason, however it is cut. -/
theorem ingest_resumable {d : Dictionary} (hd : d.Reachable) (now : UInt32) :
    (∀ (reader : Reader) (more : List UInt8), reader.position ≤ reader.buffer.length →
      (wantsMore (d.ingest now reader).1 = false →
        d.ingest now (reader.extend more) = ((d.ingest now reader).1,
          (d.ingest now reader).2.1, (d.ingest now reader).2.2.extend more)) ∧
      (wantsMore (d.ingest now reader).1 = true → (d.ingest now reader).2 = (d, reader))) ∧
    ∀ pieces : List (List UInt8),
      pieces.foldl (Intake.feed now) (Intake.start d) =
          (Intake.start d).feed now pieces.flatten ∧
        (pieces.foldl (Intake.feed now) (Intake.start d)).results =
          ((d.drain now (Reader.ofBytes pieces.flatten)).1.map (·.result)).filter
            (fun result => !wantsMore result) ∧
        (pieces.foldl (Intake.feed now) (Intake.start d)).dictionary =
          (d.drain now (Reader.ofBytes pieces.flatten)).2 := by
  refine ⟨?_, ?_⟩
  · intro reader more hp
    rcases ingest_extend hd.wellFormed hp now more with ⟨hmore, hsame⟩ | ⟨hfinal, hlonger⟩
    · refine ⟨?_, fun _ => hsame⟩
      intro hfinal
      cases hmore.symm.trans hfinal
    · refine ⟨fun _ => hlonger, ?_⟩
      intro hmore
      cases hmore.symm.trans hfinal
  · intro pieces
    have hpieces : pieces.foldl (Intake.feed now) (Intake.start d) =
        (Intake.start d).feed now pieces.flatten := by
      have hfold := Intake.foldl_feed (s := Intake.start d) hd (Nat.le_refl 0) now [] pieces
      rwa [Intake.feed_start_nil, List.nil_append] at hfold
    obtain ⟨hresults, hdictionary⟩ := absorb_eq_drain d now (Reader.ofBytes pieces.flatten)
    rw [hpieces, Intake.feed_start]
    exact ⟨rfl, hresults, hdictionary⟩

/-- A datagram cut within its header and within its checksum, and the start of another one. -/
def samplePieces : List (List UInt8) :=
  let datagram := sampleSealed (sampleDatagram 3 0x85 100 42)
  [datagram.take 5, (datagram.drop 5).take 8, datagram.drop 13 ++ [3, 0x85, 10]]

/-- The datagram is accepted once it is complete, and the start of the other one waits. -/
theorem samplePieces_accepted :
    sampleDictionary.Reachable ∧
    (samplePieces.foldl (Intake.feed 5) (Intake.start sampleDictionary)).results =
      [.ok .accepted] ∧
    (samplePieces.foldl (Intake.feed 5) (Intake.start sampleDictionary)).reader.remaining =
      [3, 0x85, 10] := by
  have hwhole := ((ingest_resumable sampleDictionary_reachable 5).2 samplePieces).1
  let stream := Reader.ofBytes samplePieces.flatten
  let d := (sampleDictionary.ingest 5 stream).2.1
  let behind := stream.advance 14
  have hfirst : sampleDictionary.ingest 5 stream = (.ok .accepted, d, behind) := rfl
  have hsecond : d.ingest 5 behind = (.error (.underrun 1 0), d, behind) := rfl
  rw [hwhole, Intake.feed_start, absorb_of_ok hfirst, absorb_of_error hsecond]
  exact ⟨sampleDictionary_reachable, rfl, rfl⟩

end Dictionary
end InstrumentBus
