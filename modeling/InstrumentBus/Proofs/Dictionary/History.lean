import InstrumentBus.Proofs.Dictionary.Call

/-!
# What a received signal shows

After any run, the record of a signal in receive mode shows the last datagram that was accepted
for it, or what registration left if there was none. For a whole period of the clock after that
datagram, its validity on the clock that wraps is its validity in time that does not.
-/

namespace InstrumentBus
namespace Dictionary

open Wire Signal

def Request.datagram? : Request → Option (List UInt8)
  | .ingest reader => some reader.remaining
  | .perform (.ingest bytes) _ => some bytes
  | _ => none

def Reply.outcome? : Reply → Option Outcome
  | .ingested result _ => result.toOption
  | _ => none

/-- The datagram that a call has accepted for a signal, and when. -/
def accepted? (d : Dictionary) (i : Identity) (c : Call) : Option Offer :=
  match c.request.datagram? with
  | none => none
  | some bytes =>
    if namedBy bytes = some i ∧ (d.call c).1.outcome? = some .accepted then some ⟨bytes, c.now⟩
    else none

/-- The datagrams accepted for a signal in a run, in the order of the calls. -/
def acceptances (d : Dictionary) (i : Identity) : List Call → List Offer
  | [] => []
  | c :: calls => (d.accepted? i c).toList ++ (d.call c).2.acceptances i calls

def adoptAny (s : Record) : Option Offer → Record
  | none => s
  | some o => s.adopt o

section Steps

variable {d d' : Dictionary} {i j : Identity} {s : Record} {c : Call}

theorem record?_change_of_receive {now : UInt32} {change : Change}
    (h : d.change now j change = .ok d') (hs : d.record? i = some s) (hm : s.mode = .receive) :
    d'.record? i = some s := by
  by_cases hij : i = j
  · subst hij
    obtain ⟨r, r', hr, hc, rfl⟩ := change_eq_ok_iff.1 h
    cases hs.symm.trans hr
    cases hm.symm.trans (Record.change_cases hc).1
  · rw [(agree_change h hij).record]
    exact hs

theorem record?_call_of_no_datagram (h : c.request.datagram? = none)
    (hs : d.record? i = some s) (hm : s.mode = .receive) : (d.call c).2.record? i = some s := by
  obtain ⟨now, request⟩ := c
  cases request with
  | ingest reader => cases h
  | emit identity w => exact hs
  | perform op single =>
    cases op with
    | ingest bytes => cases h
    | drain bytes => exact single.elim
    | change j change =>
      simp only [call, Node.perform]
      cases hc : d.change now j change with
      | error e => exact hs
      | ok d' => exact record?_change_of_receive hc hs hm
    | _ => exact hs

theorem call_of_datagram {bytes : List UInt8} (h : c.request.datagram? = some bytes) :
    ∃ reader, reader.remaining = bytes ∧
      ∀ d : Dictionary, (d.call c).1.outcome? = (d.ingest c.now reader).1.toOption ∧
        (d.call c).2 = (d.ingest c.now reader).2.1 := by
  obtain ⟨now, request⟩ := c
  cases request with
  | ingest reader =>
    cases h
    exact ⟨reader, rfl, fun d => ⟨rfl, rfl⟩⟩
  | emit identity w => cases h
  | perform op single =>
    cases op with
    | ingest bytes =>
      cases h
      exact ⟨Reader.ofBytes bytes, rfl, fun d => ⟨rfl, rfl⟩⟩
    | _ => cases h

theorem record?_ingest_of_receive {reader : Reader} (hd : d.WellFormed)
    (hs : d.record? i = some s) (hm : s.mode = .receive)
    (hi : namedBy reader.remaining = some i) (now : UInt32) :
    (d.ingest now reader).1.toOption = some .accepted ∧ s.Takes reader.remaining ∧
        (d.ingest now reader).2.1.record? i = some (s.adopt ⟨reader.remaining, now⟩) ∨
      (d.ingest now reader).1.toOption ≠ some .accepted ∧
        (d.ingest now reader).2.1.record? i = some s := by
  rcases ingest_exits now hd reader with ⟨e, -, he⟩ | ⟨r, hr, -, ha⟩
  · rw [he]
    refine Or.inr ⟨?_, hs⟩
    rintro ⟨⟩
  · have hfound := hr.record
    rw [(namedBy_eq_some_iff.1 hi).2, hs] at hfound
    cases hfound
    have hidentity : s.identity = i := identity_of_record? hs
    rw [ingest_of_offered now hd hr hm ha]
    cases hacc : s.accepts (Header.ofBytes reader.remaining) now with
    | true =>
      rw [Record.offer_of_accepts hacc]
      refine Or.inl ⟨rfl, ?_, record?_replace_self hs hidentity⟩
      have hroom := hr.room hd
      rw [Record.takes_iff, reader.length_remaining]
      exact ⟨hm, by omega, hr.identity_eq, ha⟩
    | false =>
      rw [Record.offer_of_not_accepts hacc]
      refine Or.inr ⟨?_, record?_replace_self hs hidentity⟩
      rintro ⟨⟩

/-- What a call makes of a signal in receive mode: nothing but a datagram that is accepted for
the signal leaves a trace in its record. -/
theorem record?_call_of_receive (hd : d.WellFormed) (hs : d.record? i = some s)
    (hm : s.mode = .receive) (c : Call) :
    (d.call c).2.record? i = some (adoptAny s (d.accepted? i c)) ∧
      ∀ o, d.accepted? i c = some o → s.Takes o.bytes := by
  cases hb : c.request.datagram? with
  | none =>
    simp only [accepted?, hb]
    refine ⟨record?_call_of_no_datagram hb hs hm, ?_⟩
    rintro _ ⟨⟩
  | some bytes =>
    obtain ⟨reader, rfl, hcall⟩ := call_of_datagram hb
    obtain ⟨houtcome, hafter⟩ := hcall d
    simp only [accepted?, hb, houtcome, hafter]
    by_cases hi : namedBy reader.remaining = some i
    · rcases record?_ingest_of_receive hd hs hm hi c.now with
        ⟨hacc, htakes, hrecord⟩ | ⟨hrej, hrecord⟩
      · rw [if_pos ⟨hi, hacc⟩]
        refine ⟨hrecord, ?_⟩
        rintro _ ⟨⟩
        exact htakes
      · rw [if_neg (mt And.right hrej)]
        refine ⟨hrecord, ?_⟩
        rintro _ ⟨⟩
    · rw [if_neg (mt And.left hi), (agree_ingest hi c.now).record]
      refine ⟨hs, ?_⟩
      rintro _ ⟨⟩

theorem adoptAny_adopt {o : Offer} (h : s.Takes o.bytes) (later : List Offer) :
    adoptAny (s.adopt o) later.getLast? = adoptAny s (o :: later).getLast? := by
  rw [List.getLast?_cons]
  cases later.getLast? with
  | none => rfl
  | some p => exact (Record.adopt_sameSignal h).adopt_eq p

/-- A run leaves a signal in receive mode with the last datagram accepted for it. -/
theorem record?_after_of_receive (hd : d.Reachable) (hs : d.record? i = some s)
    (hm : s.mode = .receive) (calls : List Call) :
    (d.after calls).record? i = some (adoptAny s (d.acceptances i calls).getLast?) ∧
      ∀ o ∈ d.acceptances i calls, s.Takes o.bytes := by
  induction calls generalizing d s with
  | nil =>
    refine ⟨hs, ?_⟩
    intro o ho
    exact absurd ho List.not_mem_nil
  | cons c calls ih =>
    obtain ⟨hnext, htakes⟩ := record?_call_of_receive hd.wellFormed hs hm c
    rw [after_cons, acceptances]
    cases ha : d.accepted? i c with
    | none =>
      rw [ha] at hnext
      exact ih (hd.call c) hnext hm
    | some o =>
      rw [ha] at hnext
      have hsame := Record.adopt_sameSignal (htakes o ha)
      obtain ⟨hlast, hrest⟩ := ih (hd.call c) hnext (hsame.mode.trans hm)
      refine ⟨?_, ?_⟩
      · rw [hlast]
        exact congrArg some (adoptAny_adopt (htakes o ha) _)
      · intro p hp
        rcases List.mem_cons.1 hp with rfl | hp
        · exact htakes _ ha
        · exact hsame.takes_iff.1 (hrest p hp)

end Steps

section Validity

variable {d : Dictionary} {i : Identity} {s : Record}

/-- Within a period of the clock, the time that has passed is the difference of its readings. -/
theorem elapsed_eq {start time : Nat} (hle : start ≤ time) (hlt : time < start + UInt32.size) :
    (UInt32.ofNat time - UInt32.ofNat start).toNat = time - start := by
  rw [UInt32.toNat_sub, UInt32.toNat_ofNat', UInt32.toNat_ofNat']
  simp only [UInt32.size] at hlt
  omega

theorem healthy_eq_testBit (p : Priority) : p.healthy = p.byte.toNat.testBit 7 := by
  have hlt := p.byte.toNat_lt
  rw [Bool.eq_iff_iff, Priority.healthy_iff, Nat.testBit_eq_decide_div_mod_eq, decide_eq_true_iff]
  omega

theorem isValid_adopt {o : Offer} {start time : Nat} (hstart : UInt32.ofNat start = o.now)
    (hle : start ≤ time) (hlt : time < start + UInt32.size) :
    (s.adopt o).isValid (UInt32.ofNat time) =
      (o.header.priority.byte.toNat.testBit 7 &&
        decide (time - start ≤ s.descriptor.timeout.toNat)) := by
  have helapsed := elapsed_eq hle hlt
  rw [hstart] at helapsed
  rw [Record.isValid, ← healthy_eq_testBit, ← helapsed]
  simp only [Record.adopt, UInt32.le_iff_toNat_le]

theorem isValid_eq_of_record? (hs : d.record? i = some s) (now : UInt32) :
    d.isValid now i = .ok (s.isValid now) := by
  rw [isValid, record_eq_ok_iff.2 hs]
  rfl

theorem ingest_of_invalid {now : UInt32} {reader : Reader} (hd : d.WellFormed)
    (hi : Intact d reader.remaining s) (hm : s.mode = .receive)
    (ha : s.payload.kind.Announced (reader.remaining.drop headerSize))
    (hinvalid : s.isValid now = false) : (d.ingest now reader).1 = .ok .accepted := by
  have hacc : s.accepts (Header.ofBytes reader.remaining) now = true :=
    Record.accepts_eq_true_iff.2 ⟨hi.identity_eq, Or.inl hinvalid⟩
  rw [ingest_of_offered now hd hi hm ha, Record.offer_of_accepts hacc]

end Validity

/-- A record against the last datagram accepted for it. Where there is none it holds the zero of
its kind under the header of a silent signal. -/
def Shows (s : Record) : Option Offer → Prop
  | none => s.header = Header.silent s.identity ∧ Payload.zero s.payload.kind = .ok s.payload ∧
      s.updated = 0
  | some o => (∃ after, s.decode (Reader.ofBytes o.bytes) = .ok (s.header, s.payload, after)) ∧
      s.updated = o.now

theorem Builder.Reachable.shows_none {b : Builder} (h : b.Reachable) {r : Record}
    (hr : r ∈ b.records) (hm : r.mode = .receive) : Shows r none := by
  obtain ⟨descriptor, kind, mode, hfresh⟩ := h.exists_record hr
  obtain ⟨payload, hz, ⟨-, rfl⟩ | ⟨hmode, rfl⟩⟩ := Builder.record_cases hfresh
  · refine ⟨rfl, ?_, rfl⟩
    rw [Payload.kind_zero hz]
    exact hz
  · cases hmode.symm.trans hm

theorem isValid_of_shows_none {s : Record} (h : Shows s none) (now : UInt32) :
    s.isValid now = false := by
  rw [Record.isValid, h.1]
  rfl

theorem shows_adopt {s : Record} {o : Offer} (h : s.Takes o.bytes) : Shows (s.adopt o) (some o) := by
  have hsame := Record.adopt_sameSignal h
  obtain ⟨-, hle, hi, ha⟩ := Record.takes_iff.1 (hsame.takes_iff.2 h)
  have hd : (s.adopt o).decode (Reader.ofBytes o.bytes) = .ok _ :=
    Record.decode_eq_ok_iff.2 ⟨hle, hi, ha, rfl⟩
  rw [hsame.kind] at hd
  exact ⟨⟨_, hd⟩, rfl⟩

/-- After any run from a fresh dictionary, a signal in receive mode shows the last datagram that
was accepted for it, and nothing but a datagram accepted for it changes that. In a period of the
clock from then on it is valid if and only if the datagram is from a healthy source and no more
time than the timeout has passed. Whenever it is not valid, a datagram for it is accepted whoever
sent it. -/
theorem shows_last_accepted {b : Builder} (hb : b.Reachable) {i : Identity} {r : Record}
    (hr : b.build.record? i = some r) (hm : r.mode = .receive) (calls : List Call) :
    ∃ s, (b.build.after calls).record? i = some s ∧ Record.SameSignal s r ∧
      Shows s (b.build.acceptances i calls).getLast? ∧
      (∀ c, (b.build.after calls).accepted? i c = none →
        ((b.build.after calls).call c).2.record? i = some s) ∧
      ((b.build.acceptances i calls).getLast? = none →
        ∀ now, (b.build.after calls).isValid now i = .ok false) ∧
      (∀ o start time, (b.build.acceptances i calls).getLast? = some o →
        UInt32.ofNat start = o.now → start ≤ time → time < start + UInt32.size →
          (b.build.after calls).isValid (UInt32.ofNat time) i =
            .ok (o.header.priority.byte.toNat.testBit 7 &&
              decide (time - start ≤ r.descriptor.timeout.toNat))) ∧
      ∀ now reader, (b.build.after calls).isValid now i = .ok false →
        Intact (b.build.after calls) reader.remaining s →
        s.payload.kind.Announced (reader.remaining.drop headerSize) →
          ((b.build.after calls).ingest now reader).1 = .ok .accepted := by
  have hbuilt : b.build.Reachable := .build hb
  have hwf := (hbuilt.after calls).wellFormed
  have hfresh := hb.shows_none (mem_of_record? hr) hm
  obtain ⟨hs, htakes⟩ := record?_after_of_receive hbuilt hr hm calls
  have hlast : ∀ o, (b.build.acceptances i calls).getLast? = some o → r.Takes o.bytes :=
    fun o ho => htakes o (List.mem_of_getLast? ho)
  have hsame : Record.SameSignal (adoptAny r (b.build.acceptances i calls).getLast?) r := by
    cases ho : (b.build.acceptances i calls).getLast? with
    | none => exact Record.SameSignal.refl r
    | some o => exact Record.adopt_sameSignal (hlast o ho)
  have hmode := hsame.mode.trans hm
  have hvalid (now : UInt32) := isValid_eq_of_record? hs now
  refine ⟨_, hs, hsame, ?_, ?_, ?_, ?_, ?_⟩
  · cases ho : (b.build.acceptances i calls).getLast? with
    | none => exact hfresh
    | some o => exact shows_adopt (hlast o ho)
  · intro c hc
    have hcall := (record?_call_of_receive hwf hs hmode c).1
    rwa [hc] at hcall
  · intro ho now
    rw [hvalid, ho]
    exact congrArg _ (isValid_of_shows_none hfresh now)
  · intro o start time ho hstart hle hlt
    rw [hvalid, ho]
    exact congrArg _ (isValid_adopt hstart hle hlt)
  · intro now reader hinvalid hintact ha
    rw [hvalid] at hinvalid
    exact ingest_of_invalid hwf hintact hmode ha (Except.ok.inj hinvalid)

/-- A datagram for the byte string of the sample registrations, shortly before the clock wraps,
one of a lower priority and a local change of another signal, both after it has. -/
def sampleHistory : List Call :=
  [⟨0xfffffff0, .ingest (Reader.ofBytes (Header.bytes ⟨3, ⟨0x85⟩, ⟨10, 21⟩, 100⟩ ++
      [0, 0, 0, 2, 8, 9]))⟩,
    ⟨10, .perform (.ingest (Header.bytes ⟨4, ⟨0x84⟩, ⟨10, 21⟩, 200⟩ ++ [0, 0, 0, 2, 1, 1]))
      trivial⟩,
    ⟨20, .perform (.change ⟨10, 20⟩ (.value (.integer 9))) trivial⟩]

def sampleBuilder : Builder := (Builder.new ⟨7, ⟨0x90⟩, none⟩).attemptAll sampleRegistrations

/-- The byte string of the first datagram is valid until a second after it came in. -/
theorem sampleHistory_shows_first :
    sampleBuilder.Reachable ∧
    ∃ s, (sampleBuilder.build.after sampleHistory).record? ⟨10, 21⟩ = some s ∧
      s.payload = .buffer [8, 9] ∧ s.updated = 0xfffffff0 ∧
      (sampleBuilder.build.after sampleHistory).isValid 984 ⟨10, 21⟩ = .ok true ∧
      (sampleBuilder.build.after sampleHistory).isValid 985 ⟨10, 21⟩ = .ok false := by
  have hb : sampleBuilder.Reachable := (Builder.Reachable.new _).attemptAll _
  have hr : sampleBuilder.build.record? ⟨10, 21⟩ = some ⟨⟨⟨10, 21⟩, 1000⟩, .receive,
      Header.silent ⟨10, 21⟩, .buffer [0, 0], 0⟩ := by decide +kernel
  have hlast : (sampleBuilder.build.acceptances ⟨10, 21⟩ sampleHistory).getLast? =
      some ⟨Header.bytes ⟨3, ⟨0x85⟩, ⟨10, 21⟩, 100⟩ ++ [0, 0, 0, 2, 8, 9], 0xfffffff0⟩ := rfl
  obtain ⟨s, hs, -, hshows, -, -, hvalid, -⟩ := shows_last_accepted hb hr rfl sampleHistory
  rw [hlast] at hshows
  have hpayload : ((sampleBuilder.build.after sampleHistory).record? ⟨10, 21⟩).map (·.payload) =
      some (.buffer [8, 9]) := by decide +kernel
  rw [hs] at hpayload
  have hheld := hvalid _ 0xfffffff0 (0xfffffff0 + 1000) hlast rfl (by decide) (by decide)
  have hexpired := hvalid _ 0xfffffff0 (0xfffffff0 + 1001) hlast rfl (by decide) (by decide)
  refine ⟨hb, s, hs, Option.some.inj hpayload, hshows.2, ?_, ?_⟩
  · exact hheld
  · exact hexpired

end Dictionary
end InstrumentBus
