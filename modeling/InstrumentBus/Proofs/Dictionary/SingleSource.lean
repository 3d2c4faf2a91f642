import InstrumentBus.Proofs.Dictionary.Emission

/-!
# A signal with one source

A node that alone sends a signal, and another node that takes in all it sends and nothing
else. As long as the clock of the first does not wrap, its datagrams bear ascending
timestamps and all of them are accepted. A datagram sent after the clock has wrapped is
older by its stamp than the one held before, and is rejected for as long as that one is
valid.
-/

namespace InstrumentBus
namespace Dictionary

open Wire Signal

section Stamps

variable {d d' : Dictionary} {r : Record} {i : Identity}

theorem record?_ingest_of_transmit (hr : d.record? i = some r) (hm : r.mode = .transmit)
    (now : UInt32) (reader : Reader) : (d.ingest now reader).2.1.record? i = some r := by
  rcases d.ingest_cases now reader with he | ⟨j, s, -, hs, he⟩
  · rw [he]
    exact hr
  · rw [he]
    have hidentity : (s.receive reader now).2.1.identity = j :=
      (s.receive_sameSignal reader now).identity.trans (identity_of_record? hs)
    by_cases hij : i = j
    · subst hij
      cases hr.symm.trans hs
      rw [Record.receive_of_transmit hm] at hidentity ⊢
      exact record?_replace_self hr hidentity
    · rw [record?_replace_of_ne (hidentity ▸ hij)]
      exact hr

theorem stamp_change {now : UInt32} {j : Identity} {c : Change} (h : d.change now j c = .ok d')
    (hr : d.record? i = some r) (hm : r.mode = .transmit) :
    ∃ r', d'.record? i = some r' ∧ r'.mode = .transmit ∧
      (r'.header.timestamp = r.header.timestamp ∨ r'.header.timestamp = now) := by
  obtain ⟨s, s', hs, hc, rfl⟩ := change_eq_ok_iff.1 h
  have hidentity : s'.identity = j :=
    (Record.change_sameSignal hc).identity.trans (identity_of_record? hs)
  by_cases hij : i = j
  · subst hij
    cases hr.symm.trans hs
    refine ⟨s', record?_replace_self hr hidentity, (Record.change_sameSignal hc).mode.trans hm, ?_⟩
    obtain ⟨-, ⟨v, payload, -, -, rfl⟩ | ⟨p, -, rfl⟩ | ⟨device, -, rfl⟩⟩ := Record.change_cases hc
    · exact Or.inr rfl
    · exact Or.inl rfl
    · exact Or.inl rfl
  · exact ⟨r, (record?_replace_of_ne (hidentity ▸ hij)).trans hr, hm, Or.inl rfl⟩

theorem Node.stamp_perform {n : Node} (hr : n.dictionary.record? i = some r)
    (hm : r.mode = .transmit) (op : Operation) :
    ∃ r', (n.perform op).2.dictionary.record? i = some r' ∧ r'.mode = .transmit ∧
      (r'.header.timestamp = r.header.timestamp ∨ r'.header.timestamp = n.now) := by
  refine Node.perform_preserves (P := fun d => ∃ r', d.record? i = some r' ∧
    r'.mode = .transmit ∧ (r'.header.timestamp = r.header.timestamp ∨
      r'.header.timestamp = n.now)) ?_ ?_ ⟨r, hr, hm, Or.inl rfl⟩ op
  · rintro d reader ⟨r', hr', hm', hstamp⟩
    exact ⟨r', record?_ingest_of_transmit hr' hm' n.now reader, hm', hstamp⟩
  · rintro d d' j c ⟨r', hr', hm', hstamp⟩ hc
    obtain ⟨last, hlast, hmode, hkept | hnow⟩ := stamp_change hc hr' hm'
    · exact ⟨last, hlast, hmode, hkept ▸ hstamp⟩
    · exact ⟨last, hlast, hmode, Or.inr hnow⟩

/-- How far the clock of a node moves forward in a run, in all. -/
def Node.travel (n : Node) : List Operation → Nat
  | [] => 0
  | op :: ops => ((n.perform op).2.now - n.now).toNat + (n.perform op).2.travel ops

/-- A clock that moves forward and does not wrap does not fall behind. -/
theorem toNat_add_sub (now later : UInt32)
    (h : now.toNat + (later - now).toNat < UInt32.size) :
    later.toNat = now.toNat + (later - now).toNat := by
  have hnow := now.toNat_lt
  have hlater := later.toNat_lt
  rw [UInt32.toNat_sub] at h ⊢
  simp only [UInt32.size] at h
  omega

def Emission.header (e : Emission) : Header := Header.ofBytes e.bytes

theorem Emission.Sends.header_eq {e : Emission} (h : e.Sends r) : e.header = r.header := by
  have hheader := header_datagram e.source r []
  rwa [List.append_nil, ← h.bytes] at hheader

/-- As long as the clock does not wrap, the datagrams of a signal are sent in the order of
their timestamps. The stamp of the record and the clock bound those to come. -/
theorem Node.ascending_emissions {n : Node} {ops : List Operation} (hn : n.dictionary.Reachable)
    (hr : n.dictionary.record? i = some r) (hm : r.mode = .transmit)
    (hstamp : r.header.timestamp ≤ n.now)
    (hwrap : n.now.toNat + n.travel ops < UInt32.size)
    (honly : ∀ e ∈ n.emissions ops, e.identity = i) :
    (r.header.timestamp :: (n.emissions ops).map (·.header.timestamp)).Pairwise (· ≤ ·) := by
  induction ops generalizing n r with
  | nil => exact List.pairwise_singleton _ _
  | cons op ops ih =>
    obtain ⟨r', hr', hm', hstep⟩ := Node.stamp_perform hr hm op
    rw [Node.travel] at hwrap
    have hclock := toNat_add_sub n.now (n.perform op).2.now (by omega)
    have hle : n.now ≤ (n.perform op).2.now := by
      rw [UInt32.le_iff_toNat_le, hclock]
      exact Nat.le_add_right _ _
    have hup : r.header.timestamp ≤ r'.header.timestamp ∧ r'.header.timestamp ≤ n.now := by
      rcases hstep with he | he
      · exact ⟨UInt32.le_of_eq he.symm, he ▸ hstamp⟩
      · exact ⟨he ▸ hstamp, UInt32.le_of_eq he⟩
    have hrest := ih (Node.reachable_perform hn op) hr' hm' (UInt32.le_trans hup.2 hle)
      (by omega) (fun e he => honly e (List.mem_append_right _ he))
    rw [List.pairwise_cons] at hrest
    have hlater : (r.header.timestamp ::
        ((n.perform op).2.emissions ops).map (·.header.timestamp)).Pairwise (· ≤ ·) := by
      refine List.pairwise_cons.2 ⟨?_, hrest.2⟩
      intro stamp hmem
      exact UInt32.le_trans hup.1 (hrest.1 stamp hmem)
    -- What is sent now bears the stamp of the record, which is not after any later one.
    rw [Node.emissions]
    cases hsent : n.sent? op with
    | none => exact hlater
    | some e =>
      have hi : e.identity = i := by
        apply honly
        rw [Node.emissions, hsent]
        exact List.mem_append_left _ (List.mem_singleton.2 rfl)
      obtain ⟨hsource, s, hsends⟩ := Node.sends_of_sent? hn.wellFormed hsent
      have hstamped : e.header.timestamp = r.header.timestamp := by
        have hfound : e.source.record? e.identity = some r := by
          rw [hsource, hi]
          exact hr
        rw [hsends.header_eq, hsends.eq_of_found hfound]
      refine List.pairwise_cons.2 ⟨?_, ?_⟩
      · intro stamp hmem
        rcases List.mem_cons.1 hmem with rfl | hmem
        · exact UInt32.le_of_eq hstamped.symm
        · exact (List.pairwise_cons.1 hlater).1 stamp hmem
      · simpa [hstamped] using hlater

end Stamps

theorem Builder.Reachable.silent {b : Builder} (h : b.Reachable) {r : Record}
    (hr : r ∈ b.records) :
    r.header.timestamp = 0 ∧ (r.mode = .receive → r.header.priority.healthy = false) := by
  obtain ⟨descriptor, kind, mode, hfresh⟩ := h.exists_record hr
  obtain ⟨payload, -, ⟨-, rfl⟩ | ⟨hmode, rfl⟩⟩ := Builder.record_cases hfresh
  · exact ⟨rfl, fun _ => rfl⟩
  · refine ⟨rfl, ?_⟩
    intro hreceive
    cases hmode.symm.trans hreceive

section Passages

structure Passage where
  emission : Emission
  now : UInt32

def pass (d : Dictionary) (p : Passage) : Except Error Outcome × Dictionary :=
  let (result, d', _) := d.ingest p.now (Reader.ofBytes p.emission.bytes)
  (result, d')

def passAll (d : Dictionary) (ps : List Passage) : Dictionary :=
  ps.foldl (fun d p => (d.pass p).2) d

variable {d : Dictionary} {p : Passage} {ps : List Passage} {s : Record} {i : Identity}

theorem passAll_concat (d : Dictionary) (ps : List Passage) (p : Passage) :
    d.passAll (ps ++ [p]) = ((d.passAll ps).pass p).2 := by
  simp [passAll, List.foldl_append]

theorem Reachable.passAll (h : d.Reachable) (ps : List Passage) : (d.passAll ps).Reachable := by
  induction ps using List.reverseRecOn with
  | nil => exact h
  | append_singleton before p ih =>
    rw [passAll_concat]
    exact ih.ingest _ _

theorem sameSignals_passAll (d : Dictionary) (ps : List Passage) :
    SameSignals (d.passAll ps) d := by
  induction ps using List.reverseRecOn with
  | nil => exact SameSignals.refl d
  | append_singleton before p ih =>
    rw [passAll_concat]
    exact (sameSignals_ingest _ _ _).trans ih

theorem pass_spec (hp : p.emission.For d) (hd : d.WellFormed)
    (hs : d.record? p.emission.identity = some s) :
    (d.pass p).1 =
        .ok (if s.accepts p.emission.header p.now then .accepted else .rejected) ∧
      (s.accepts p.emission.header p.now = true → p.emission.HeldBy (d.pass p).2) ∧
      ∃ s', (d.pass p).2.record? p.emission.identity = some s' ∧
        (s'.header = s.header ∨ s'.header = p.emission.header) := by
  have hreader : (Reader.ofBytes p.emission.bytes).remaining = p.emission.bytes ++ [] :=
    (List.append_nil _).symm
  obtain ⟨r, s', hsends, hs', hingest⟩ := hp.ingest_eq hd hreader p.now
  cases hs.symm.trans hs'
  have hidentity : s.identity = p.emission.identity := identity_of_record? hs
  rw [pass, hingest, hsends.header_eq]
  cases ha : s.accepts r.header p.now with
  | true =>
    rw [Record.offer_of_accepts ha]
    refine ⟨rfl, ?_, _, record?_replace_self hs hidentity, Or.inr rfl⟩
    intro _
    exact ⟨r, _, hsends.found, record?_replace_self hs hidentity, rfl,
      Payload.carried_spec (Payload.sound_of_registrable hsends.wellFormed.kind)⟩
  | false =>
    rw [Record.offer_of_not_accepts ha]
    refine ⟨rfl, ?_, s, record?_replace_self hs hidentity, Or.inl rfl⟩
    intro h
    cases h

theorem header_passAll (hd : d.Reachable) (hs : d.record? i = some s)
    (hps : ∀ p ∈ ps, p.emission.For d ∧ p.emission.identity = i) :
    ∃ s', (d.passAll ps).record? i = some s' ∧
      (s'.header = s.header ∨ ∃ p ∈ ps, s'.header = p.emission.header) := by
  induction ps using List.reverseRecOn with
  | nil => exact ⟨s, hs, Or.inl rfl⟩
  | append_singleton before p ih =>
    obtain ⟨held, hheld, hheader⟩ := ih fun q hq => hps q (List.mem_append_left _ hq)
    obtain ⟨hfor, hi⟩ := hps p (List.mem_append_right _ (List.mem_singleton.2 rfl))
    have hfor' := hfor.of_sameSignals (sameSignals_passAll d before)
    obtain ⟨-, -, after, hafter, hnext⟩ :=
      pass_spec hfor' (hd.passAll before).wellFormed (hi ▸ hheld)
    rw [passAll_concat]
    refine ⟨after, hi ▸ hafter, ?_⟩
    rcases hnext with hkept | hnew
    · rw [hkept]
      rcases hheader with hfirst | ⟨q, hq, hearlier⟩
      · exact Or.inl hfirst
      · exact Or.inr ⟨q, List.mem_append_left _ hq, hearlier⟩
    · exact Or.inr ⟨p, List.mem_append_right _ (List.mem_singleton.2 rfl), hnew⟩

end Passages

/-- Two nodes that have just been set up, the first of which sends a signal under one device
and priority, and the second of which takes in all that is sent and nothing else. -/
structure SingleSource (b c : Builder) (start : UInt32) (ops : List Operation)
    (ps : List Passage) (i : Identity) (device : UInt8) (priority : Priority) : Prop where
  sender : b.Reachable
  receiver : c.Reachable
  integrity : b.config.integrity = c.config.integrity
  linked : Linked b.build c.build i
  only : ∀ e ∈ Node.emissions ⟨b.build, start⟩ ops, e.identity = i
  passages : ps.map Passage.emission = Node.emissions ⟨b.build, start⟩ ops
  stamped : ∀ p ∈ ps, p.emission.header.device = device ∧ p.emission.header.priority = priority

namespace SingleSource

variable {b c : Builder} {start : UInt32} {ops : List Operation} {ps : List Passage}
  {i : Identity} {device : UInt8} {priority : Priority}

theorem for_receiver (h : SingleSource b c start ops ps i device priority) {p : Passage}
    (hp : p ∈ ps) : p.emission.For c.build ∧ p.emission.identity = i := by
  have hmem : p.emission ∈ Node.emissions ⟨b.build, start⟩ ops :=
    h.passages ▸ List.mem_map_of_mem hp
  have hi := h.only _ hmem
  exact ⟨Node.for_of_mem_emissions (.build h.sender) h.integrity (hi ▸ h.linked) hmem, hi⟩

/-- The record of the receiver before each passage, which does not hold the datagram of
another source. -/
theorem held (h : SingleSource b c start ops ps i device priority) {before after : List Passage}
    (hps : ps = before ++ after) :
    ∃ s, (c.build.passAll before).record? i = some s ∧
      ((s.header.priority.healthy = false ∧ s.header.timestamp = 0) ∨
        ∃ q ∈ before, s.header = q.emission.header) := by
  obtain ⟨-, s, -, hs, -, hm, -⟩ := h.linked
  obtain ⟨hstamp, hpriority⟩ := h.receiver.silent (mem_of_record? hs)
  have hbefore : ∀ q ∈ before, q.emission.For c.build ∧ q.emission.identity = i := by
    intro q hq
    exact h.for_receiver (hps ▸ List.mem_append_left _ hq)
  obtain ⟨s', hs', hheader⟩ := header_passAll (.build h.receiver) hs hbefore
  refine ⟨s', hs', ?_⟩
  rcases hheader with hfirst | hearlier
  · rw [hfirst]
    exact Or.inl ⟨hpriority hm, hstamp⟩
  · exact Or.inr hearlier

theorem accepts_iff (h : SingleSource b c start ops ps i device priority)
    {before after : List Passage} {p : Passage} {s : Record} (hps : ps = before ++ p :: after)
    (hs : (c.build.passAll before).record? i = some s)
    (hheld : (s.header.priority.healthy = false ∧ s.header.timestamp = 0) ∨
      ∃ q ∈ before, s.header = q.emission.header) :
    s.accepts p.emission.header p.now = true ↔
      ¬ (s.isValid p.now = true ∧ p.emission.header.timestamp < s.header.timestamp) := by
  have hp : p ∈ ps := hps ▸ List.mem_append_right _ List.mem_cons_self
  obtain ⟨hfor, hi⟩ := h.for_receiver hp
  obtain ⟨r, -, hsends, -, -, -⟩ := hfor.sends
  have hidentity : p.emission.header.identity = s.identity := by
    rw [hsends.header_eq, hsends.wellFormed.header, identity_of_record? hsends.found, hi,
      identity_of_record? hs]
  rw [Record.accepts_eq_true_iff]
  rcases hheld with ⟨hsilent, -⟩ | ⟨q, hq, hheader⟩
  · have hinvalid : s.isValid p.now = false := by simp [Record.isValid, hsilent]
    simp [hidentity, hinvalid]
  · obtain ⟨hdevice, hpriority⟩ := h.stamped p hp
    obtain ⟨hsource, hrank⟩ := h.stamped q (hps ▸ List.mem_append_left _ hq)
    have habove : p.emission.header.priority.above s.header.priority = false := by
      rw [hheader, hpriority, hrank, ← Bool.not_eq_true, Priority.above_iff]
      exact Nat.lt_irrefl _
    have hsame : p.emission.header.device = s.header.device := by
      rw [hheader, hdevice, hsource]
    simp [hidentity, habove, hsame, Classical.or_iff_not_imp_left]

theorem ascending (h : SingleSource b c start ops ps i device priority)
    (hwrap : start.toNat + Node.travel ⟨b.build, start⟩ ops < UInt32.size) :
    (ps.map (·.emission.header.timestamp)).Pairwise (· ≤ ·) := by
  obtain ⟨r, -, hr, -, hm, -, -⟩ := h.linked
  have hstamp : r.header.timestamp ≤ start := by
    rw [(h.sender.silent (mem_of_record? hr)).1]
    exact UInt32.zero_le
  have hall := Node.ascending_emissions (n := ⟨b.build, start⟩) (.build h.sender) hr hm hstamp
    hwrap h.only
  rw [← h.passages, List.map_map] at hall
  exact (List.pairwise_cons.1 hall).2

theorem step (h : SingleSource b c start ops ps i device priority)
    {before after : List Passage} {p : Passage} {s : Record} (hps : ps = before ++ p :: after)
    (hs : (c.build.passAll before).record? i = some s) :
    ((c.build.passAll before).pass p).1 =
        .ok (if s.accepts p.emission.header p.now then .accepted else .rejected) ∧
      (s.accepts p.emission.header p.now = true →
        p.emission.HeldBy (c.build.passAll (before ++ [p]))) := by
  obtain ⟨hfor, hi⟩ := h.for_receiver (hps ▸ List.mem_append_right _ List.mem_cons_self)
  have hfor' := hfor.of_sameSignals (sameSignals_passAll c.build before)
  have hreachable := Reachable.passAll (.build h.receiver) before
  obtain ⟨hout, hheld, -⟩ := pass_spec hfor' hreachable.wellFormed (hi ▸ hs)
  rw [passAll_concat]
  exact ⟨hout, hheld⟩

/-- A datagram of the only source is rejected if and only if the one held is valid and bears a
later timestamp. As long as the clock of the sender does not wrap this never happens, so that
the receiver holds each datagram once it has come in. -/
theorem accepted_until_wrap (h : SingleSource b c start ops ps i device priority) :
    (∀ before p after, ps = before ++ p :: after →
      ∃ s, (c.build.passAll before).record? i = some s ∧
        ((c.build.passAll before).pass p).1 =
          .ok (if s.isValid p.now = true ∧ p.emission.header.timestamp < s.header.timestamp
            then .rejected else .accepted)) ∧
    (start.toNat + Node.travel ⟨b.build, start⟩ ops < UInt32.size →
      ∀ before p after, ps = before ++ p :: after →
        ((c.build.passAll before).pass p).1 = .ok .accepted ∧
          p.emission.HeldBy (c.build.passAll (before ++ [p]))) := by
  refine ⟨?_, ?_⟩
  · intro before p after hps
    obtain ⟨s, hs, hheld⟩ := h.held hps
    refine ⟨s, hs, ?_⟩
    rw [(h.step hps hs).1]
    by_cases ha : s.accepts p.emission.header p.now = true
    · rw [if_pos ha, if_neg ((h.accepts_iff hps hs hheld).1 ha)]
    · rw [if_neg ha, if_pos (Decidable.of_not_not (mt (h.accepts_iff hps hs hheld).2 ha))]
  · intro hwrap before p after hps
    obtain ⟨s, hs, hheld⟩ := h.held hps
    have hle : s.header.timestamp ≤ p.emission.header.timestamp := by
      rcases hheld with ⟨-, hzero⟩ | ⟨q, hq, hheader⟩
      · rw [hzero]
        exact UInt32.zero_le
      · have hasc := h.ascending hwrap
        rw [hps, List.map_append, List.map_cons, List.pairwise_append] at hasc
        rw [hheader]
        exact hasc.2.2 _ (List.mem_map_of_mem hq) _ List.mem_cons_self
    have ha : s.accepts p.emission.header p.now = true := by
      rw [h.accepts_iff hps hs hheld]
      rintro ⟨-, hlt⟩
      exact UInt32.not_lt.2 hle hlt
    obtain ⟨hout, hheldBy⟩ := h.step hps hs
    rw [if_pos ha] at hout
    exact ⟨hout, hheldBy ha⟩

end SingleSource

def sampleSender : Builder :=
  (Builder.new ⟨7, ⟨0x90⟩, none⟩).attemptAll [⟨⟨⟨10, 20⟩, 1000⟩, .integer, .transmit⟩]

def sampleReceiver : Builder :=
  (Builder.new Config.standard).attemptAll [⟨⟨⟨10, 20⟩, 1000⟩, .integer, .receive⟩]

/-- Two values are sent, the second of them 32 milliseconds after the first. -/
def sampleUpdates : List Operation :=
  [.change ⟨10, 20⟩ (.value (.integer 1)), .emitBytes ⟨10, 20⟩, .advance 32,
    .change ⟨10, 20⟩ (.value (.integer 2)), .emitBytes ⟨10, 20⟩]

/-- Both arrive at once, at a receiver whose clock runs from zero. -/
def samplePassages (start : UInt32) : List Passage :=
  (Node.emissions ⟨sampleSender.build, start⟩ sampleUpdates).map fun e =>
    ⟨e, e.header.timestamp - start⟩

theorem sampleSource_single (start : UInt32)
    (hstamped : ∀ e ∈ (Node.emissions ⟨sampleSender.build, start⟩ sampleUpdates).map
      fun e => (e.identity, e.header.device, e.header.priority), e = (⟨10, 20⟩, 7, ⟨0x90⟩)) :
    SingleSource sampleSender sampleReceiver start sampleUpdates (samplePassages start)
      ⟨10, 20⟩ 7 ⟨0x90⟩ := by
  have hpassages : (samplePassages start).map Passage.emission =
      Node.emissions ⟨sampleSender.build, start⟩ sampleUpdates := by
    rw [samplePassages, List.map_map]
    exact List.map_id _
  refine ⟨(Builder.Reachable.new _).attemptAll _, (Builder.Reachable.new _).attemptAll _, rfl,
    linked_of_read (k := .integer) rfl rfl, ?_, hpassages, ?_⟩
  · intro e he
    exact congrArg Prod.fst (hstamped _ (List.mem_map_of_mem he))
  · intro p hp
    have hmem := hpassages ▸ List.mem_map_of_mem hp
    have hheader := hstamped _ (List.mem_map_of_mem hmem)
    exact ⟨congrArg (·.2.1) hheader, congrArg (·.2.2) hheader⟩

theorem sampleUpdates_accepted :
    SingleSource sampleSender sampleReceiver 5 sampleUpdates (samplePassages 5) ⟨10, 20⟩ 7
      ⟨0x90⟩ ∧
    ∃ first second, samplePassages 5 = [first, second] ∧
      ((sampleReceiver.build.passAll [first]).pass second).1 = .ok .accepted ∧
      second.emission.HeldBy (sampleReceiver.build.passAll [first, second]) := by
  have hsource := sampleSource_single 5 (by decide +kernel)
  have hlater := hsource.accepted_until_wrap.2 (by decide +kernel)
  have htwo : (samplePassages 5).length = 2 := by decide +kernel
  obtain ⟨first, second, hpair⟩ := List.length_eq_two.1 htwo
  exact ⟨hsource, first, second, hpair, hlater [first] second [] hpair⟩

/-- The clock of the sender wraps between the two values, and the second one is rejected. -/
theorem sampleUpdates_rejected_across_wrap :
    SingleSource sampleSender sampleReceiver 0xfffffff0 sampleUpdates
      (samplePassages 0xfffffff0) ⟨10, 20⟩ 7 ⟨0x90⟩ ∧
    Node.travel ⟨sampleSender.build, 0xfffffff0⟩ sampleUpdates = 32 ∧
    (samplePassages 0xfffffff0)[1]?.map (fun second => ((sampleReceiver.build.passAll
      ((samplePassages 0xfffffff0).take 1)).pass second).1) = some (.ok .rejected) :=
  ⟨sampleSource_single _ (by decide +kernel), by decide +kernel, by decide +kernel⟩

end Dictionary
end InstrumentBus
