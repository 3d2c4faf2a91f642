import InstrumentBus.Dictionary.Node
import InstrumentBus.Proofs.Signal.WellFormed
import Mathlib.Data.List.Nodup

/-!
# Reachable dictionaries

The dictionaries that registration, datagrams and local changes can lead to. In all
of them the records stand in ascending order of identity, so that there is one record
to an identity, and every record is well formed.
-/

namespace InstrumentBus
namespace Dictionary

open Wire Signal

/-- The builders that registrations lead to. -/
inductive Builder.Reachable : Builder → Prop where
  | new (config : Config) : Reachable (Builder.new config)
  | register {b b' : Builder} {descriptor : Descriptor} {kind : Kind} {mode : Mode}
      (hb : Reachable b) (h : b.register descriptor kind mode = .ok b') : Reachable b'

/-- The dictionaries that datagrams and local changes lead to, each at a time of its own. -/
inductive Reachable : Dictionary → Prop where
  | build {b : Builder} (hb : b.Reachable) : Reachable b.build
  | ingest {d : Dictionary} (hd : Reachable d) (now : UInt32) (reader : Reader) :
      Reachable (d.ingest now reader).2.1
  | change {d d' : Dictionary} {now : UInt32} {identity : Identity} {c : Change}
      (hd : Reachable d) (h : d.change now identity c = .ok d') : Reachable d'

structure WellFormed (d : Dictionary) : Prop where
  ascending : d.identities.Pairwise (· < ·)
  records : ∀ r ∈ d.records, r.WellFormed

section Lookup

variable {d : Dictionary} {r s : Record} {i : Identity}

theorem mem_of_record? (h : d.record? i = some r) : r ∈ d.records := List.mem_of_find?_eq_some h

theorem identity_of_record? (h : d.record? i = some r) : r.identity = i := by
  have hp := List.find?_some (p := fun s : Record => s.identity == i) h
  exact beq_iff_eq.1 hp

theorem mem_identities_iff : i ∈ d.identities ↔ ∃ r, d.record? i = some r := by
  rw [identities, List.mem_map]
  constructor
  · rintro ⟨r, hr, rfl⟩
    cases hf : d.record? r.identity with
    | none => exact absurd (beq_self_eq_true _) (List.find?_eq_none.1 hf r hr)
    | some s => exact ⟨s, rfl⟩
  · rintro ⟨r, hr⟩
    exact ⟨r, mem_of_record? hr, identity_of_record? hr⟩

theorem WellFormed.eq_of_identity (hd : d.WellFormed) (hr : r ∈ d.records)
    (hs : s ∈ d.records) (h : r.identity = s.identity) : r = s := by
  have hnodup : d.identities.Nodup := Identity.nodup_of_ascending hd.ascending
  exact List.inj_on_of_nodup_map hnodup hr hs h

theorem WellFormed.record?_of_mem (hd : d.WellFormed) (hr : r ∈ d.records) :
    d.record? r.identity = some r := by
  obtain ⟨s, hs⟩ := mem_identities_iff.1 (List.mem_map_of_mem (f := Record.identity) hr)
  rw [hs, hd.eq_of_identity (mem_of_record? hs) hr (identity_of_record? hs)]

theorem WellFormed.of_record? (hd : d.WellFormed) (h : d.record? i = some r) : r.WellFormed :=
  hd.records r (mem_of_record? h)

theorem record_eq_ok_iff : d.record i = .ok r ↔ d.record? i = some r := by
  unfold record
  split
  · next s hs => simp [hs]
  · next hs => simp [hs]

end Lookup

section Replace

variable {d : Dictionary} {r r' : Record} {i j : Identity}

@[simp] theorem config_replace (d : Dictionary) (r : Record) :
    (d.replace r).config = d.config := rfl

@[simp] theorem identities_replace (d : Dictionary) (r : Record) :
    (d.replace r).identities = d.identities := by
  simp only [identities, replace, replaceRecord, List.map_map]
  apply List.map_congr_left
  intro s _
  simp only [Function.comp_apply]
  split
  · next h => exact h.symm
  · rfl

theorem WellFormed.replace (hd : d.WellFormed) (hr : r.WellFormed) :
    (d.replace r).WellFormed := by
  refine ⟨?_, ?_⟩
  · rw [identities_replace]
    exact hd.ascending
  · intro s hs
    obtain ⟨t, ht, rfl⟩ := List.mem_map.1 hs
    split
    · exact hr
    · exact hd.records t ht

theorem WellFormed.replace_self (hd : d.WellFormed) (h : d.record? i = some r) :
    d.replace r = d := by
  have hrecords : d.records.map (fun s => if s.identity = r.identity then r else s) =
      d.records.map id := by
    apply List.map_congr_left
    intro s hs
    split
    · next heq => exact hd.eq_of_identity (mem_of_record? h) hs heq.symm
    · rfl
  rw [Dictionary.replace, replaceRecord, hrecords, List.map_id]

theorem record?_replace (d : Dictionary) (r : Record) (i : Identity) :
    (d.replace r).record? i =
      (d.record? i).map fun s => if s.identity = r.identity then r else s := by
  simp only [record?, replace, replaceRecord, List.find?_map]
  congr 2
  funext s
  simp only [Function.comp_apply]
  split
  · next h => rw [h]
  · rfl

theorem record?_replace_self (h : d.record? i = some r) (hi : r'.identity = i) :
    (d.replace r').record? i = some r' := by
  rw [record?_replace, h, Option.map_some, if_pos ((identity_of_record? h).trans hi.symm)]

theorem record?_replace_of_ne (hj : j ≠ r.identity) :
    (d.replace r).record? j = d.record? j := by
  rw [record?_replace]
  cases hf : d.record? j with
  | none => rfl
  | some s => rw [Option.map_some, if_neg (identity_of_record? hf ▸ hj)]

end Replace

section Invariant

/-- What a fresh record holds: the zero of its kind, and a header without a time, which names
the node if the signal is to be sent. -/
theorem Builder.record_cases {config : Config} {descriptor : Descriptor} {kind : Kind}
    {mode : Mode} {r : Record} (h : Builder.record config descriptor kind mode = .ok r) :
    ∃ payload, Payload.zero kind = .ok payload ∧
      (mode = .receive ∧
          r = ⟨descriptor, mode, Header.silent descriptor.identity, payload, 0⟩ ∨
        mode = .transmit ∧
          r = ⟨descriptor, mode, ⟨config.device, config.priority, descriptor.identity, 0⟩,
            payload, 0⟩) := by
  unfold Builder.record at h
  cases hn : Record.new descriptor kind mode with
  | error e => simp [hn, Except.map] at h
  | ok fresh =>
    obtain ⟨payload, hz, rfl⟩ := Record.new_eq_ok_iff.1 hn
    simp only [hn, Except.map, Except.ok.injEq] at h
    refine ⟨payload, hz, ?_⟩
    cases mode with
    | receive => exact Or.inl ⟨rfl, h.symm⟩
    | transmit => exact Or.inr ⟨rfl, h.symm⟩

theorem Builder.wellFormed_record {config : Config} {descriptor : Descriptor} {kind : Kind}
    {mode : Mode} {r : Record} (h : Builder.record config descriptor kind mode = .ok r) :
    r.WellFormed ∧ r.identity = descriptor.identity := by
  obtain ⟨payload, hz, ⟨-, rfl⟩ | ⟨-, rfl⟩⟩ := Builder.record_cases h
  · exact ⟨⟨rfl, Payload.kind_zero hz ▸ Kind.registrable_of_zero hz, fun _ => rfl⟩, rfl⟩
  · exact ⟨⟨rfl, Payload.kind_zero hz ▸ Kind.registrable_of_zero hz, fun _ => rfl⟩, rfl⟩

theorem Builder.register_cases {b b' : Builder} {descriptor : Descriptor} {kind : Kind}
    {mode : Mode} (h : b.register descriptor kind mode = .ok b') :
    ∃ r, Builder.record b.config descriptor kind mode = .ok r ∧
      (∀ s ∈ b.records, s.identity ≠ r.identity) ∧
      b' = { b with records := Identity.insertInto Record.identity r b.records } := by
  unfold Builder.register at h
  split at h
  · cases h
  · next hc =>
    split at h
    · cases h
    · next r hr =>
      cases h
      refine ⟨r, hr, ?_, rfl⟩
      intro s hs heq
      apply hc
      rw [(Builder.wellFormed_record hr).2] at heq
      exact List.any_eq_true.2 ⟨s, hs, beq_iff_eq.2 heq⟩

theorem Builder.Reachable.wellFormed {b : Builder} (h : b.Reachable) : b.build.WellFormed := by
  induction h with
  | new config => exact ⟨List.Pairwise.nil, fun r hr => absurd hr List.not_mem_nil⟩
  | register hb h ih =>
    obtain ⟨r, hr, hnew, rfl⟩ := Builder.register_cases h
    refine ⟨Identity.pairwise_insertInto hnew ih.ascending, ?_⟩
    intro s hs
    rcases Identity.mem_insertInto.1 hs with rfl | hs
    · exact (Builder.wellFormed_record hr).1
    · exact ih.records s hs

theorem Builder.Reachable.exists_record {b : Builder} (h : b.Reachable) {r : Record}
    (hr : r ∈ b.records) :
    ∃ descriptor kind mode, Builder.record b.config descriptor kind mode = .ok r := by
  induction h with
  | new config => exact absurd hr List.not_mem_nil
  | register hb h ih =>
    obtain ⟨fresh, hfresh, -, rfl⟩ := Builder.register_cases h
    rcases Identity.mem_insertInto.1 hr with rfl | hr
    · exact ⟨_, _, _, hfresh⟩
    · exact ih hr

theorem change_eq_ok_iff {d d' : Dictionary} {now : UInt32} {i : Identity} {c : Change} :
    d.change now i c = .ok d' ↔
      ∃ r r', d.record? i = some r ∧ r.change c now = .ok r' ∧ d' = d.replace r' := by
  unfold change record
  cases d.record? i with
  | none => simp
  | some r =>
    cases hc : r.change c now with
    | error e => simp [hc]
    | ok r' => simp [hc, eq_comm]

/-- The identity in the header that bytes start with, if there are enough of them for one. -/
def namedBy (bytes : List UInt8) : Option Identity :=
  if headerSize ≤ bytes.length then some (Header.ofBytes bytes).identity else none

theorem namedBy_eq_some_iff {bytes : List UInt8} {i : Identity} :
    namedBy bytes = some i ↔ headerSize ≤ bytes.length ∧ (Header.ofBytes bytes).identity = i := by
  simp [namedBy]

theorem identity_peek (reader : Reader) :
    (Header.peek reader).toOption.map Header.identity = namedBy reader.remaining := by
  by_cases hle : headerSize ≤ reader.available
  · rw [Header.peek, Header.read_of_le hle, namedBy, reader.length_remaining, if_pos hle]
    rfl
  · rw [Header.peek, Header.read_of_lt (Nat.lt_of_not_le hle), namedBy, reader.length_remaining,
      if_neg hle]
    rfl

theorem namedBy_of_peek {reader : Reader} {header : Header}
    (h : Header.peek reader = .ok header) : namedBy reader.remaining = some header.identity := by
  rw [← identity_peek, h]
  rfl

theorem namedBy_append {bytes : List UInt8} (h : headerSize ≤ bytes.length) (more : List UInt8) :
    namedBy (bytes ++ more) = namedBy bytes := by
  have hlonger : headerSize ≤ (bytes ++ more).length := by
    rw [List.length_append]
    exact Nat.le_trans h (Nat.le_add_right _ _)
  rw [namedBy, namedBy, if_pos h, if_pos hlonger, Header.ofBytes_of_le h]

/-- A datagram has the record it names replaced by what the record makes of it, or nothing. -/
theorem ingest_cases (d : Dictionary) (now : UInt32) (reader : Reader) :
    (d.ingest now reader).2.1 = d ∨
      ∃ i r, namedBy reader.remaining = some i ∧ d.record? i = some r ∧
        (d.ingest now reader).2.1 = d.replace (r.receive reader now).2.1 := by
  unfold ingest
  split
  · exact Or.inl rfl
  · next header hpeek =>
    split
    · exact Or.inl rfl
    · next r hr =>
      have hr := record_eq_ok_iff.1 hr
      split
      · exact Or.inl rfl
      · split
        · exact Or.inl rfl
        · refine Or.inr ⟨header.identity, r, namedBy_of_peek hpeek, hr, ?_⟩
          split
          · next he => rw [he]
          · next he =>
            rw [he]
            split <;> rfl

theorem Reachable.wellFormed {d : Dictionary} (h : d.Reachable) : d.WellFormed := by
  induction h with
  | build hb => exact hb.wellFormed
  | @ingest d hd now reader ih =>
    rcases d.ingest_cases now reader with he | ⟨i, r, -, hr, he⟩
    · rw [he]
      exact ih
    · rw [he]
      exact ih.replace ((ih.of_record? hr).receive reader now)
  | change hd h ih =>
    obtain ⟨r, r', hr, hc, rfl⟩ := change_eq_ok_iff.1 h
    exact ih.replace ((ih.of_record? hr).change hc)

end Invariant

section Runs

theorem Builder.Reachable.registerAll {b : Builder} (h : b.Reachable)
    (modeOf : Catalog.Definition → Mode) (definitions : List Catalog.Definition) :
    (b.registerAll modeOf definitions).2.Reachable := by
  induction definitions generalizing b with
  | nil => exact h
  | cons definition rest ih =>
    unfold Builder.registerAll
    split
    · exact h
    · next hr => exact ih (h.register hr)

/-- A run of datagrams preserves what each datagram preserves. -/
theorem drain_preserves {P : Dictionary → Prop} {d : Dictionary} {now : UInt32}
    (hingest : ∀ d reader, P d → P (d.ingest now reader).2.1) (h : P d) (reader : Reader) :
    P (d.drain now reader).2 := by
  fun_induction Dictionary.drain d now reader with
  | case1 d reader hend => exact h
  | case2 d reader hmore header e next after he =>
    have hstep := hingest d reader h
    rw [he] at hstep
    exact hstep
  | case3 d reader hmore header outcome next after he arrivals last hrest ih =>
    have hstep := hingest d reader h
    rw [he] at hstep
    have hlast := ih hstep
    rw [hrest] at hlast
    exact hlast

/-- An operation of a node preserves what datagrams and local changes at its time preserve. -/
theorem Node.perform_preserves {P : Dictionary → Prop} {n : Node}
    (hingest : ∀ d reader, P d → P (d.ingest n.now reader).2.1)
    (hchange : ∀ d d' i c, P d → d.change n.now i c = .ok d' → P d') (h : P n.dictionary)
    (op : Operation) : P (n.perform op).2.dictionary := by
  cases op with
  | ingest bytes => exact hingest n.dictionary (Reader.ofBytes bytes) h
  | drain bytes => exact drain_preserves hingest h (Reader.ofBytes bytes)
  | change identity c =>
    simp only [Node.perform]
    split
    · exact h
    · next hc => exact hchange _ _ _ _ h hc
  | _ => exact h

theorem Node.reachable_perform {n : Node} (h : n.dictionary.Reachable) (op : Operation) :
    (n.perform op).2.dictionary.Reachable := by
  refine Node.perform_preserves (P := Reachable) ?_ ?_ h op
  · intro d reader hd
    exact hd.ingest n.now reader
  · intro d d' i c hd hc
    exact hd.change hc

theorem Node.reachable_run {n : Node} (h : n.dictionary.Reachable) (ops : List Operation) :
    (n.run ops).dictionary.Reachable := by
  induction ops generalizing n with
  | nil => exact h
  | cons op rest ih => exact ih (Node.reachable_perform h op)

end Runs

end Dictionary
end InstrumentBus
