import InstrumentBus.Proofs.Catalog.Registry
import InstrumentBus.Proofs.Dictionary.Reachable

/-!
# The dictionary of a catalog

The definitions of a coherent catalog are sound and their identities differ, so that a node can
register all of them. It then has one record for every definition and no other record, each as fresh
as its mode wants it. Only a signal that is registered already can stand in the way.
-/

namespace InstrumentBus

namespace Dictionary

open Signal

namespace Builder

variable {b : Builder} {config : Config} {modeOf : Catalog.Definition → Mode}

section Contents

variable {descriptor : Descriptor} {kind : Kind} {mode : Mode} {b' : Builder} {i : Identity}

theorem contains_eq_true_iff : b.contains i = true ↔ ∃ s ∈ b.records, s.identity = i := by
  simp [contains]

theorem contains_eq_false_iff : b.contains i = false ↔ ∀ s ∈ b.records, s.identity ≠ i := by
  simp [contains]

theorem contains_register (h : b.register descriptor kind mode = .ok b') :
    b'.contains i = true ↔ i = descriptor.identity ∨ b.contains i = true := by
  obtain ⟨r, hr, -, rfl⟩ := register_cases h
  have hidentity := (wellFormed_record hr).2
  simp only [contains_eq_true_iff, Identity.mem_insertInto, exists_eq_or_imp, hidentity,
    eq_comm (a := i)]

theorem contains_register_of_ne (h : b.register descriptor kind mode = .ok b')
    (hne : i ≠ descriptor.identity) : b'.contains i = b.contains i := by
  rw [Bool.eq_iff_iff, contains_register h]
  exact or_iff_right hne

end Contents

section Zero

variable {descriptor : Descriptor} {kind : Kind} {mode : Mode} {zero : Payload}

theorem exists_record_of_zero (hzero : Payload.zero kind = .ok zero) :
    ∃ r, Builder.record config descriptor kind mode = .ok r := by
  simp [Builder.record, Record.new, hzero, Except.map]

theorem exists_register (hzero : Payload.zero kind = .ok zero)
    (hnew : ∀ s ∈ b.records, s.identity ≠ descriptor.identity) :
    ∃ b', b.register descriptor kind mode = .ok b' := by
  have hfree : b.contains descriptor.identity = false := contains_eq_false_iff.2 hnew
  obtain ⟨r, hr⟩ : ∃ r, Builder.record b.config descriptor kind mode = .ok r :=
    exists_record_of_zero hzero
  simp [register, hfree, hr]

end Zero

/-- Sound definitions of different identities are registered one and all, or up to the first one
whose signal is there already. -/
theorem registerAll_cases (b : Builder) (modeOf : Catalog.Definition → Mode)
    {definitions : List Catalog.Definition} (hsound : ∀ d ∈ definitions, d.fault? = none)
    (hapart : (definitions.map (·.identity)).Nodup) :
    (∃ b', b.registerAll modeOf definitions = (.ok (), b') ∧ b'.config = b.config ∧
      (∀ d ∈ definitions, b.contains d.identity = false) ∧
      ∀ r, r ∈ b'.records ↔ r ∈ b.records ∨
        ∃ d ∈ definitions, Builder.record b.config d.descriptor d.kind (modeOf d) = .ok r) ∨
      ∃ before d rest, definitions = before ++ d :: rest ∧
        (b.registerAll modeOf definitions).1 = .error (.alreadyRegistered d.identity) ∧
        b.contains d.identity = true ∧ ∀ e ∈ before, b.contains e.identity = false := by
  induction definitions generalizing b with
  | nil => exact Or.inl ⟨b, rfl, rfl, List.forall_mem_nil _, by simp⟩
  | cons d rest ih =>
    obtain ⟨hd, hrest⟩ := List.forall_mem_cons.1 hsound
    obtain ⟨hfirst, hothers⟩ := List.nodup_cons.1 hapart
    cases hc : b.contains d.identity with
    | true =>
      have hrefused : b.register d.descriptor d.kind (modeOf d) =
          .error (.alreadyRegistered d.identity) := if_pos hc
      refine Or.inr ⟨[], d, rest, rfl, ?_, hc, List.forall_mem_nil _⟩
      rw [registerAll, hrefused]
    | false =>
      obtain ⟨-, zero, hzero⟩ := Catalog.Definition.fault?_eq_none_iff.1 hd
      obtain ⟨next, hnext⟩ : ∃ next, b.register d.descriptor d.kind (modeOf d) = .ok next :=
        exists_register hzero (contains_eq_false_iff.1 hc)
      have hstep : b.registerAll modeOf (d :: rest) = next.registerAll modeOf rest := by
        rw [registerAll, hnext]
      -- The new record takes the identity of its definition, which no later one has.
      have hsame : ∀ e ∈ rest, next.contains e.identity = b.contains e.identity := by
        intro e he
        apply contains_register_of_ne hnext
        intro heq
        exact hfirst (List.mem_map.2 ⟨e, he, heq⟩)
      rw [hstep]
      rcases ih next hrest hothers with
        ⟨b', hb', hconfig, hfree, hrecords⟩ | ⟨before, e, after, rfl, he, htaken, hfree⟩
      · obtain ⟨fresh, hfresh, -, rfl⟩ := register_cases hnext
        refine Or.inl ⟨b', hb', hconfig, List.forall_mem_cons.2 ⟨hc, ?_⟩, ?_⟩
        · intro e he
          rw [← hsame e he]
          exact hfree e he
        · intro r
          simp only [hrecords, Identity.mem_insertInto, List.mem_cons, exists_eq_or_imp, hfresh,
            Except.ok.injEq, eq_comm (a := fresh), or_assoc, or_left_comm]
      · refine Or.inr ⟨d :: before, e, after, rfl, he, ?_, List.forall_mem_cons.2 ⟨hc, ?_⟩⟩
        · rw [← hsame e (by simp)]
          exact htaken
        · intro f hf
          rw [← hsame f (by simp [hf])]
          exact hfree f hf

/-- The signals of a catalog are registered, each in a mode of its own, and no other signals. -/
structure Covers (b : Builder) (c : Catalog) (modeOf : Catalog.Definition → Mode) : Prop where
  reachable : b.Reachable
  defined : ∀ i r, b.build.record? i = some r → ∃ d, c.definition? i = some d ∧
    Builder.record b.config d.descriptor d.kind (modeOf d) = .ok r
  registered : ∀ i d, c.definition? i = some d → ∃ r, b.build.record? i = some r ∧
    Builder.record b.config d.descriptor d.kind (modeOf d) = .ok r

theorem registerCatalog_of_coherent {c : Catalog} (hc : c.Coherent) (config : Config)
    (modeOf : Catalog.Definition → Mode) :
    ∃ b, (Builder.new config).registerCatalog c modeOf = (.ok (), b) ∧ b.config = config ∧
      b.Covers c modeOf := by
  obtain ⟨b, hb, hconfig, -, hrecords⟩ | ⟨before, d, rest, -, -, htaken, -⟩ :=
    registerAll_cases (Builder.new config) modeOf hc.definitions_sound
      (Identity.nodup_of_ascending hc.pairwise_definitions)
  case inr => cases htaken
  have hreachable : b.Reachable := by
    have h := (Builder.Reachable.new config).registerAll modeOf c.definitions
    rwa [hb] at h
  refine ⟨b, hb, hconfig, hreachable, ?_, ?_⟩
  · intro i r hr
    rcases (hrecords r).1 (mem_of_record? hr) with hnone | ⟨d, hd, hfresh⟩
    · exact absurd hnone List.not_mem_nil
    · have hidentity := (wellFormed_record hfresh).2
      rw [identity_of_record? hr] at hidentity
      exact ⟨d, hc.definition?_eq_some_iff.2 ⟨hc.mem_definitions.1 hd, hidentity.symm⟩,
        hconfig ▸ hfresh⟩
  · intro i d hd
    obtain ⟨zero, hzero⟩ := hc.exists_zero hd
    obtain ⟨hmem, rfl⟩ := hc.definition?_eq_some_iff.1 hd
    obtain ⟨r, hfresh⟩ : ∃ r, Builder.record config d.descriptor d.kind (modeOf d) = .ok r :=
      exists_record_of_zero hzero
    have hr := (hrecords r).2 (Or.inr ⟨d, hc.mem_definitions.2 hmem, hfresh⟩)
    have hfound := hreachable.wellFormed.record?_of_mem hr
    rw [(wellFormed_record hfresh).2] at hfound
    exact ⟨r, hfound, hconfig ▸ hfresh⟩

theorem Covers.mem_identities {c : Catalog} (h : b.Covers c modeOf) {i : Identity} :
    i ∈ b.build.identities ↔ ∃ d, c.definition? i = some d := by
  rw [mem_identities_iff]
  constructor
  · rintro ⟨r, hr⟩
    obtain ⟨d, hd, -⟩ := h.defined i r hr
    exact ⟨d, hd⟩
  · rintro ⟨d, hd⟩
    obtain ⟨r, hr, -⟩ := h.registered i d hd
    exact ⟨r, hr⟩

theorem Covers.identities_eq {c : Catalog} (h : b.Covers c modeOf) (hc : c.Coherent) :
    b.build.identities = c.definitions.map (·.identity) := by
  refine Identity.eq_of_ascending h.reachable.wellFormed.ascending hc.pairwise_definitions ?_
  intro i
  rw [h.mem_identities, List.mem_map]
  constructor
  · rintro ⟨d, hd⟩
    obtain ⟨hmem, hidentity⟩ := hc.definition?_eq_some_iff.1 hd
    exact ⟨d, hc.mem_definitions.2 hmem, hidentity⟩
  · rintro ⟨d, hd, hidentity⟩
    exact ⟨d, hc.definition?_eq_some_iff.2 ⟨hc.mem_definitions.1 hd, hidentity⟩⟩

theorem Covers.contains_eq {c : Catalog} (h : b.Covers c modeOf) (i : Identity) :
    b.build.contains i = (c.definition? i).isSome := by
  rw [Bool.eq_iff_iff, Dictionary.contains, Option.isSome_iff_exists, Option.isSome_iff_exists,
    ← mem_identities_iff, h.mem_identities]

/-- The first signal of a catalog, in order of identity, that is registered already. -/
structure FirstTaken (b : Builder) (c : Catalog) (i : Identity) : Prop where
  defined : ∃ d ∈ c.definitions, d.identity = i
  taken : b.contains i = true
  least : ∀ d ∈ c.definitions, b.contains d.identity = true → i.index ≤ d.identity.index

theorem firstTaken_unique {c : Catalog} {i j : Identity} (hi : b.FirstTaken c i)
    (hj : b.FirstTaken c j) : i = j := by
  obtain ⟨d, hd, rfl⟩ := hi.defined
  obtain ⟨e, he, rfl⟩ := hj.defined
  exact Identity.index_inj.1 (Nat.le_antisymm (hi.least e he hj.taken) (hj.least d hd hi.taken))

/-- A coherent catalog is registered, or its first signal stands in the way that is registered
already. -/
theorem registerCatalog_cases {c : Catalog} (hc : c.Coherent) (b : Builder)
    (modeOf : Catalog.Definition → Mode) :
    (b.registerCatalog c modeOf).1 = .ok () ∧ (∀ d ∈ c.definitions, b.contains d.identity = false) ∨
      ∃ i, b.FirstTaken c i ∧ (b.registerCatalog c modeOf).1 = .error (.alreadyRegistered i) := by
  have hascending := hc.pairwise_definitions
  rcases registerAll_cases b modeOf hc.definitions_sound
      (Identity.nodup_of_ascending hascending) with
    ⟨b', hb', -, hfree, -⟩ | ⟨before, d, rest, hsplit, herror, htaken, hfree⟩
  · exact Or.inl ⟨congrArg Prod.fst hb', hfree⟩
  · refine Or.inr ⟨d.identity, ⟨⟨d, by simp [hsplit], rfl⟩, htaken, ?_⟩, herror⟩
    intro e he hetaken
    rw [hsplit, List.map_append, List.map_cons] at hascending
    have hlater := (List.pairwise_cons.1 (List.pairwise_append.1 hascending).2.1).1
    rw [hsplit, List.mem_append, List.mem_cons] at he
    rcases he with he | rfl | he
    · cases (hfree e he).symm.trans hetaken
    · exact Nat.le_refl _
    · exact Nat.le_of_lt (hlater e.identity (List.mem_map_of_mem he))

end Builder

structure Enrolled (config : Config) (d : Catalog.Definition) (chosen : Mode) (r : Record) :
    Prop where
  identity : r.identity = d.identity
  timeout : r.descriptor.timeout = d.timeout
  kind : r.payload.kind = d.kind
  mode : r.mode = chosen
  zeroed : r.payload.Zeroed
  sender : chosen = .transmit →
    r.header.device = config.device ∧ r.header.priority = config.priority
  silent : chosen = .receive → r.header.priority.healthy = false

theorem enrolled_of_record {config : Config} {d : Catalog.Definition} {mode : Mode} {r : Record}
    (h : Builder.record config d.descriptor d.kind mode = .ok r) : Enrolled config d mode r := by
  obtain ⟨payload, hzero, ⟨rfl, rfl⟩ | ⟨rfl, rfl⟩⟩ := Builder.record_cases h
  · refine ⟨rfl, rfl, Payload.kind_zero hzero, rfl, Payload.zeroed_of_zero hzero, ?_, fun _ => rfl⟩
    rintro ⟨⟩
  · refine ⟨rfl, rfl, Payload.kind_zero hzero, rfl, Payload.zeroed_of_zero hzero,
      fun _ => ⟨rfl, rfl⟩, ?_⟩
    rintro ⟨⟩

/-- What a catalog admits can be registered, whatever mode is chosen for each signal. A node that
starts with nothing then has the signals of the catalog in their order, each with a record made
for its definition. A node that has signals already registers the catalog unless one of them is
among its own, and then it names the first such signal. -/
theorem catalog_registers_unless_taken {c : Catalog} (hc : c.Reachable)
    (modeOf : Catalog.Definition → Mode) :
    (∀ config : Config, ∃ b, (Builder.new config).registerCatalog c modeOf = (.ok (), b) ∧
      b.build.config = config ∧ b.build.identities = c.definitions.map (·.identity) ∧
      (∀ i, b.build.contains i = (c.definition? i).isSome) ∧
      ∀ d ∈ c.definitions, ∃ r, b.build.record? d.identity = some r ∧
        Enrolled config d (modeOf d) r) ∧
    ∀ b : Builder,
      ((b.registerCatalog c modeOf).1 = .ok () ↔
        ∀ d ∈ c.definitions, b.contains d.identity = false) ∧
      ∀ e, (b.registerCatalog c modeOf).1 = .error e ↔
        ∃ i, b.FirstTaken c i ∧ e = .alreadyRegistered i := by
  have hcoherent := hc.coherent
  refine ⟨?_, ?_⟩
  · intro config
    obtain ⟨b, hb, hconfig, hcovers⟩ :=
      Builder.registerCatalog_of_coherent hcoherent config modeOf
    refine ⟨b, hb, hconfig, hcovers.identities_eq hcoherent, hcovers.contains_eq, ?_⟩
    intro d hd
    obtain ⟨r, hr, hfresh⟩ := hcovers.registered d.identity d
      (hcoherent.definition?_eq_some_iff.2 ⟨hcoherent.mem_definitions.1 hd, rfl⟩)
    exact ⟨r, hr, enrolled_of_record (hconfig ▸ hfresh)⟩
  · intro b
    rcases Builder.registerCatalog_cases hcoherent b modeOf with ⟨hok, hfree⟩ | ⟨i, hi, herror⟩
    · refine ⟨⟨fun _ => hfree, fun _ => hok⟩, ?_⟩
      intro e
      constructor
      · intro he
        cases hok.symm.trans he
      · rintro ⟨i, hi, -⟩
        obtain ⟨d, hd, rfl⟩ := hi.defined
        cases (hfree d hd).symm.trans hi.taken
    · refine ⟨⟨?_, ?_⟩, ?_⟩
      · intro hok
        cases hok.symm.trans herror
      · intro hfree
        obtain ⟨d, hd, rfl⟩ := hi.defined
        cases (hfree d hd).symm.trans hi.taken
      · intro e
        constructor
        · intro he
          exact ⟨i, hi, Except.error.inj (he.symm.trans herror)⟩
        · rintro ⟨j, hj, rfl⟩
          rw [herror, Builder.firstTaken_unique hi hj]

/-- A node that has two of the built-in signals already, one of its own between them. -/
def sampleOccupied : Builder :=
  ⟨⟨7, ⟨0x90⟩, none⟩,
    [⟨⟨⟨10, 21⟩, 500⟩, .receive, Header.silent ⟨10, 21⟩, .integer 0, 0⟩,
      ⟨⟨⟨10, 25⟩, 500⟩, .receive, Header.silent ⟨10, 25⟩, .buffer [], 0⟩,
      ⟨⟨⟨20, 10⟩, 500⟩, .receive, Header.silent ⟨20, 10⟩, .integer 0, 0⟩]⟩

/-- The built-in signals fit a node that has none, and the first of two stands in the way. -/
theorem builtin_registers_beside_nothing :
    Catalog.builtin.Reachable ∧
    (∃ b, (Builder.new sampleOccupied.config).registerCatalog .builtin (fun _ => .transmit) =
      (.ok (), b) ∧ ∃ r, b.build.record? ⟨20, 10⟩ = some r ∧ r.header.device = 7) ∧
    (sampleOccupied.registerCatalog .builtin (fun _ => .transmit)).1 =
      .error (.alreadyRegistered ⟨10, 21⟩) := by
  have hc : Catalog.builtin.Reachable := .origin (o := .builtin) rfl
  obtain ⟨hempty, hoccupied⟩ := catalog_registers_unless_taken hc fun _ => .transmit
  refine ⟨hc, ?_, ?_⟩
  · obtain ⟨b, hb, -, -, -, henrolled⟩ := hempty sampleOccupied.config
    have hengine : Catalog.quantity "engine_rpm" 20 10 "rpm" "Engine speed" ∈
        Catalog.builtin.definitions := by decide +kernel
    obtain ⟨r, hr, hr'⟩ := henrolled _ hengine
    exact ⟨b, hb, r, hr, (hr'.sender rfl).1⟩
  · have hfirst : sampleOccupied.FirstTaken .builtin ⟨10, 21⟩ :=
      ⟨by decide +kernel, by decide, by decide +kernel⟩
    exact ((hoccupied sampleOccupied).2 _).2 ⟨⟨10, 21⟩, hfirst, rfl⟩

end Dictionary
end InstrumentBus
