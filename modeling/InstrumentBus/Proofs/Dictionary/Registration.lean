import InstrumentBus.Proofs.Dictionary.Reachable
import Mathlib.Data.List.Induction

/-!
# What registration settles

Which signals a node has, with their timeouts, modes and kinds of payload, is settled by
the registrations before it is built. Whatever it takes in, sends or changes afterwards
moves only what the records hold.
-/

namespace InstrumentBus
namespace Dictionary

open Wire Signal

/-- Dictionaries whose records differ at most in what they hold. -/
structure SameSignals (d e : Dictionary) : Prop where
  config : d.config = e.config
  identities : d.identities = e.identities
  record : ∀ {i r}, e.record? i = some r → ∃ s, d.record? i = some s ∧ Record.SameSignal s r

namespace SameSignals

theorem refl (d : Dictionary) : SameSignals d d :=
  ⟨rfl, rfl, fun {_ r} h => ⟨r, h, Record.SameSignal.refl r⟩⟩

theorem trans {d e f : Dictionary} (hde : SameSignals d e) (hef : SameSignals e f) :
    SameSignals d f := by
  refine ⟨hde.config.trans hef.config, hde.identities.trans hef.identities, ?_⟩
  intro i r hr
  obtain ⟨s, hs, hsr⟩ := hef.record hr
  obtain ⟨t, ht, hts⟩ := hde.record hs
  exact ⟨t, ht, hts.trans hsr⟩

theorem found {d e : Dictionary} (h : SameSignals d e) {i : Identity} {s : Record}
    (hs : d.record? i = some s) : ∃ r, e.record? i = some r ∧ Record.SameSignal s r := by
  have hi : i ∈ e.identities := h.identities ▸ mem_identities_iff.2 ⟨s, hs⟩
  obtain ⟨r, hr⟩ := mem_identities_iff.1 hi
  obtain ⟨s', hs', hsame⟩ := h.record hr
  cases hs.symm.trans hs'
  exact ⟨r, hr, hsame⟩

end SameSignals

section Steps

variable {d d' : Dictionary} {now : UInt32} {i : Identity}

theorem sameSignals_replace {r r' : Record} (h : d.record? i = some r)
    (hr : Record.SameSignal r' r) : SameSignals (d.replace r') d := by
  refine ⟨rfl, identities_replace d r', ?_⟩
  intro j s hs
  rw [record?_replace, hs, Option.map_some]
  split
  · next heq =>
    have hi : r'.identity = i := hr.identity.trans (identity_of_record? h)
    have hj : j = i := (identity_of_record? hs).symm.trans (heq.trans hi)
    subst hj
    cases h.symm.trans hs
    exact ⟨r', rfl, hr⟩
  · exact ⟨s, rfl, Record.SameSignal.refl s⟩

theorem sameSignals_ingest (d : Dictionary) (now : UInt32) (reader : Reader) :
    SameSignals (d.ingest now reader).2.1 d := by
  rcases d.ingest_cases now reader with he | ⟨i, r, -, hr, he⟩
  · rw [he]
    exact SameSignals.refl d
  · rw [he]
    exact sameSignals_replace hr (r.receive_sameSignal reader now)

theorem sameSignals_change {c : Change} (h : d.change now i c = .ok d') : SameSignals d' d := by
  obtain ⟨r, r', hr, hc, rfl⟩ := change_eq_ok_iff.1 h
  exact sameSignals_replace hr (Record.change_sameSignal hc)

theorem Node.sameSignals_perform (n : Node) (op : Operation) :
    SameSignals (n.perform op).2.dictionary n.dictionary := by
  refine Node.perform_preserves (P := fun d => SameSignals d n.dictionary) ?_ ?_
    (SameSignals.refl n.dictionary) op
  · intro d reader hd
    exact (sameSignals_ingest d n.now reader).trans hd
  · intro d d' i c hd hc
    exact (sameSignals_change hc).trans hd

end Steps

/-- The nodes that operations lead to. A datagram may also be taken in from the middle of a
buffer. -/
inductive Node.ReachableFrom (start : Node) : Node → Prop where
  | refl : ReachableFrom start start
  | perform {n : Node} (h : ReachableFrom start n) (op : Operation) :
      ReachableFrom start (n.perform op).2
  | ingest {n : Node} (h : ReachableFrom start n) (reader : Reader) :
      ReachableFrom start { n with dictionary := (n.dictionary.ingest n.now reader).2.1 }

theorem Node.ReachableFrom.sameSignals {start n : Node} (h : ReachableFrom start n) :
    SameSignals n.dictionary start.dictionary := by
  induction h with
  | refl => exact SameSignals.refl _
  | @perform n h op ih => exact (n.sameSignals_perform op).trans ih
  | ingest h reader ih => exact (sameSignals_ingest _ _ reader).trans ih

theorem Node.ReachableFrom.reachable {start n : Node} (h : ReachableFrom start n)
    (hstart : start.dictionary.Reachable) : n.dictionary.Reachable := by
  induction h with
  | refl => exact hstart
  | perform h op ih => exact Node.reachable_perform ih op
  | @ingest n h reader ih => exact ih.ingest n.now reader

theorem Node.reachableFrom_run (start : Node) (ops : List Operation) :
    ReachableFrom start (start.run ops) := by
  induction ops using List.reverseRecOn with
  | nil => exact .refl
  | append_singleton before op ih =>
    rw [Node.run_append]
    exact ih.perform op

structure Registration where
  descriptor : Descriptor
  kind : Kind
  mode : Mode

namespace Builder

def attempt (b : Builder) (g : Registration) : Builder :=
  match b.register g.descriptor g.kind g.mode with
  | .ok b' => b'
  | .error _ => b

def attemptAll (b : Builder) (gs : List Registration) : Builder := gs.foldl attempt b

/-- The registrations that succeed when they are attempted one after the other. -/
def admitted (b : Builder) : List Registration → List Registration
  | [] => []
  | g :: gs =>
    match b.register g.descriptor g.kind g.mode with
    | .ok b' => g :: b'.admitted gs
    | .error _ => b.admitted gs

theorem Reachable.attemptAll {b : Builder} (h : b.Reachable) (gs : List Registration) :
    (b.attemptAll gs).Reachable := by
  induction gs generalizing b with
  | nil => exact h
  | cons g gs ih =>
    apply ih
    unfold attempt
    split
    · next hr => exact h.register hr
    · exact h

@[simp] theorem config_attemptAll (b : Builder) (gs : List Registration) :
    (b.attemptAll gs).config = b.config := by
  induction gs generalizing b with
  | nil => rfl
  | cons g gs ih =>
    have hcons : b.attemptAll (g :: gs) = (b.attempt g).attemptAll gs := rfl
    rw [hcons, ih, attempt]
    split
    · next hr =>
      obtain ⟨-, -, -, rfl⟩ := register_cases hr
      rfl
    · rfl

theorem mem_records_attemptAll {b : Builder} {gs : List Registration} {r : Record} :
    r ∈ (b.attemptAll gs).records ↔ r ∈ b.records ∨
      ∃ g ∈ b.admitted gs, Builder.record b.config g.descriptor g.kind g.mode = .ok r := by
  induction gs generalizing b with
  | nil => simp [attemptAll, admitted]
  | cons g gs ih =>
    have hcons : b.attemptAll (g :: gs) = (b.attempt g).attemptAll gs := rfl
    rw [hcons, ih, admitted, attempt]
    cases hg : b.register g.descriptor g.kind g.mode with
    | error e => rfl
    | ok b' =>
      obtain ⟨fresh, hfresh, -, rfl⟩ := register_cases hg
      simp only [Identity.mem_insertInto, List.mem_cons, exists_eq_or_imp, hfresh,
        Except.ok.injEq, eq_comm (a := fresh), or_assoc, or_left_comm]

theorem record_of_mem_admitted {b : Builder} {gs : List Registration} {g : Registration}
    (h : g ∈ b.admitted gs) :
    ∃ r, Builder.record b.config g.descriptor g.kind g.mode = .ok r := by
  induction gs generalizing b with
  | nil => exact absurd h List.not_mem_nil
  | cons first gs ih =>
    unfold admitted at h
    split at h
    · next hr =>
      obtain ⟨fresh, hfresh, -, rfl⟩ := register_cases hr
      rcases List.mem_cons.1 h with rfl | h
      · exact ⟨fresh, hfresh⟩
      · have hrest := ih h
        exact hrest
    · exact ih h

theorem record_eq {config : Config} {descriptor : Descriptor} {kind : Kind} {mode : Mode}
    {r : Record} (h : Builder.record config descriptor kind mode = .ok r) :
    r.descriptor = descriptor ∧ r.mode = mode ∧ r.payload.kind = kind := by
  obtain ⟨payload, hz, ⟨-, rfl⟩ | ⟨-, rfl⟩⟩ := record_cases h
  · exact ⟨rfl, rfl, Payload.kind_zero hz⟩
  · exact ⟨rfl, rfl, Payload.kind_zero hz⟩

end Builder

/-- What holds of the record of a registered signal at all times. -/
structure Registration.Governs (g : Registration) (r : Record) : Prop where
  descriptor : r.descriptor = g.descriptor
  mode : r.mode = g.mode
  kind : r.payload.kind = g.kind
  header : r.header.identity = g.descriptor.identity
  resolution : ∀ resolution, g.kind = .scaled resolution → isResolution resolution = true
  length : ∀ length, g.kind = .buffer length → length ≤ 4096 ∧
    ∃ bytes, r.payload = .buffer bytes ∧ bytes.length = length
  rank : r.header.priority.rank.toNat ≤ 127
  packetSize : r.packetSize =
    match g.kind with
    | .scaled _ | .integer => 12
    | .buffer length => 12 + length
  stamped : r.mode = .transmit → r.header.timestamp = r.updated

theorem Registration.governs {g : Registration} {r : Record} (hr : r.WellFormed)
    (hd : r.descriptor = g.descriptor) (hm : r.mode = g.mode) (hk : r.payload.kind = g.kind) :
    g.Governs r := by
  have hregistrable := hr.kind
  rw [hk] at hregistrable
  refine ⟨hd, hm, hk, ?_, ?_, ?_, r.header.priority.rank_le, ?_, hr.stamped⟩
  · rw [hr.header, Record.identity, hd]
  · intro resolution he
    rwa [he] at hregistrable
  · intro length he
    rw [he] at hregistrable hk
    refine ⟨hregistrable, ?_⟩
    cases hp : r.payload with
    | scaled f => simp [hp, Payload.kind] at hk
    | integer n => simp [hp, Payload.kind] at hk
    | buffer bytes =>
      rw [hp] at hk
      exact ⟨bytes, rfl, Kind.buffer.inj hk⟩
  · rw [hr.packetSize_eq, hk]
    cases g.kind with
    | scaled resolution => rfl
    | integer => rfl
    | buffer length => simp only [headerSize, Kind.extent, wordSize]; omega

/-- Whatever operations a node performs, its signals are those whose registration succeeded
before it was built, and the record of each stays governed by that registration. -/
theorem registrations_govern {config : Config} {gs : List Registration} {start : UInt32}
    {n : Node}
    (h : Node.ReachableFrom ⟨((Builder.new config).attemptAll gs).build, start⟩ n) :
    n.dictionary.identities = ((Builder.new config).attemptAll gs).build.identities ∧
    (∀ i, i ∈ n.dictionary.identities ↔
      ∃ g ∈ (Builder.new config).admitted gs, g.descriptor.identity = i) ∧
    ∀ g ∈ (Builder.new config).admitted gs,
      ∃ r, n.dictionary.record? g.descriptor.identity = some r ∧ g.Governs r := by
  have hbuilt : ((Builder.new config).attemptAll gs).build.Reachable :=
    .build ((Builder.Reachable.new config).attemptAll gs)
  have hsame := h.sameSignals
  have hwf := (h.reachable hbuilt).wellFormed
  have hrecords {r : Record} : r ∈ ((Builder.new config).attemptAll gs).records ↔
      ∃ g ∈ (Builder.new config).admitted gs,
        Builder.record config g.descriptor g.kind g.mode = .ok r := by
    rw [Builder.mem_records_attemptAll]
    exact or_iff_right List.not_mem_nil
  refine ⟨hsame.identities, ?_, ?_⟩
  · intro i
    rw [hsame.identities, identities, List.mem_map]
    constructor
    · rintro ⟨r, hr, rfl⟩
      obtain ⟨g, hg, hfresh⟩ := hrecords.1 hr
      exact ⟨g, hg, congrArg Descriptor.identity (Builder.record_eq hfresh).1.symm⟩
    · rintro ⟨g, hg, rfl⟩
      obtain ⟨r, hfresh⟩ := Builder.record_of_mem_admitted hg
      exact ⟨r, hrecords.2 ⟨g, hg, hfresh⟩,
        congrArg Descriptor.identity (Builder.record_eq hfresh).1⟩
  · intro g hg
    obtain ⟨fresh, hfresh⟩ := Builder.record_of_mem_admitted hg
    obtain ⟨hd, hm, hk⟩ := Builder.record_eq hfresh
    have hfound := hbuilt.wellFormed.record?_of_mem (hrecords.2 ⟨g, hg, hfresh⟩)
    rw [Record.identity, hd] at hfound
    obtain ⟨r, hr, hrf⟩ := hsame.record hfound
    exact ⟨r, hr, Registration.governs (hwf.of_record? hr) (hrf.descriptor.trans hd)
      (hrf.mode.trans hm) (hrf.kind.trans hk)⟩

/-- Two registrations that succeed, one of a signal that is there already and one that is too
long. -/
def sampleRegistrations : List Registration :=
  [⟨⟨⟨10, 21⟩, 1000⟩, .buffer 2, .receive⟩, ⟨⟨⟨10, 20⟩, 1000⟩, .integer, .transmit⟩,
    ⟨⟨⟨10, 20⟩, 5⟩, .integer, .receive⟩, ⟨⟨⟨10, 22⟩, 1000⟩, .buffer 5000, .receive⟩]

def sampleNode : Node :=
  ⟨((Builder.new ⟨7, ⟨0x90⟩, none⟩).attemptAll sampleRegistrations).build, 0⟩

/-- A datagram that is accepted, a local change, and one that fails. -/
def sampleWork : List Operation :=
  [.advance 50, .ingest (Header.bytes ⟨3, ⟨0x85⟩, ⟨10, 21⟩, 100⟩ ++ [0, 0, 0, 2, 8, 9]),
    .change ⟨10, 20⟩ (.value (.integer 9)), .change ⟨10, 21⟩ (.device 1)]

theorem sampleNode_is_governed :
    sampleNode.ReachableFrom (sampleNode.run sampleWork) ∧
    ∃ r s, (sampleNode.run sampleWork).dictionary.record? ⟨10, 21⟩ = some r ∧
      (sampleNode.run sampleWork).dictionary.record? ⟨10, 20⟩ = some s ∧
      r.payload = .buffer [8, 9] ∧ r.mode = .receive ∧ r.packetSize = 14 ∧
      s.payload = .integer 9 ∧ s.mode = .transmit ∧ s.header.timestamp = s.updated := by
  have hrun := sampleNode.reachableFrom_run sampleWork
  obtain ⟨-, -, hgoverned⟩ := registrations_govern hrun
  obtain ⟨r, hr, hbuffer⟩ := hgoverned ⟨⟨⟨10, 21⟩, 1000⟩, .buffer 2, .receive⟩ (.head _)
  obtain ⟨s, hs, hinteger⟩ :=
    hgoverned ⟨⟨⟨10, 20⟩, 1000⟩, .integer, .transmit⟩ (.tail _ (.head _))
  refine ⟨hrun, r, s, hr, hs, ?_, hbuffer.mode, hbuffer.packetSize, ?_, hinteger.mode,
    hinteger.stamped hinteger.mode⟩
  · cases hr
    rfl
  · cases hs
    rfl

end Dictionary
end InstrumentBus
