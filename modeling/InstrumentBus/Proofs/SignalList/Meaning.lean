import InstrumentBus.SignalList.Draft

/-!
# What the signals of a list stand for

A signal stands for a definition if it has the fields that go with its type and no other. The
definition must then have a name that can be seen and a kind that can be used. Of all that is
wrong with a signal one thing is reported: a field that its type needs comes before a field that
its type has no use for, and both come before what is wrong with the definition.
-/

namespace InstrumentBus

namespace Catalog

open Numeric Signal

/-- A name that is not blank throughout. -/
def Visible (name : String) : Prop := ∃ c ∈ name.toList, Text.isBlank c = false

/-- A resolution is finite and positive, and a byte string is no longer than 4096 bytes. -/
def Usable : Kind → Prop
  | .scaled x => x.isFinite = true ∧ (Binary64.zero false).lt x = true
  | .integer => True
  | .buffer length => length ≤ 4096

/-- What is wrong with a definition. Its name comes before its kind. -/
inductive Definition.Unsound (d : Definition) : DefinitionFault → Prop where
  | name (h : ¬ Visible d.name) : Unsound d .emptyName
  | resolution {x : Binary64} (hn : Visible d.name) (hk : d.kind = .scaled x)
      (h : ¬ Usable (.scaled x)) : Unsound d (.badResolution x)
  | length {n : Nat} (hn : Visible d.name) (hk : d.kind = .buffer n) (h : 4096 < n) :
      Unsound d (.tooLong n)

theorem visible_iff {name : String} : Visible name ↔ name.toList.all Text.isBlank = false := by
  simp [Visible]

theorem usable_scaled_iff {x : Binary64} : Usable (.scaled x) ↔ Wire.isResolution x = true := by
  simp [Usable, Wire.isResolution]

theorem Definition.fault?_eq_some_iff {d : Definition} {fault : DefinitionFault} :
    d.fault? = some fault ↔ d.Unsound fault := by
  unfold Definition.fault?
  cases hn : d.name.toList.all Text.isBlank with
  | true =>
    have hblank : ¬ Visible d.name := by simp [visible_iff, hn]
    rw [if_pos rfl]
    constructor
    · rintro ⟨⟩
      exact .name hblank
    · rintro (_ | ⟨hvisible, -, -⟩ | ⟨hvisible, -, -⟩)
      · rfl
      · exact absurd hvisible hblank
      · exact absurd hvisible hblank
  | false =>
    have hvisible : Visible d.name := visible_iff.2 hn
    rw [if_neg Bool.false_ne_true]
    constructor
    · intro h
      split at h
      · next x hk =>
        split at h
        · cases h
        · next hx =>
          cases h
          exact .resolution hvisible hk (mt usable_scaled_iff.1 hx)
      · cases h
      · next n hk =>
        split at h
        · next hlong =>
          cases h
          exact .length hvisible hk hlong
        · cases h
    · rintro (hblank | ⟨-, hk, hx⟩ | ⟨-, hk, hlong⟩)
      · exact absurd hvisible hblank
      · simp [hk, mt usable_scaled_iff.2 hx]
      · simp [hk, maxBufferLength, hlong]

theorem Definition.fault?_eq_none_iff_usable {d : Definition} :
    d.fault? = none ↔ Visible d.name ∧ Usable d.kind := by
  rw [visible_iff]
  unfold Definition.fault?
  cases d.name.toList.all Text.isBlank with
  | true => simp
  | false =>
    cases d.kind with
    | scaled x => simp [usable_scaled_iff]
    | integer => simp [Usable]
    | buffer length =>
      by_cases h : 4096 < length
      · simp [Usable, maxBufferLength, h]
      · simp [Usable, maxBufferLength, h, Nat.le_of_not_lt h]

end Catalog

namespace SignalList

open Numeric Signal Catalog

namespace SignalDraft

/-- The resolution that a signal gives, as a number or by the name for angles. -/
inductive Scales (s : SignalDraft) : Binary64 → Prop where
  | number {x : Binary64} (h : s.resolution = some (.value x)) : Scales s x
  | angle (h : s.resolution = some (.named "semi2deg")) : Scales s Wire.degreesPerTurnStep

inductive Asks (s : SignalDraft) : Kind → Prop where
  | scaled {x : Binary64} (hs : s.shape = .scaled) (hr : s.Scales x) (hl : s.length = none) :
      Asks s (.scaled x)
  | integer (hs : s.shape = .integer) (hr : s.resolution = none) (hl : s.length = none) :
      Asks s .integer
  | buffer {n : Nat} (hs : s.shape = .buffer) (hr : s.resolution = none)
      (hl : s.length = some n) : Asks s (.buffer n)

/-- What is wrong with the fields of a signal. A field that is missing comes before one that has
no place there, and a resolution before a length. -/
inductive Misfit (s : SignalDraft) : DefinitionFault → Prop where
  | unknownResolution {name : String} (hs : s.shape = .scaled)
      (hr : s.resolution = some (.named name)) (h : name ≠ "semi2deg") :
      Misfit s (.unknownResolution name)
  | missingResolution (hs : s.shape = .scaled) (hr : s.resolution = none) :
      Misfit s .missingResolution
  | missingLength (hs : s.shape = .buffer) (hl : s.length = none) : Misfit s .missingLength
  | resolutionNotAllowed (hs : s.shape = .integer ∨ s.shape = .buffer ∧ s.length ≠ none)
      (hr : s.resolution ≠ none) : Misfit s (.resolutionNotAllowed s.shape)
  | lengthNotAllowed
      (hs : s.shape = .scaled ∧ (∃ x, s.Scales x) ∨ s.shape = .integer ∧ s.resolution = none)
      (hl : s.length ≠ none) : Misfit s (.lengthNotAllowed s.shape)

structure Stands (s : SignalDraft) (d : Definition) : Prop where
  name : d.name = s.name
  description : d.description = s.description
  category : d.identity.category = s.category
  subcategory : d.identity.subcategory = s.subcategory
  timeout : d.timeout = s.timeout
  units : d.units = s.units
  kind : s.Asks d.kind

/-- A signal with a name that can be seen, which asks for a kind that can be used. -/
def Sound (s : SignalDraft) : Prop := Visible s.name ∧ ∃ kind, s.Asks kind ∧ Usable kind

inductive Faulty (s : SignalDraft) : DefinitionFault → Prop where
  | misfit {fault : DefinitionFault} (h : s.Misfit fault) : Faulty s fault
  | unsound {d : Definition} {fault : DefinitionFault} (hd : s.Stands d) (h : d.Unsound fault) :
      Faulty s fault

variable {s : SignalDraft}

theorem scale_eq_ok_iff {x : Binary64} : s.scale = .ok x ↔ s.Scales x := by
  constructor
  · intro h
    unfold scale at h
    split at h
    · next hr =>
      cases h
      exact .number hr
    · next name hr =>
      split at h
      · next hname =>
        cases h
        rw [hname] at hr
        exact .angle hr
      · cases h
    · cases h
  · rintro (hr | hr)
    · simp [scale, hr]
    · simp [scale, hr, angleResolutionName]

theorem scale_eq_error_iff {fault : DefinitionFault} :
    s.scale = .error fault ↔
      (∃ name, s.resolution = some (.named name) ∧ name ≠ "semi2deg" ∧
        fault = .unknownResolution name) ∨
      s.resolution = none ∧ fault = .missingResolution := by
  unfold scale
  cases hr : s.resolution with
  | none => simp [eq_comm]
  | some r =>
    cases r with
    | value x => simp
    | named name =>
      by_cases hname : name = "semi2deg"
      · simp [angleResolutionName, hname]
      · simp [angleResolutionName, hname, eq_comm]

theorem kind_eq_ok_iff {kind : Kind} : s.kind = .ok kind ↔ s.Asks kind := by
  constructor
  · intro h
    unfold SignalDraft.kind at h
    split at h
    · next hs =>
      split at h
      · cases h
      · next x hx =>
        split at h
        · cases h
        · next hl =>
          cases h
          exact .scaled hs (scale_eq_ok_iff.1 hx) (Option.not_isSome_iff_eq_none.1 hl)
    · next hs =>
      split at h
      · cases h
      · next hr =>
        split at h
        · cases h
        · next hl =>
          cases h
          exact .integer hs (Option.not_isSome_iff_eq_none.1 hr)
            (Option.not_isSome_iff_eq_none.1 hl)
    · next hs =>
      split at h
      · cases h
      · next n hl =>
        split at h
        · cases h
        · next hr =>
          cases h
          exact .buffer hs (Option.not_isSome_iff_eq_none.1 hr) hl
  · rintro (⟨hs, hr, hl⟩ | ⟨hs, hr, hl⟩ | ⟨hs, hr, hl⟩)
    · simp [SignalDraft.kind, hs, scale_eq_ok_iff.2 hr, hl]
    · simp [SignalDraft.kind, hs, hr, hl]
    · simp [SignalDraft.kind, hs, hr, hl]

theorem kind_eq_error_iff {fault : DefinitionFault} :
    s.kind = .error fault ↔ s.Misfit fault := by
  constructor
  · intro h
    unfold SignalDraft.kind at h
    split at h
    · next hs =>
      split at h
      · next hx =>
        cases h
        rcases scale_eq_error_iff.1 hx with ⟨name, hr, hname, rfl⟩ | ⟨hr, rfl⟩
        · exact .unknownResolution hs hr hname
        · exact .missingResolution hs hr
      · next x hx =>
        split at h
        · next hl =>
          cases h
          exact hs ▸ .lengthNotAllowed (Or.inl ⟨hs, x, scale_eq_ok_iff.1 hx⟩)
            (Option.isSome_iff_ne_none.1 hl)
        · cases h
    · next hs =>
      split at h
      · next hr =>
        cases h
        exact hs ▸ .resolutionNotAllowed (Or.inl hs) (Option.isSome_iff_ne_none.1 hr)
      · next hr =>
        split at h
        · next hl =>
          cases h
          exact hs ▸ .lengthNotAllowed
            (Or.inr ⟨hs, Option.not_isSome_iff_eq_none.1 hr⟩) (Option.isSome_iff_ne_none.1 hl)
        · cases h
    · next hs =>
      split at h
      · next hl =>
        cases h
        exact .missingLength hs hl
      · next n hl =>
        split at h
        · next hr =>
          cases h
          have hlength : s.length ≠ none := by simp [hl]
          exact hs ▸ .resolutionNotAllowed (Or.inr ⟨hs, hlength⟩) (Option.isSome_iff_ne_none.1 hr)
        · cases h
  · intro h
    cases h with
    | unknownResolution hs hr hname =>
      have hscale := scale_eq_error_iff.2 (Or.inl ⟨_, hr, hname, rfl⟩)
      simp [SignalDraft.kind, hs, hscale]
    | missingResolution hs hr =>
      have hscale := scale_eq_error_iff.2 (Or.inr ⟨hr, rfl⟩)
      simp [SignalDraft.kind, hs, hscale]
    | missingLength hs hl => simp [SignalDraft.kind, hs, hl]
    | resolutionNotAllowed hs hr =>
      have hgiven := Option.isSome_iff_ne_none.2 hr
      rcases hs with hs | ⟨hs, hl⟩
      · simp [SignalDraft.kind, hs, hgiven]
      · obtain ⟨n, hn⟩ := Option.ne_none_iff_exists'.1 hl
        simp [SignalDraft.kind, hs, hn, hgiven]
    | lengthNotAllowed hs hl =>
      have hgiven := Option.isSome_iff_ne_none.2 hl
      rcases hs with ⟨hs, x, hx⟩ | ⟨hs, hr⟩
      · simp [SignalDraft.kind, hs, scale_eq_ok_iff.2 hx, hgiven]
      · simp [SignalDraft.kind, hs, hr, hgiven]

theorem Asks.stands {kind : Kind} (h : s.Asks kind) : s.Stands (s.define kind) :=
  ⟨rfl, rfl, rfl, rfl, rfl, rfl, h⟩

theorem Stands.define_eq {d : Definition} (h : s.Stands d) : s.define d.kind = d := by
  obtain ⟨name, description, ⟨category, subcategory⟩, timeout, kind, units⟩ := d
  obtain ⟨rfl, rfl, rfl, rfl, rfl, rfl, -⟩ := h
  rfl

theorem Stands.unique {d e : Definition} (hd : s.Stands d) (he : s.Stands e) : d = e := by
  have hkind : d.kind = e.kind :=
    Except.ok.inj ((kind_eq_ok_iff.2 hd.kind).symm.trans (kind_eq_ok_iff.2 he.kind))
  rw [← hd.define_eq, ← he.define_eq, hkind]

theorem definition_eq_ok_iff {d : Definition} :
    s.definition = .ok d ↔ s.Stands d ∧ d.fault? = none := by
  constructor
  · intro h
    unfold SignalDraft.definition at h
    split at h
    · cases h
    · next kind hkind =>
      dsimp only at h
      split at h
      · cases h
      · next hfault =>
        cases h
        exact ⟨(kind_eq_ok_iff.1 hkind).stands, hfault⟩
  · rintro ⟨hd, hfault⟩
    rw [SignalDraft.definition, kind_eq_ok_iff.2 hd.kind]
    dsimp only
    rw [hd.define_eq, hfault]

theorem definition_of_faulty {fault : DefinitionFault} (h : s.Faulty fault) :
    s.definition = .error (.invalidDefinition s.name fault) := by
  cases h with
  | misfit hmisfit => rw [SignalDraft.definition, kind_eq_error_iff.2 hmisfit]
  | unsound hd hunsound =>
    rw [SignalDraft.definition, kind_eq_ok_iff.2 hd.kind]
    dsimp only
    rw [hd.define_eq, Definition.fault?_eq_some_iff.2 hunsound, hd.name]

theorem Stands.sound_iff {d : Definition} (h : s.Stands d) : s.Sound ↔ d.fault? = none := by
  rw [Definition.fault?_eq_none_iff_usable, h.name, Sound]
  refine and_congr_right fun _ => ?_
  constructor
  · rintro ⟨kind, hkind, husable⟩
    cases h.unique hkind.stands
    exact husable
  · intro husable
    exact ⟨d.kind, h.kind, husable⟩

end SignalDraft
end SignalList
end InstrumentBus
