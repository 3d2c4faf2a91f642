import InstrumentBus.Proofs.Catalog.Registry
import InstrumentBus.Proofs.SignalList.Agreement
import InstrumentBus.Proofs.SignalList.Meaning
import Mathlib.Data.List.Induction

/-!
# Which signal lists are accepted

A list is accepted if and only if its version is in range, there are no more signals than there
may be, and the signals are consistent: each of them is sound, and no two have one name or one
identity. Otherwise the first problem in that order is reported, and of the signals the first in
the order of the list that does not fit those before it. While signals are added, the catalog
holds the definitions that those before stand for, so that what it refuses can be told from the
list alone.
-/

namespace InstrumentBus
namespace SignalList

open Signal Catalog

def SignalDraft.identity (s : SignalDraft) : Identity := ⟨s.category, s.subcategory⟩

/-- Sound signals, no two of one name or of one identity. -/
structure Consistent (signals : List SignalDraft) : Prop where
  sound : ∀ s ∈ signals, s.Sound
  names : (signals.map (·.name)).Nodup
  identities : (signals.map (·.identity)).Nodup

structure Fits (before : List SignalDraft) (s : SignalDraft) : Prop where
  sound : s.Sound
  name : ∀ t ∈ before, t.name ≠ s.name
  identity : ∀ t ∈ before, t.identity ≠ s.identity

/-- Why a signal cannot follow others: what is wrong with it by itself, then a name in use, then
an identity in use. The signal that has the identity already is the first of the two. -/
inductive Refused (before : List SignalDraft) (s : SignalDraft) : Catalog.Error → Prop where
  | definition {fault : DefinitionFault} (h : s.Faulty fault) :
      Refused before s (.invalidDefinition s.name fault)
  | name {t : SignalDraft} (hs : s.Sound) (ht : t ∈ before) (h : t.name = s.name) :
      Refused before s (.duplicateName s.name)
  | identity {t : SignalDraft} (hs : s.Sound) (hn : ∀ u ∈ before, u.name ≠ s.name)
      (ht : t ∈ before) (h : t.identity = s.identity) :
      Refused before s (.duplicateIdentity s.identity t.name s.name)

structure Acceptable (draft : ListDraft) (limits : Limits) : Prop where
  version : 1 ≤ draft.version ∧ draft.version ≤ 4294967295
  count : draft.signals.length ≤ limits.maxSignals
  signals : Consistent draft.signals

/-- What is reported of a list that cannot be loaded: its version, then the number of all its
signals, then the first signal that cannot follow those before it. -/
inductive Problem (draft : ListDraft) (limits : Limits) : Catalog.Error → Prop where
  | version (h : draft.version < 1 ∨ 4294967295 < draft.version) :
      Problem draft limits (.invalidVersion draft.version)
  | count (hv : 1 ≤ draft.version ∧ draft.version ≤ 4294967295)
      (h : limits.maxSignals < draft.signals.length) :
      Problem draft limits (.tooManySignals draft.signals.length limits.maxSignals)
  | signal {before after : List SignalDraft} {s : SignalDraft} {e : Catalog.Error}
      (hv : 1 ≤ draft.version ∧ draft.version ≤ 4294967295)
      (hc : draft.signals.length ≤ limits.maxSignals)
      (hsplit : draft.signals = before ++ s :: after) (hbefore : Consistent before)
      (h : Refused before s e) : Problem draft limits e

section Signals

variable {s : SignalDraft} {before after signals : List SignalDraft} {e : Catalog.Error}

theorem SignalDraft.Stands.identity_eq {d : Definition} (h : s.Stands d) :
    d.identity = s.identity := by
  rw [SignalDraft.identity, ← h.category, ← h.subcategory]

theorem SignalDraft.sound_or_faulty (s : SignalDraft) : s.Sound ∨ ∃ fault, s.Faulty fault := by
  cases hkind : s.kind with
  | error fault => exact Or.inr ⟨fault, .misfit (SignalDraft.kind_eq_error_iff.1 hkind)⟩
  | ok kind =>
    have hd := (SignalDraft.kind_eq_ok_iff.1 hkind).stands
    cases hfault : Definition.fault? _ with
    | none => exact Or.inl (hd.sound_iff.2 hfault)
    | some fault => exact Or.inr ⟨fault, .unsound hd (Definition.fault?_eq_some_iff.1 hfault)⟩

theorem SignalDraft.Sound.exists_definition (h : s.Sound) :
    ∃ d, s.Stands d ∧ d.fault? = none := by
  obtain ⟨-, kind, hkind, -⟩ := id h
  exact ⟨_, hkind.stands, hkind.stands.sound_iff.1 h⟩

theorem consistent_nil : Consistent [] :=
  ⟨List.forall_mem_nil _, List.Pairwise.nil, List.Pairwise.nil⟩

theorem consistent_concat_iff :
    Consistent (before ++ [s]) ↔ Consistent before ∧ Fits before s := by
  constructor
  · rintro ⟨hsound, hnames, hidentities⟩
    simp only [List.map_append, List.map_cons, List.map_nil, List.nodup_append, List.mem_map,
      List.mem_singleton] at hnames hidentities
    refine ⟨⟨fun t ht => hsound t (List.mem_append_left _ ht), hnames.1, hidentities.1⟩,
      hsound s (List.mem_append_right _ List.mem_cons_self), ?_, ?_⟩
    · intro t ht
      exact hnames.2.2 _ ⟨t, ht, rfl⟩ _ rfl
    · intro t ht
      exact hidentities.2.2 _ ⟨t, ht, rfl⟩ _ rfl
  · rintro ⟨⟨hsound, hnames, hidentities⟩, hs, hname, hidentity⟩
    refine ⟨?_, ?_, ?_⟩
    · intro t ht
      rcases List.mem_append.1 ht with ht | ht
      · exact hsound t ht
      · exact List.mem_singleton.1 ht ▸ hs
    · simpa [List.nodup_append, hnames] using hname
    · simpa [List.nodup_append, hidentities] using hidentity

theorem Consistent.of_append (h : Consistent (before ++ after)) : Consistent before := by
  obtain ⟨hsound, hnames, hidentities⟩ := h
  rw [List.map_append] at hnames hidentities
  exact ⟨fun s hs => hsound s (List.mem_append_left _ hs), hnames.of_append_left,
    hidentities.of_append_left⟩

theorem Consistent.fits (h : Consistent (before ++ s :: after)) : Fits before s := by
  rw [List.append_cons] at h
  exact (consistent_concat_iff.1 h.of_append).2

theorem fits_or_refused (before : List SignalDraft) (s : SignalDraft) :
    Fits before s ∨ ∃ e, Refused before s e := by
  rcases s.sound_or_faulty with hs | ⟨fault, hfault⟩
  · by_cases hname : ∃ t ∈ before, t.name = s.name
    · obtain ⟨t, ht, hname⟩ := hname
      exact Or.inr ⟨_, .name hs ht hname⟩
    · have hfree : ∀ t ∈ before, t.name ≠ s.name := fun t ht heq => hname ⟨t, ht, heq⟩
      by_cases hidentity : ∃ t ∈ before, t.identity = s.identity
      · obtain ⟨t, ht, hidentity⟩ := hidentity
        exact Or.inr ⟨_, .identity hs hfree ht hidentity⟩
      · exact Or.inl ⟨hs, hfree, fun t ht heq => hidentity ⟨t, ht, heq⟩⟩
  · exact Or.inr ⟨_, .definition hfault⟩

/-- Signals that are not consistent have a first one that cannot follow those before it. -/
theorem consistent_or_refused (signals : List SignalDraft) :
    Consistent signals ∨ ∃ before s after e, signals = before ++ s :: after ∧
      Consistent before ∧ Refused before s e := by
  induction signals using List.reverseRecOn with
  | nil => exact Or.inl consistent_nil
  | append_singleton signals last ih =>
    rcases ih with hsignals | ⟨before, s, after, e, rfl, hbefore, he⟩
    · rcases fits_or_refused signals last with hfits | ⟨e, he⟩
      · exact Or.inl (consistent_concat_iff.2 ⟨hsignals, hfits⟩)
      · exact Or.inr ⟨signals, last, [], e, rfl, hsignals, he⟩
    · exact Or.inr ⟨before, s, after ++ [last], e, by simp, hbefore, he⟩

theorem acceptable_or_problem (draft : ListDraft) (limits : Limits) :
    Acceptable draft limits ∨ ∃ e, Problem draft limits e := by
  by_cases hversion : 1 ≤ draft.version ∧ draft.version ≤ 4294967295
  · by_cases hcount : draft.signals.length ≤ limits.maxSignals
    · rcases consistent_or_refused draft.signals with h | ⟨before, s, after, e, hsplit, hbefore, he⟩
      · exact Or.inl ⟨hversion, hcount, h⟩
      · exact Or.inr ⟨e, .signal hversion hcount hsplit hbefore he⟩
    · exact Or.inr ⟨_, .count hversion (Nat.lt_of_not_le hcount)⟩
  · exact Or.inr ⟨_, .version (by omega)⟩

end Signals

/-- A catalog that holds the definitions that signals stand for, in their order. -/
structure Holds (c : Catalog) (signals : List SignalDraft) : Prop where
  coherent : c.Coherent
  entries : List.Forall₂ SignalDraft.Stands signals c.entries.toList

section Adding

variable {c : Catalog} {before first : List SignalDraft} {s : SignalDraft} {e : Catalog.Error}

theorem map_eq_of_stands {α : Type} {signals : List SignalDraft} {ds : List Definition}
    {ofSignal : SignalDraft → α} {ofDefinition : Definition → α}
    (hkey : ∀ s d, SignalDraft.Stands s d → ofDefinition d = ofSignal s)
    (h : List.Forall₂ SignalDraft.Stands signals ds) :
    ds.map ofDefinition = signals.map ofSignal := by
  induction h with
  | nil => rfl
  | cons hd _ ih => rw [List.map_cons, List.map_cons, hkey _ _ hd, ih]

namespace Holds

theorem blank (version : UInt32) (limits : Limits) : Holds (Catalog.blank version limits) [] :=
  ⟨Coherent.blank version limits, .nil⟩

theorem size_eq (h : Holds c before) : c.size = before.length := by
  rw [h.entries.length_eq, Array.length_toList]
  rfl

theorem names_iff (h : Holds c before) (name : String) :
    (∃ d ∈ c.entries, d.name = name) ↔ ∃ t ∈ before, t.name = name := by
  have hnames := map_eq_of_stands (fun s d hd => SignalDraft.Stands.name hd) h.entries
  simp only [← Array.mem_toList_iff, ← List.mem_map, hnames]

theorem identities_iff (h : Holds c before) (identity : Identity) (name : String) :
    (∃ d ∈ c.entries, (d.identity, d.name) = (identity, name)) ↔
      ∃ t ∈ before, (t.identity, t.name) = (identity, name) := by
  have hpairs : c.entries.toList.map (fun d => (d.identity, d.name)) =
      before.map fun t => (t.identity, t.name) :=
    map_eq_of_stands (fun s d hd => by rw [hd.identity_eq, hd.name]) h.entries
  simp only [← Array.mem_toList_iff, ← List.mem_map, hpairs]

theorem name_ne (h : Holds c before) (hfree : ∀ t ∈ before, t.name ≠ s.name) {d : Definition}
    (hd : s.Stands d) : ∀ e ∈ c.entries, e.name ≠ d.name := by
  intro e he heq
  obtain ⟨t, ht, hname⟩ := (h.names_iff d.name).1 ⟨e, he, heq⟩
  exact hfree t ht (hname.trans hd.name)

theorem identity_ne (h : Holds c before) (hfree : ∀ t ∈ before, t.identity ≠ s.identity)
    {d : Definition} (hd : s.Stands d) : ∀ e ∈ c.entries, e.identity ≠ d.identity := by
  intro e he heq
  obtain ⟨t, ht, hpair⟩ := (h.identities_iff d.identity e.name).1 ⟨e, he, by rw [heq]⟩
  exact hfree t ht ((congrArg Prod.fst hpair).trans hd.identity_eq)

theorem addDrafts_of_fits (h : Holds c before) (hfits : Fits before s)
    (hroom : before.length < c.limits.maxSignals) (rest : List SignalDraft) :
    ∃ c', Holds c' (before ++ [s]) ∧ c'.version = c.version ∧ c'.limits = c.limits ∧
      addDrafts c (s :: rest) = addDrafts c' rest := by
  obtain ⟨d, hd, hfault⟩ := hfits.sound.exists_definition
  obtain ⟨hinsert, hcoherent⟩ := h.coherent.insert_of_new hfault (h.name_ne hfits.name hd)
    (h.identity_ne hfits.identity hd) (h.size_eq ▸ hroom)
  refine ⟨_, ⟨hcoherent, ?_⟩, rfl, rfl, ?_⟩
  · rw [Catalog.push, Array.toList_push]
    exact List.rel_append h.entries (.cons hd .nil)
  · rw [addDrafts, SignalDraft.definition_eq_ok_iff.2 ⟨hd, hfault⟩]
    dsimp only
    rw [hinsert]

/-- A signal that cannot follow those before it is not added, for the reason why it cannot. -/
theorem addDrafts_of_refused (h : Holds c before) (hrefused : Refused before s e)
    (rest : List SignalDraft) : addDrafts c (s :: rest) = .error e := by
  have hinsert {d : Definition} (hd : s.Stands d ∧ d.fault? = none)
      (he : c.insert d = .error e) : addDrafts c (s :: rest) = .error e := by
    rw [addDrafts, SignalDraft.definition_eq_ok_iff.2 hd]
    dsimp only
    rw [he]
  cases hrefused with
  | definition hfaulty => rw [addDrafts, SignalDraft.definition_of_faulty hfaulty]
  | @name t hs ht hname =>
    obtain ⟨d, hd, hfault⟩ := hs.exists_definition
    obtain ⟨first, hfirst, hfirstName⟩ := (h.names_iff d.name).2 ⟨t, ht, hname.trans hd.name.symm⟩
    apply hinsert ⟨hd, hfault⟩
    rw [h.coherent.insert_of_named hfault hfirst hfirstName, hd.name]
  | @identity t hs hfree ht hidentity =>
    obtain ⟨d, hd, hfault⟩ := hs.exists_definition
    obtain ⟨first, hfirst, hpair⟩ := (h.identities_iff d.identity t.name).2
      ⟨t, ht, by rw [hidentity, hd.identity_eq]⟩
    obtain ⟨hfirstIdentity, hfirstName⟩ := Prod.mk.inj hpair
    apply hinsert ⟨hd, hfault⟩
    rw [h.coherent.insert_of_identified hfault (h.name_ne hfree hd) hfirst hfirstIdentity,
      hfirstName, hd.name, hd.identity_eq]

theorem addDrafts_of_consistent (h : Holds c before) (signals : List SignalDraft)
    (hconsistent : Consistent (before ++ signals))
    (hroom : before.length + signals.length ≤ c.limits.maxSignals) (rest : List SignalDraft) :
    ∃ c', Holds c' (before ++ signals) ∧ c'.version = c.version ∧ c'.limits = c.limits ∧
      addDrafts c (signals ++ rest) = addDrafts c' rest := by
  induction signals generalizing c before with
  | nil => exact ⟨c, by rwa [List.append_nil], rfl, rfl, rfl⟩
  | cons s signals ih =>
    rw [List.length_cons] at hroom
    obtain ⟨c₁, h₁, hversion₁, hlimits₁, hadd₁⟩ :=
      h.addDrafts_of_fits hconsistent.fits (by omega) (signals ++ rest)
    rw [List.append_cons] at hconsistent
    obtain ⟨c₂, h₂, hversion₂, hlimits₂, hadd₂⟩ :=
      ih h₁ hconsistent (by rw [hlimits₁, List.length_append, List.length_singleton]; omega)
    refine ⟨c₂, ?_, hversion₂.trans hversion₁, hlimits₂.trans hlimits₁, hadd₁.trans hadd₂⟩
    rwa [List.append_cons]

end Holds
end Adding

section Lists

variable {draft : ListDraft} {limits : Limits} {e : Catalog.Error}

theorem Acceptable.ofDraft_eq_ok (h : Acceptable draft limits) :
    ∃ c, ofDraft draft limits = .ok c ∧ (c.version.toNat : Int) = draft.version ∧
      c.limits = limits ∧ Holds c draft.signals := by
  obtain ⟨⟨hpositive, hbelow⟩, hcount, hsignals⟩ := h
  obtain ⟨c, hholds, hversion, hlimits, hadd⟩ :=
    (Holds.blank (UInt32.ofNat draft.version.toNat) limits).addDrafts_of_consistent draft.signals
      hsignals (by simpa [Catalog.blank] using hcount) []
  rw [List.append_nil] at hadd
  refine ⟨c, (ofDraft_of_counted hpositive (by omega) hcount).trans hadd, ?_, hlimits, hholds⟩
  have hvalue : c.version.toNat = draft.version.toNat % 4294967296 := by
    rw [hversion]
    exact UInt32.toNat_ofNat'
  omega

theorem Problem.ofDraft_eq_error (h : Problem draft limits e) : ofDraft draft limits = .error e := by
  cases h with
  | version h =>
    have hversion : draft.version < 1 ∨ 0x100000000 ≤ draft.version := by omega
    rw [ofDraft, if_pos hversion]
  | count hv h =>
    have hversion : ¬ (draft.version < 1 ∨ 0x100000000 ≤ draft.version) := by omega
    rw [ofDraft, if_neg hversion, if_pos h]
  | @signal before after s _ hv hc hsplit hbefore h =>
    have hroom : before.length ≤ limits.maxSignals := by
      rw [hsplit, List.length_append] at hc
      omega
    obtain ⟨c, hholds, -, -, hadd⟩ :=
      (Holds.blank (UInt32.ofNat draft.version.toNat) limits).addDrafts_of_consistent before
        hbefore (by simpa [Catalog.blank] using hroom) (s :: after)
    rw [ofDraft_of_counted hv.1 (by omega) hc, hsplit, hadd]
    exact hholds.addDrafts_of_refused h after

theorem ofDraft_eq_ok_iff_acceptable :
    (∃ c, ofDraft draft limits = .ok c) ↔ Acceptable draft limits := by
  constructor
  · rintro ⟨c, hc⟩
    rcases acceptable_or_problem draft limits with h | ⟨e, he⟩
    · exact h
    · cases hc.symm.trans he.ofDraft_eq_error
  · intro h
    obtain ⟨c, hc, -⟩ := h.ofDraft_eq_ok
    exact ⟨c, hc⟩

theorem ofDraft_eq_error_iff : ofDraft draft limits = .error e ↔ Problem draft limits e := by
  refine ⟨?_, Problem.ofDraft_eq_error⟩
  intro he
  rcases acceptable_or_problem draft limits with h | ⟨e', he'⟩
  · obtain ⟨c, hc, -⟩ := h.ofDraft_eq_ok
    cases hc.symm.trans he
  · cases he.symm.trans he'.ofDraft_eq_error
    exact he'

end Lists

/-- A document that can be read as a list is accepted if and only if the list is acceptable, and
then the catalog is of its version and the registry of the definitions that its signals stand
for. Otherwise its first problem is reported. A signal without a type is a scaled one. -/
theorem accepted_iff_consistent {text : String} {limits : Limits} {document : Json.Value}
    {draft : ListDraft} (hsize : text.utf8ByteSize ≤ limits.maxFileSize)
    (hparse : Json.parse text.toList = .ok document)
    (hschema : limits.checkSchema = true → violations document = [])
    (hread : readList document = some draft) :
    ((∃ c, ofText text limits = .ok c) ↔ Acceptable draft limits) ∧
    (∀ c, ofText text limits = .ok c → (c.version.toNat : Int) = draft.version ∧
      c.limits = limits ∧ ∃ ds, List.Forall₂ SignalDraft.Stands draft.signals ds ∧
        Registry c ds) ∧
    (∀ e, ofText text limits = .error e ↔ ∃ problem, Problem draft limits problem ∧
      e = .catalog problem) ∧
    ∀ members s, readSignal (.object members) = some s → Json.member? "type" members = none →
      s.shape = .scaled := by
  have hload := ofText_of_readList hsize hparse hschema hread
  have hok {c : Catalog} : ofText text limits = .ok c ↔ ofDraft draft limits = .ok c := by
    rw [hload]
    cases ofDraft draft limits <;> simp [Except.mapError]
  have herror {e : Error} : ofText text limits = .error e ↔
      ∃ problem, ofDraft draft limits = .error problem ∧ e = .catalog problem := by
    rw [hload]
    cases ofDraft draft limits <;> simp [Except.mapError, eq_comm]
  refine ⟨?_, ?_, ?_, ?_⟩
  · simp only [hok, ofDraft_eq_ok_iff_acceptable]
  · intro c hc
    rw [hok] at hc
    obtain ⟨c', hc', hversion, hlimits, hholds⟩ :=
      (ofDraft_eq_ok_iff_acceptable.1 ⟨c, hc⟩).ofDraft_eq_ok
    cases hc.symm.trans hc'
    exact ⟨hversion, hlimits, _, hholds.entries, hholds.coherent.registry⟩
  · intro e
    simp only [herror, ofDraft_eq_error_iff]
  · intro members s hs htype
    have hshape := (reads_of_readSignal hs).shape
    rw [optional, htype] at hshape
    exact (Option.some.inj hshape).symm

def firstSignal : String :=
  "\x7b\"cat_id\":1,\"sub_id\":2,\"name\":\"a\"," ++ "\"timeout\":9,\"type\":\"integer\"\x7d"

def secondSignal : String :=
  "\x7b\"cat_id\":1,\"sub_id\":1,\"name\":\"b\"," ++
    "\"timeout\":9,\"type\":\"buffer\",\"length\":7\x7d"

def forwardList : String :=
  "\x7b\"version\":3,\"signals\":[" ++ firstSignal ++ "," ++ secondSignal ++ "]\x7d"

def forwardDraft : ListDraft :=
  ⟨3, [⟨1, 2, "a", "", 9, .integer, none, none, none⟩,
    ⟨1, 1, "b", "", 9, .buffer, none, none, some 7⟩]⟩

def forwardDefinitions : List Definition :=
  [⟨"a", "", ⟨1, 2⟩, 9, .integer, none⟩, ⟨"b", "", ⟨1, 1⟩, 9, .buffer 7, none⟩]

theorem forwardDraft_stands :
    List.Forall₂ SignalDraft.Stands forwardDraft.signals forwardDefinitions := by
  refine .cons (SignalDraft.Asks.stands ?_) (.cons (SignalDraft.Asks.stands ?_) .nil)
  · exact .integer rfl rfl rfl
  · exact .buffer rfl rfl rfl

theorem forwardDraft_consistent : Consistent forwardDraft.signals := by
  refine ⟨?_, by decide, by decide⟩
  refine List.forall_mem_cons.2 ⟨?_, List.forall_mem_singleton.2 ?_⟩
  · exact ⟨by simp [Visible, Text.isBlank], .integer, .integer rfl rfl rfl, trivial⟩
  · exact ⟨by simp [Visible, Text.isBlank], .buffer 7, .buffer rfl rfl rfl, by simp [Usable]⟩

/-- The list passes the schema. It is accepted where two signals are allowed, and refused where
one is. -/
theorem forwardList_accepted :
    forwardList.utf8ByteSize ≤ 256 ∧
    (∃ c, ofText forwardList ⟨2, 256, true⟩ = .ok c ∧ c.version.toNat = 3 ∧
      c.definition? ⟨1, 2⟩ = some ⟨"a", "", ⟨1, 2⟩, 9, .integer, none⟩ ∧
      c.definition? ⟨1, 1⟩ = some ⟨"b", "", ⟨1, 1⟩, 9, .buffer 7, none⟩) ∧
    ofText forwardList ⟨1, 256, true⟩ = .error (.catalog (.tooManySignals 2 1)) := by
  have hsize : forwardList.utf8ByteSize ≤ 256 := by decide +kernel
  have hrun : (Json.parse forwardList.toList).toOption.map (fun document =>
      ((violations document).isEmpty, readList document)) = some (true, some forwardDraft) := by
    decide +kernel
  cases hparse : Json.parse forwardList.toList with
  | error fault =>
    rw [hparse] at hrun
    cases hrun
  | ok document =>
    rw [hparse] at hrun
    obtain ⟨hclean, hread⟩ := Prod.mk.inj (Option.some.inj hrun)
    have hschema (n : Nat) : (⟨n, 256, true⟩ : Limits).checkSchema = true →
        violations document = [] := fun _ => List.isEmpty_iff.1 hclean
    obtain ⟨haccepted, hloaded, -, -⟩ := accepted_iff_consistent hsize hparse (hschema 2) hread
    obtain ⟨-, -, hrefused, -⟩ := accepted_iff_consistent hsize hparse (hschema 1) hread
    obtain ⟨c, hc⟩ := haccepted.2 ⟨by decide, by decide, forwardDraft_consistent⟩
    obtain ⟨hversion, -, ds, hds, hregistry⟩ := hloaded c hc
    have hthree : (c.version.toNat : Int) = 3 := hversion
    obtain rfl : ds = forwardDefinitions :=
      List.right_unique_forall₂' (fun _ _ _ hd he => hd.unique he) hds forwardDraft_stands
    refine ⟨hsize, ⟨c, hc, by omega, ?_, ?_⟩, ?_⟩
    · exact (hregistry.identified _ _).2 ⟨List.mem_cons_self, rfl⟩
    · exact (hregistry.identified _ _).2 ⟨List.mem_cons_of_mem _ List.mem_cons_self, rfl⟩
    · exact (hrefused _).2 ⟨_, .count (by decide) (by decide), rfl⟩

end SignalList
end InstrumentBus
