import InstrumentBus.Proofs.Catalog.Coherent
import InstrumentBus.Catalog.Builtin
import InstrumentBus.SignalList.Load

/-!
# Catalogs as registries

However a catalog comes about and whatever is added to it, it holds the definitions that were
added, each of them once, and finds them by name and by identity.
-/

namespace InstrumentBus
namespace Catalog

open Signal Storage

def addAll (c : Catalog) (ds : List Definition) : Catalog := ds.foldl (fun c d => (c.add d).2) c

def admitted (c : Catalog) : List Definition → List Definition
  | [] => []
  | d :: ds =>
    match c.add d with
    | (.error _, c') => c'.admitted ds
    | (.ok (), c') => d :: c'.admitted ds

section Adding

variable {c : Catalog}

theorem addAll_cons (c : Catalog) (d : Definition) (ds : List Definition) :
    c.addAll (d :: ds) = (c.add d).2.addAll ds := rfl

theorem Coherent.addAll (h : c.Coherent) (ds : List Definition) : (c.addAll ds).Coherent := by
  induction ds generalizing c with
  | nil => exact h
  | cons d ds ih => exact ih (h.add d)

theorem entries_addAll (c : Catalog) (ds : List Definition) :
    (c.addAll ds).entries.toList = c.entries.toList ++ c.admitted ds := by
  induction ds generalizing c with
  | nil => exact (List.append_nil _).symm
  | cons d ds ih =>
    rw [addAll_cons, ih, admitted]
    rcases c.add_cases d with ⟨e, he⟩ | ⟨-, -, -, -, hadd⟩
    · rw [he]
    · rw [hadd]
      simp [push]

theorem limits_addAll (c : Catalog) (ds : List Definition) : (c.addAll ds).limits = c.limits := by
  induction ds generalizing c with
  | nil => rfl
  | cons d ds ih =>
    rw [addAll_cons, ih]
    rcases c.add_cases d with ⟨e, he⟩ | ⟨-, -, -, -, hadd⟩
    · rw [he]
    · rw [hadd]
      rfl

theorem admitted_sublist (c : Catalog) (ds : List Definition) : (c.admitted ds).Sublist ds := by
  induction ds generalizing c with
  | nil => exact List.Sublist.slnil
  | cons d ds ih =>
    rw [admitted]
    split
    · exact (ih _).cons d
    · exact (ih _).cons_cons d

theorem foldl_push_eq_addAll {ds : List Definition} (h : c.admitted ds = ds) :
    ds.foldl push c = c.addAll ds := by
  induction ds generalizing c with
  | nil => rfl
  | cons d ds ih =>
    rw [admitted] at h
    rcases c.add_cases d with ⟨e, he⟩ | ⟨-, -, -, -, hadd⟩
    · have hshorter := (c.admitted_sublist ds).length_le
      rw [he] at h
      rw [show c.admitted ds = d :: ds from h, List.length_cons] at hshorter
      omega
    · rw [hadd] at h
      rw [addAll_cons, hadd]
      exact ih (List.cons.inj h).2

theorem addDrafts_cases {c' : Catalog} {drafts : List SignalList.SignalDraft}
    (h : SignalList.addDrafts c drafts = .ok c') :
    ∃ ds, drafts.mapM (·.definition.toOption) = some ds ∧ c.admitted ds = ds ∧
      c' = c.addAll ds := by
  induction drafts generalizing c with
  | nil =>
    cases h
    exact ⟨[], rfl, rfl, rfl⟩
  | cons s rest ih =>
    rw [SignalList.addDrafts] at h
    cases hs : s.definition with
    | error e =>
      rw [hs] at h
      cases h
    | ok d =>
      simp only [hs, insert] at h
      rcases c.add_cases d with ⟨e, he⟩ | ⟨-, -, -, -, hadd⟩
      · rw [he] at h
        cases h
      · rw [hadd] at h
        obtain ⟨ds, hds, hall, hc'⟩ := ih h
        refine ⟨d :: ds, ?_, ?_, ?_⟩
        · rw [List.mapM_cons, hds, hs]
          rfl
        · simp only [admitted, hadd, hall]
        · rw [addAll_cons, hadd]
          exact hc'

end Adding

def listed? (text : String) : Option (List Definition) := do
  let document ← (Json.parse text.toList).toOption
  let draft ← SignalList.readList document
  draft.signals.mapM (·.definition.toOption)

inductive Origin where
  | empty (version : UInt32) (limits : Limits)
  | builtin
  | text (content : String) (limits : Limits)
  | file (path : String) (source : Source) (limits : Limits)

namespace Origin

def catalog : Origin → Except SignalList.Error Catalog
  | .empty version limits =>
    match Catalog.new version limits with
    | .error e => .error (.catalog e)
    | .ok c => .ok c
  | .builtin => .ok Catalog.builtin
  | .text content limits => SignalList.ofText content limits
  | .file path source limits => SignalList.ofSource path source limits

def limits : Origin → Limits
  | .builtin => .standard
  | .empty _ limits | .text _ limits | .file _ _ limits => limits

def given? : Origin → Option (List Definition)
  | .empty _ _ => some []
  | .builtin => some builtinDefinitions
  | .text content _ => listed? content
  | .file _ (.file content) _ => (String.fromUTF8? content).bind listed?
  | .file _ _ _ => none

end Origin

section Origins

variable {c : Catalog} {limits : Limits}

theorem ofText_cases {text : String} (h : SignalList.ofText text limits = .ok c) :
    ∃ version ds, listed? text = some ds ∧ (blank version limits).admitted ds = ds ∧
      c = (blank version limits).addAll ds := by
  obtain ⟨-, document, hparse, hdocument⟩ := SignalList.ofText_eq_ok_iff.1 h
  obtain ⟨-, draft, hread, hdraft⟩ := SignalList.ofDocument_eq_ok_iff.1 hdocument
  obtain ⟨-, -, -, hsignals⟩ := SignalList.ofDraft_eq_ok_iff.1 hdraft
  obtain ⟨ds, hds, hall, hc⟩ := addDrafts_cases hsignals
  have hfound : (Json.parse text.toList).toOption = some document := by
    rw [hparse]
    rfl
  refine ⟨_, ds, ?_, hall, hc⟩
  simp only [listed?, hfound, hread, Option.bind_eq_bind, Option.bind_some]
  exact hds

/-- The built-in definitions pass the checks that are left out for them. -/
theorem admitted_builtinDefinitions :
    (blank builtinVersion .standard).admitted builtinDefinitions = builtinDefinitions := by
  decide +kernel

theorem builtin_eq_addAll :
    builtin = (blank builtinVersion .standard).addAll builtinDefinitions :=
  foldl_push_eq_addAll admitted_builtinDefinitions

theorem Origin.catalog_cases {o : Origin} (h : o.catalog = .ok c) :
    ∃ version given, o.given? = some given ∧
      (blank version o.limits).admitted given = given ∧
      c = (blank version o.limits).addAll given := by
  cases o with
  | empty version limits =>
    simp only [Origin.catalog] at h
    cases hnew : Catalog.new version limits with
    | error e =>
      rw [hnew] at h
      cases h
    | ok c' =>
      rw [hnew] at h
      cases h
      exact ⟨version, [], rfl, rfl, (new_eq_ok_iff.1 hnew).2⟩
  | builtin =>
    cases h
    exact ⟨builtinVersion, builtinDefinitions, rfl, admitted_builtinDefinitions, builtin_eq_addAll⟩
  | text content limits => exact ofText_cases h
  | file path source limits =>
    obtain ⟨content, text, rfl, -, htext, hload⟩ := SignalList.ofSource_eq_ok_iff.1 h
    obtain ⟨version, ds, hds, hall, hc⟩ := ofText_cases hload
    refine ⟨version, ds, ?_, hall, hc⟩
    rw [Origin.given?, htext]
    exact hds

/-- The catalogs that additions lead to, wherever a catalog comes from. -/
inductive Reachable : Catalog → Prop where
  | origin {o : Origin} {c : Catalog} (h : o.catalog = .ok c) : Reachable c
  | add {c : Catalog} (h : Reachable c) (d : Definition) : Reachable (c.add d).2

theorem Reachable.coherent (h : c.Reachable) : c.Coherent := by
  induction h with
  | origin h =>
    obtain ⟨version, given, -, -, rfl⟩ := Origin.catalog_cases h
    exact (Coherent.blank version _).addAll given
  | add h d ih => exact ih.add d

end Origins

/-- A catalog as a registry of the definitions that were added to it, first to last. -/
structure Registry (c : Catalog) (added : List Definition) : Prop where
  named : ∀ name d, c.get? name = some d ↔ d ∈ added ∧ d.name = name
  identified : ∀ i d, c.definition? i = some d ↔ d ∈ added ∧ d.identity = i
  inverse : ∀ name i, c.identityFor? name = some i ↔ c.nameFor? i = some name
  /-- In order of identity there is every definition that was added, once. -/
  complete : c.definitions.Perm added
  ascending : (c.definitions.map (·.identity)).Pairwise (· < ·)
  counted : c.size = added.length
  bounded : c.size ≤ c.limits.maxSignals
  sound : ∀ d ∈ added, d.fault? = none
  /-- A definition can be added if it is sound, has a name and an identity of its own, and there
  is room for it. -/
  admits : ∀ d, (c.add d).1 = .ok () ↔ d.fault? = none ∧ (∀ e ∈ added, e.name ≠ d.name) ∧
    (∀ e ∈ added, e.identity ≠ d.identity) ∧ added.length < c.limits.maxSignals

theorem Coherent.registry {c : Catalog} (h : c.Coherent) : Registry c c.entries.toList where
  named name d := by rw [h.get?_eq_some_iff, Array.mem_toList_iff]
  identified i d := by rw [h.definition?_eq_some_iff, Array.mem_toList_iff]
  inverse name i := h.identityFor?_eq_some_iff
  complete := h.definitions_perm
  ascending := h.pairwise_definitions
  counted := Array.length_toList.symm
  bounded := h.bounded
  sound d hd := h.sound d (Array.mem_toList_iff.1 hd)
  admits d := by
    simp only [Array.mem_toList_iff, Array.length_toList]
    exact h.add_eq_ok_iff

/-- Wherever a catalog comes from and whatever additions are attempted after that, it is the
registry of the definitions it was given and of those that were added since. The names and the
identities of these stand for each other. An addition that fails changes nothing. -/
theorem additions_registered {o : Origin} {start : Catalog} (h : o.catalog = .ok start) :
    ∃ given, o.given? = some given ∧ ∀ ds : List Definition,
      Registry (start.addAll ds) (given ++ start.admitted ds) ∧
        (start.addAll ds).limits = o.limits ∧
        ∀ d e, ((start.addAll ds).add d).1 = .error e →
          ((start.addAll ds).add d).2 = start.addAll ds := by
  obtain ⟨version, given, hgiven, hall, rfl⟩ := Origin.catalog_cases h
  refine ⟨given, hgiven, ?_⟩
  intro ds
  have hstart := (Coherent.blank version o.limits).addAll given
  have hentries : ((blank version o.limits).addAll given).entries.toList = given :=
    (entries_addAll _ _).trans hall
  have hregistry := (hstart.addAll ds).registry
  rw [entries_addAll, hentries] at hregistry
  have hlimits : (((blank version o.limits).addAll given).addAll ds).limits = o.limits :=
    (limits_addAll _ ds).trans (limits_addAll _ given)
  exact ⟨hregistry, hlimits, fun d e => add_of_error⟩

/-- A list of one integer signal, in the shorter form that only the schema refuses. -/
def sampleList : Origin :=
  .text "[3,[[10,20,\"rpm\",\"\",1000,\"integer\",null,null,null]]]" ⟨16, 1024, false⟩

/-- An identity in use, a name in use, a signal that can be added, and a blank name. -/
def sampleAdditions : List Definition :=
  [⟨"flags", "", ⟨10, 20⟩, 250, .integer, none⟩, ⟨"rpm", "", ⟨10, 30⟩, 250, .integer, none⟩,
    ⟨"flags", "", ⟨10, 15⟩, 250, .integer, none⟩, ⟨" ", "", ⟨10, 40⟩, 250, .integer, none⟩]

/-- One of the additions succeeds, and is found by name and by identity. -/
theorem sampleList_registered : ∃ start, sampleList.catalog = .ok start ∧
    (start.addAll sampleAdditions).size = 2 ∧
    (start.addAll sampleAdditions).identityFor? "flags" = some ⟨10, 15⟩ ∧
    (start.addAll sampleAdditions).nameFor? ⟨10, 15⟩ = some "flags" := by
  have hgiven : sampleList.given? = some [⟨"rpm", "", ⟨10, 20⟩, 1000, .integer, none⟩] := by
    decide +kernel
  have hadmitted : sampleList.catalog.toOption.map (·.admitted sampleAdditions) =
      some [⟨"flags", "", ⟨10, 15⟩, 250, .integer, none⟩] := by decide +kernel
  cases hstart : sampleList.catalog with
  | error e =>
    rw [hstart] at hadmitted
    cases hadmitted
  | ok start =>
    rw [hstart] at hadmitted
    obtain ⟨given, hsame, hadded⟩ := additions_registered hstart
    obtain ⟨hregistry, -, -⟩ := hadded sampleAdditions
    cases hgiven.symm.trans hsame
    have hflag : start.admitted sampleAdditions =
        [⟨"flags", "", ⟨10, 15⟩, 250, .integer, none⟩] := Option.some.inj hadmitted
    rw [hflag] at hregistry
    have hflags : (start.addAll sampleAdditions).get? "flags" =
        some ⟨"flags", "", ⟨10, 15⟩, 250, .integer, none⟩ :=
      (hregistry.named _ _).2 ⟨by decide, rfl⟩
    have hidentity : (start.addAll sampleAdditions).identityFor? "flags" = some ⟨10, 15⟩ :=
      congrArg (Option.map Definition.identity) hflags
    exact ⟨start, rfl, hregistry.counted, hidentity, (hregistry.inverse _ _).1 hidentity⟩

end Catalog
end InstrumentBus
