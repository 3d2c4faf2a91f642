import InstrumentBus.Catalog.Basic
import Mathlib.Data.List.Nodup

/-!
# Coherent catalogs

The indexes of a catalog and its definitions are tied together by places alone. They stay in
step while every definition that is added has a name and an identity of its own, and then
either index leads to every definition and to nothing else.
-/

namespace InstrumentBus
namespace Catalog

open Signal

/-- An index gives the places of the definitions with a key, and no other place. -/
def Indexes {κ : Type} [BEq κ] (index : List (κ × Nat)) (keyOf : Definition → κ)
    (entries : Array Definition) : Prop :=
  ∀ key place, index.lookup key = some place ↔ ∃ d, entries[place]? = some d ∧ keyOf d = key

namespace Indexes

variable {κ : Type} [BEq κ] {index index' : List (κ × Nat)} {keyOf : Definition → κ}
  {entries : Array Definition} {d e : Definition}

theorem empty (keyOf : Definition → κ) : Indexes [] keyOf #[] := by
  intro key place
  simp

theorem find_eq_some_iff (h : Indexes index keyOf entries) {key : κ} :
    find index entries key = some d ↔ d ∈ entries ∧ keyOf d = key := by
  rw [find, Option.bind_eq_some_iff, Array.mem_iff_getElem?]
  constructor
  · rintro ⟨place, hplace, hd⟩
    obtain ⟨e, he, hkey⟩ := (h key place).1 hplace
    cases hd.symm.trans he
    exact ⟨⟨place, hd⟩, hkey⟩
  · rintro ⟨⟨place, hd⟩, hkey⟩
    exact ⟨place, (h key place).2 ⟨d, hd, hkey⟩, hd⟩

theorem lookup_eq_none_iff (h : Indexes index keyOf entries) {key : κ} :
    index.lookup key = none ↔ ∀ d ∈ entries, keyOf d ≠ key := by
  constructor
  · rintro hnone d hd rfl
    obtain ⟨place, hplace⟩ := Array.mem_iff_getElem?.1 hd
    cases hnone.symm.trans ((h (keyOf d) place).2 ⟨d, hplace, rfl⟩)
  · intro hother
    cases hlookup : index.lookup key with
    | none => rfl
    | some place =>
      obtain ⟨d, hplace, hkey⟩ := (h key place).1 hlookup
      exact absurd hkey (hother d (Array.mem_of_getElem? hplace))

theorem place_unique (h : Indexes index keyOf entries) {p q : Nat} (hp : entries[p]? = some d)
    (hq : entries[q]? = some e) (hkey : keyOf d = keyOf e) : p = q := by
  have hfirst := (h (keyOf e) p).2 ⟨d, hp, hkey⟩
  have hsecond := (h (keyOf e) q).2 ⟨e, hq, rfl⟩
  exact Option.some.inj (hfirst.symm.trans hsecond)

theorem push [LawfulBEq κ] (h : Indexes index keyOf entries)
    (hnew : index.lookup (keyOf d) = none)
    (hindex : ∀ key, index'.lookup key =
      if key == keyOf d then some entries.size else index.lookup key) :
    Indexes index' keyOf (entries.push d) := by
  intro key place
  rw [hindex, Array.getElem?_push]
  by_cases hkey : key = keyOf d
  · subst hkey
    rw [if_pos (beq_self_eq_true _)]
    constructor
    · rintro ⟨⟩
      exact ⟨d, if_pos rfl, rfl⟩
    · rintro ⟨e, he, hkey⟩
      split at he
      · next hplace => rw [hplace]
      · cases hnew.symm.trans ((h _ place).2 ⟨e, he, hkey⟩)
  · rw [if_neg (mt eq_of_beq hkey), h]
    constructor
    · rintro ⟨e, he, rfl⟩
      obtain ⟨hlt, -⟩ := Array.getElem?_eq_some_iff.1 he
      exact ⟨e, (if_neg (Nat.ne_of_lt hlt)).trans he, rfl⟩
    · rintro ⟨e, he, rfl⟩
      split at he
      · cases he
        exact absurd rfl hkey
      · exact ⟨e, he, rfl⟩

end Indexes

section Entering

variable {identity : Identity} {place : Nat} {index : List (Identity × Nat)}

theorem lookup_enter (identity : Identity) (place : Nat) (index : List (Identity × Nat))
    (key : Identity) : (enter identity place index).lookup key =
      if key == identity then some place else index.lookup key := by
  induction index with
  | nil => cases h : key == identity <;> simp [enter, List.lookup_cons, h]
  | cons entry rest ih =>
    obtain ⟨other, last⟩ := entry
    unfold enter
    split
    · cases h : key == identity <;> simp [List.lookup_cons, h]
    · split
      · next heq =>
        subst heq
        cases h : key == identity <;> simp [List.lookup_cons, h]
      · next hne =>
        rw [List.lookup_cons, ih, List.lookup_cons]
        cases h : key == other with
        | false => rfl
        | true =>
          have hkey : (key == identity) = false := by
            rw [eq_of_beq h]
            exact beq_false_of_ne (Ne.symm hne)
          simp [hkey]

theorem mem_keys_enter {key : Identity} :
    key ∈ (enter identity place index).map Prod.fst ↔
      key = identity ∨ key ∈ index.map Prod.fst := by
  induction index with
  | nil => simp [enter]
  | cons entry rest ih =>
    unfold enter
    split
    · simp
    · split
      · next heq => simp [heq]
      · simp only [List.map_cons, List.mem_cons, ih]
        exact or_left_comm

theorem pairwise_enter (h : (index.map Prod.fst).Pairwise (· < ·)) :
    ((enter identity place index).map Prod.fst).Pairwise (· < ·) := by
  induction index with
  | nil => simp [enter]
  | cons entry rest ih =>
    obtain ⟨hentry, hrest⟩ := List.pairwise_cons.1 h
    unfold enter
    split
    · next hlt =>
      refine List.pairwise_cons.2 ⟨?_, h⟩
      intro key hkey
      rcases List.mem_cons.1 hkey with rfl | hkey
      · exact hlt
      · exact Nat.lt_trans hlt (hentry key hkey)
    · next hle =>
      split
      · next heq =>
        subst heq
        exact h
      · next hne =>
        refine List.pairwise_cons.2 ⟨?_, ih hrest⟩
        intro key hkey
        rcases mem_keys_enter.1 hkey with rfl | hkey
        · exact Nat.lt_of_le_of_ne (Nat.le_of_not_lt hle) (mt Identity.index_inj.1 (Ne.symm hne))
        · exact hentry key hkey

theorem lookup_eq_some_iff (h : (index.map Prod.fst).Pairwise (· < ·)) :
    index.lookup identity = some place ↔ (identity, place) ∈ index := by
  induction index with
  | nil => simp
  | cons entry rest ih =>
    obtain ⟨other, last⟩ := entry
    obtain ⟨hentry, hrest⟩ := List.pairwise_cons.1 h
    rw [List.lookup_cons, List.mem_cons, Prod.mk.injEq]
    cases heq : identity == other with
    | true =>
      have hnot : (identity, place) ∉ rest := by
        intro hmem
        have hlt := hentry identity (List.mem_map_of_mem hmem)
        rw [eq_of_beq heq] at hlt
        exact Nat.lt_irrefl _ hlt
      rw [or_iff_left hnot, Option.some.injEq, and_iff_right (eq_of_beq heq)]
      exact eq_comm
    | false => simp [ne_of_beq_false heq, ih hrest]

end Entering

/-- Both indexes are in step with the definitions, each of them is sound, and there are no more
of them than there may be. -/
structure Coherent (c : Catalog) : Prop where
  name : Indexes c.byName Definition.name c.entries
  identity : Indexes c.byIdentity Definition.identity c.entries
  ascending : (c.byIdentity.map Prod.fst).Pairwise (· < ·)
  sound : ∀ d ∈ c.entries, d.fault? = none
  bounded : c.size ≤ c.limits.maxSignals

namespace Coherent

variable {c : Catalog} {d : Definition}

theorem blank (version : UInt32) (limits : Limits) : (Catalog.blank version limits).Coherent where
  name := Indexes.empty _
  identity := Indexes.empty _
  ascending := List.Pairwise.nil
  sound d hd := absurd hd (Array.not_mem_empty d)
  bounded := Nat.zero_le _

theorem push (h : c.Coherent) (hfault : d.fault? = none) (hname : c.byName.lookup d.name = none)
    (hidentity : c.byIdentity.lookup d.identity = none) (hroom : c.size < c.limits.maxSignals) :
    (c.push d).Coherent where
  name := h.name.push hname fun key => by
    rw [Catalog.push, List.lookup_cons]
    cases key == d.name <;> rfl
  identity := h.identity.push hidentity (lookup_enter d.identity c.size c.byIdentity)
  ascending := pairwise_enter h.ascending
  sound := by
    intro e he
    rcases Array.mem_push.1 he with he | rfl
    · exact h.sound e he
    · exact hfault
  bounded := by
    simp only [size, Catalog.push, Array.size_push] at hroom ⊢
    exact hroom

theorem add (h : c.Coherent) (d : Definition) : (c.add d).2.Coherent := by
  rcases add_cases c d with ⟨e, he⟩ | ⟨hfault, hname, hidentity, hroom, hadd⟩
  · rw [he]
    exact h
  · rw [hadd]
    exact h.push hfault hname hidentity hroom

theorem add_eq_ok_iff (h : c.Coherent) :
    (c.add d).1 = .ok () ↔ d.fault? = none ∧ (∀ e ∈ c.entries, e.name ≠ d.name) ∧
      (∀ e ∈ c.entries, e.identity ≠ d.identity) ∧ c.size < c.limits.maxSignals := by
  rw [← h.name.lookup_eq_none_iff, ← h.identity.lookup_eq_none_iff]
  constructor
  · intro hok
    rcases c.add_cases d with ⟨e, he⟩ | ⟨hfault, hname, hidentity, hroom, -⟩
    · rw [he] at hok
      cases hok
    · exact ⟨hfault, hname, hidentity, hroom⟩
  · rintro ⟨hfault, hname, hidentity, hroom⟩
    rw [add_of_free hfault hname hidentity hroom]

theorem insert_of_named (h : c.Coherent) (hfault : d.fault? = none) {e : Definition}
    (he : e ∈ c.entries) (hname : e.name = d.name) :
    c.insert d = .error (.duplicateName d.name) := by
  have hused : (c.byName.lookup d.name).isSome = true := by
    rw [Option.isSome_iff_ne_none, ne_eq, h.name.lookup_eq_none_iff]
    intro hfree
    exact hfree e he hname
  simp [insert, Catalog.add, hfault, hused]

/-- The definition that has the identity already is the first of the two. -/
theorem insert_of_identified (h : c.Coherent) (hfault : d.fault? = none)
    (hname : ∀ e ∈ c.entries, e.name ≠ d.name) {e : Definition} (he : e ∈ c.entries)
    (hidentity : e.identity = d.identity) :
    c.insert d = .error (.duplicateIdentity d.identity e.name d.name) := by
  have hfree := h.name.lookup_eq_none_iff.2 hname
  obtain ⟨place, hplace⟩ := Array.mem_iff_getElem?.1 he
  have hused := (h.identity d.identity place).2 ⟨e, hplace, hidentity⟩
  simp [insert, Catalog.add, hfault, hfree, hused, hplace]

theorem insert_of_new (h : c.Coherent) (hfault : d.fault? = none)
    (hname : ∀ e ∈ c.entries, e.name ≠ d.name)
    (hidentity : ∀ e ∈ c.entries, e.identity ≠ d.identity)
    (hroom : c.size < c.limits.maxSignals) :
    c.insert d = .ok (c.push d) ∧ (c.push d).Coherent := by
  have hunnamed := h.name.lookup_eq_none_iff.2 hname
  have hunidentified := h.identity.lookup_eq_none_iff.2 hidentity
  refine ⟨?_, h.push hfault hunnamed hunidentified hroom⟩
  rw [insert, add_of_free hfault hunnamed hunidentified hroom]

theorem get?_eq_some_iff (h : c.Coherent) {name : String} :
    c.get? name = some d ↔ d ∈ c.entries ∧ d.name = name := h.name.find_eq_some_iff

theorem definition?_eq_some_iff (h : c.Coherent) {i : Identity} :
    c.definition? i = some d ↔ d ∈ c.entries ∧ d.identity = i := h.identity.find_eq_some_iff

theorem identityFor?_eq_some_iff (h : c.Coherent) {name : String} {i : Identity} :
    c.identityFor? name = some i ↔ c.nameFor? i = some name := by
  simp only [identityFor?, nameFor?, Option.map_eq_some_iff, h.get?_eq_some_iff,
    h.definition?_eq_some_iff]
  constructor
  · rintro ⟨d, ⟨hd, hname⟩, hi⟩
    exact ⟨d, ⟨hd, hi⟩, hname⟩
  · rintro ⟨d, ⟨hd, hi⟩, hname⟩
    exact ⟨d, ⟨hd, hname⟩, hi⟩

/-- No entry of the index by identity leads nowhere. -/
theorem map_identity_definitions (h : c.Coherent) :
    c.definitions.map (·.identity) = c.byIdentity.map Prod.fst := by
  have hfound : ∀ entry ∈ c.byIdentity,
      (c.entries[entry.2]?).map (·.identity) = some entry.1 := by
    intro entry hentry
    have hlookup := (lookup_eq_some_iff h.ascending).2 hentry
    obtain ⟨d, hd, hi⟩ := (h.identity entry.1 entry.2).1 hlookup
    rw [hd, Option.map_some, hi]
  rw [definitions, List.map_filterMap]
  exact List.filterMap_eq_map_iff_forall_eq_some.2 hfound

theorem mem_definitions (h : c.Coherent) : d ∈ c.definitions ↔ d ∈ c.entries := by
  rw [definitions, List.mem_filterMap, Array.mem_iff_getElem?]
  constructor
  · rintro ⟨entry, -, hd⟩
    exact ⟨entry.2, hd⟩
  · rintro ⟨place, hd⟩
    have hlookup := (h.identity d.identity place).2 ⟨d, hd, rfl⟩
    exact ⟨(d.identity, place), (lookup_eq_some_iff h.ascending).1 hlookup, hd⟩

theorem definitions_sound (h : c.Coherent) : ∀ d ∈ c.definitions, d.fault? = none := by
  intro d hd
  exact h.sound d (h.mem_definitions.1 hd)

theorem exists_zero (h : c.Coherent) {i : Identity} (hd : c.definition? i = some d) :
    ∃ zero, Payload.zero d.kind = .ok zero :=
  (Definition.fault?_eq_none_iff.1 (h.sound d (h.definition?_eq_some_iff.1 hd).1)).2

theorem pairwise_definitions (h : c.Coherent) :
    (c.definitions.map (·.identity)).Pairwise (· < ·) := by
  rw [h.map_identity_definitions]
  exact h.ascending

/-- Put in order of identity, the definitions are those that were added, each of them once. -/
theorem definitions_perm (h : c.Coherent) : c.definitions.Perm c.entries.toList := by
  have hordered : c.definitions.Nodup :=
    (Identity.nodup_of_ascending h.pairwise_definitions).of_map _
  have hadded : c.entries.toList.Nodup := by
    refine List.pairwise_iff_getElem.2 ?_
    intro p q hp hq hlt heq
    have hplaces := h.identity.place_unique (Array.getElem?_eq_getElem hp)
      (Array.getElem?_eq_getElem hq) (congrArg _ heq)
    omega
  refine (List.perm_ext_iff_of_nodup hordered hadded).2 ?_
  intro d
  rw [h.mem_definitions, Array.mem_toList_iff]

end Coherent

end Catalog
end InstrumentBus
