import InstrumentBus.Proofs.Json.Reordering
import InstrumentBus.Proofs.SignalList.Acceptance
import InstrumentBus.Dictionary.Basic
import Mathlib

/-!
# Signals in another order

The order of the signals of a list decides the places of definitions in the catalog, and which
problem is reported of a list that has several. It decides neither whether a list is accepted nor
anything that a catalog gives: what a list must satisfy is said of its signals as a collection,
and the indexes of a catalog find a definition wherever its place is.
-/

namespace InstrumentBus

namespace Catalog

open Signal

/-- Catalogs that give the same, whatever they are asked. -/
structure Agrees (c c' : Catalog) : Prop where
  version : c.version = c'.version
  size : c.size = c'.size
  named : ∀ name, c.get? name = c'.get? name
  identified : ∀ i, c.definition? i = c'.definition? i
  identities : ∀ name, c.identityFor? name = c'.identityFor? name
  names : ∀ i, c.nameFor? i = c'.nameFor? i
  definitions : c.definitions = c'.definitions

section Agreement

variable {c c' c'' : Catalog}

theorem Agrees.refl (c : Catalog) : c.Agrees c :=
  ⟨rfl, rfl, fun _ => rfl, fun _ => rfl, fun _ => rfl, fun _ => rfl, rfl⟩

theorem Agrees.trans (h : c.Agrees c') (h' : c'.Agrees c'') : c.Agrees c'' where
  version := h.version.trans h'.version
  size := h.size.trans h'.size
  named name := (h.named name).trans (h'.named name)
  identified i := (h.identified i).trans (h'.identified i)
  identities name := (h.identities name).trans (h'.identities name)
  names i := (h.names i).trans (h'.names i)
  definitions := h.definitions.trans h'.definitions

theorem Coherent.agrees (hc : c.Coherent) (hc' : c'.Coherent) (hversion : c.version = c'.version)
    (hentries : c.entries.toList.Perm c'.entries.toList) : c.Agrees c' := by
  have hmem (d : Definition) : d ∈ c.entries ↔ d ∈ c'.entries := by
    rw [← Array.mem_toList_iff, ← Array.mem_toList_iff, hentries.mem_iff]
  have hnamed (name : String) : c.get? name = c'.get? name := by
    apply Option.ext
    intro d
    rw [hc.get?_eq_some_iff, hc'.get?_eq_some_iff, hmem]
  have hidentified (i : Identity) : c.definition? i = c'.definition? i := by
    apply Option.ext
    intro d
    rw [hc.definition?_eq_some_iff, hc'.definition?_eq_some_iff, hmem]
  have hlisted : c.definitions.Perm c'.definitions :=
    (hc.definitions_perm.trans hentries).trans hc'.definitions_perm.symm
  refine ⟨hversion, hentries.length_eq, hnamed, hidentified, ?_, ?_, ?_⟩
  · intro name
    rw [identityFor?, identityFor?, hnamed]
  · intro i
    rw [nameFor?, nameFor?, hidentified]
  · apply hlisted.eq_of_pairwise ?_ (List.pairwise_map.1 hc.pairwise_definitions)
      (List.pairwise_map.1 hc'.pairwise_definitions)
    intro d e _ _ hde hed
    exact absurd (Nat.lt_trans hde hed) (Nat.lt_irrefl _)

end Agreement
end Catalog

namespace SignalList

open Json Catalog

section Drafts

variable {signals signals' : List SignalDraft} {draft draft' : ListDraft} {limits : Limits}

structure SameSignals (draft draft' : ListDraft) : Prop where
  version : draft.version = draft'.version
  signals : draft.signals.Perm draft'.signals

theorem Consistent.perm (h : Consistent signals) (hperm : signals.Perm signals') :
    Consistent signals' where
  sound s hs := h.sound s (hperm.mem_iff.2 hs)
  names := (hperm.map _).nodup_iff.1 h.names
  identities := (hperm.map _).nodup_iff.1 h.identities

theorem Acceptable.of_sameSignals (h : Acceptable draft limits) (hsame : SameSignals draft draft') :
    Acceptable draft' limits where
  version := hsame.version ▸ h.version
  count := hsame.signals.length_eq ▸ h.count
  signals := h.signals.perm hsame.signals

theorem Holds.entries_perm {c c' : Catalog} (h : Holds c signals) (h' : Holds c' signals')
    (hperm : signals.Perm signals') : c.entries.toList.Perm c'.entries.toList := by
  obtain ⟨ds, hds, hsame⟩ := List.perm_comp_forall₂ hperm h'.entries
  have hentries : c.entries.toList = ds :=
    List.right_unique_forall₂' (fun _ _ _ hd he => hd.unique he) h.entries hds
  rwa [hentries]

theorem ofDraft_of_sameSignals {c : Catalog} (hsame : SameSignals draft draft')
    (hc : ofDraft draft limits = .ok c) :
    ∃ c', ofDraft draft' limits = .ok c' ∧ c.Agrees c' := by
  have hacceptable := ofDraft_eq_ok_iff_acceptable.1 ⟨c, hc⟩
  obtain ⟨c₁, hc₁, hversion, -, hholds⟩ := hacceptable.ofDraft_eq_ok
  obtain ⟨c', hc', hversion', -, hholds'⟩ := (hacceptable.of_sameSignals hsame).ofDraft_eq_ok
  cases hc.symm.trans hc₁
  refine ⟨c', hc', hholds.coherent.agrees hholds'.coherent ?_
    (hholds.entries_perm hholds' hsame.signals)⟩
  have hvalue : (c.version.toNat : Int) = c'.version.toNat := by
    rw [hversion, hversion', hsame.version]
  exact UInt32.toNat_inj.1 (Int.ofNat_inj.1 hvalue)

end Drafts

section Values

variable {m m' : String × Value} {members members' : List (String × Value)} {v v' : Value}

/-- A member of a list, and the same member with the signals in another order. -/
inductive AlikeMember : String × Value → String × Value → Prop where
  | same (m : String × Value) : AlikeMember m m
  | signals {items items' : List Value} (h : items.Perm items') :
      AlikeMember ("signals", .array items) ("signals", .array items')

/-- A list, written as an object or as an array, and the same list with its signals in another
order. -/
inductive Shuffled : Value → Value → Prop where
  | object {members members' : List (String × Value)}
      (h : List.Forall₂ AlikeMember members members') :
      Shuffled (.object members) (.object members')
  | array {version : Value} {items items' rest : List Value} (h : items.Perm items') :
      Shuffled (.array (version :: .array items :: rest))
        (.array (version :: .array items' :: rest))

theorem AlikeMember.key_eq (h : AlikeMember m m') : m.1 = m'.1 := by
  cases h with
  | same m => rfl
  | signals h => rfl

theorem AlikeMember.eq_of_ne (h : AlikeMember m m') (hkey : m.1 ≠ "signals") : m = m' := by
  cases h with
  | same m => rfl
  | signals h => exact absurd rfl hkey

theorem forall_mem_of_alike {P : String × Value → Prop}
    (hP : ∀ m m', AlikeMember m m' → P m → P m')
    (h : List.Forall₂ AlikeMember members members') (hall : ∀ m ∈ members, P m) :
    ∀ m ∈ members', P m := by
  induction h with
  | nil => exact hall
  | cons hm _ ih =>
    obtain ⟨hfirst, hrest⟩ := List.forall_mem_cons.1 hall
    exact List.forall_mem_cons.2 ⟨hP _ _ hm hfirst, ih hrest⟩

theorem keys_eq_of_alike (h : List.Forall₂ AlikeMember members members') :
    members.map Prod.fst = members'.map Prod.fst := by
  induction h with
  | nil => rfl
  | cons hm _ ih => rw [List.map_cons, List.map_cons, hm.key_eq, ih]

theorem checkSignals_of_perm {items items' : List Value} (h : items.Perm items')
    (hclean : checkSignals (.array items) = []) : checkSignals (.array items') = [] := by
  rw [checkSignals, List.flatMap_eq_nil_iff] at hclean ⊢
  intro item hitem
  exact hclean item (h.mem_iff.2 hitem)

theorem Shuffled.violations_eq_nil (h : Shuffled v v') (hclean : violations v = []) :
    violations v' = [] := by
  have hrules : (listOutline.members.map Prod.fst).Nodup := by decide
  obtain ⟨members, rfl, hrequired, hmembers⟩ := (Outline.check_eq_nil_iff hrules).1 hclean
  cases h with
  | object h =>
    refine (Outline.check_eq_nil_iff hrules).2 ⟨_, rfl, keys_eq_of_alike h ▸ hrequired, ?_⟩
    apply forall_mem_of_alike ?_ h hmembers
    rintro m m' hm ⟨check, hcheck, hpasses⟩
    cases hm with
    | same m => exact ⟨check, hcheck, hpasses⟩
    | signals hperm =>
      -- The check for this key looks at each signal by itself.
      have hrule : check = checkSignals := by simpa [listOutline] using hcheck
      subst hrule
      exact ⟨checkSignals, hcheck, checkSignals_of_perm hperm hpasses⟩

theorem Shuffled.fieldsOf (h : Shuffled v v')
    (hfields : SignalList.fieldsOf listFields 1 v = some members) :
    ∃ members', SignalList.fieldsOf listFields 1 v' = some members' ∧
      List.Forall₂ AlikeMember members members' := by
  cases h with
  | object h =>
    cases hfields
    exact ⟨_, rfl, h⟩
  | @array version items items' rest h =>
    simp only [SignalList.fieldsOf, Option.ite_none_right_eq_some] at hfields
    obtain ⟨hcount, hfields⟩ := hfields
    cases hfields
    refine ⟨_, if_pos hcount, .cons (.same _) (.cons (.signals h) ?_)⟩
    exact List.forall₂_same.2 fun m _ => .same m

theorem readSignals_of_perm {items items' : List Value} (h : items.Perm items')
    {signals : List SignalDraft} (hread : readSignals (.array items) = some signals) :
    ∃ signals', readSignals (.array items') = some signals' ∧ signals.Perm signals' := by
  obtain ⟨signals', hsignals', hsame⟩ :=
    List.perm_comp_forall₂ h.symm (mapM_eq_some_iff_forall₂.1 hread)
  exact ⟨signals', mapM_eq_some_iff_forall₂.2 hsignals', hsame.symm⟩

theorem Shuffled.readList {draft : ListDraft} (h : Shuffled v v')
    (hread : SignalList.readList v = some draft) :
    ∃ draft', SignalList.readList v' = some draft' ∧ SameSignals draft draft' := by
  simp only [SignalList.readList, Option.bind_eq_bind, Option.bind_eq_some_iff, Option.pure_def,
    Option.some.injEq] at hread ⊢
  obtain ⟨members, hfields, version, hversion, signals, hsignals, rfl⟩ := hread
  obtain ⟨members', hfields', halike⟩ := h.fieldsOf hfields
  have hkeys : ∀ m m', AlikeMember m m' → m.1 = m'.1 := fun _ _ hm => hm.key_eq
  have hversion' : required members' "version" readSigned = some version := by
    rcases member?_cases hkeys "version" halike with ⟨hnone, -⟩ | ⟨x, x', hx, hx', hm⟩
    · rw [required, hnone] at hversion
      cases hversion
    · cases hm.eq_of_ne (by simp)
      rwa [required, hx', ← hx]
  have hsignals' : ∃ signals', optional members' "signals" readSignals [] = some signals' ∧
      signals.Perm signals' := by
    rcases member?_cases hkeys "signals" halike with ⟨hnone, hnone'⟩ | ⟨x, x', hx, hx', hm⟩
    · rw [optional, hnone] at hsignals
      rw [optional, hnone']
      exact ⟨signals, hsignals, List.Perm.refl _⟩
    · rw [optional, hx] at hsignals
      rw [optional, hx']
      cases hm with
      | same => exact ⟨signals, hsignals, List.Perm.refl _⟩
      | signals hperm => exact readSignals_of_perm hperm hsignals
  obtain ⟨signals', hsignals', hperm⟩ := hsignals'
  exact ⟨⟨version, signals'⟩, ⟨members', hfields', version, hversion', signals', hsignals', rfl⟩,
    rfl, hperm⟩

theorem Shuffled.ofDocument {c : Catalog} {limits : Limits} (h : Shuffled v v')
    (hc : SignalList.ofDocument v limits = .ok c) :
    ∃ c', SignalList.ofDocument v' limits = .ok c' ∧ c.Agrees c' := by
  obtain ⟨hschema, draft, hread, hdraft⟩ := ofDocument_eq_ok_iff.1 hc
  obtain ⟨draft', hread', hsame⟩ := h.readList hread
  obtain ⟨c', hdraft', hagrees⟩ := ofDraft_of_sameSignals hsame hdraft
  refine ⟨c', ofDocument_eq_ok_iff.2 ⟨?_, draft', hread', hdraft'⟩, hagrees⟩
  intro hchecked
  exact h.violations_eq_nil (hschema hchecked)

end Values

section Documents

variable {w w' : Document} {v : Value} {room : Nat} {limits : Limits}

/-- Documents that differ by the order of the items in the array of signals, and by the order of
the members of objects in which no key is repeated. A list may be written as an array of its
fields; then the signals stand second in it. -/
inductive Reordered : Document → Document → Prop where
  | members {w w' : Document} (h : w.SameMembers w') : Reordered w w'
  | signals {before after : List (Except Fault String × Document)} {items items' : List Document}
      (h : items.Perm items') :
      Reordered (.object (before ++ (.ok "signals", .array items) :: after))
        (.object (before ++ (.ok "signals", .array items') :: after))
  | listed {version : Document} {items items' rest : List Document} (h : items.Perm items') :
      Reordered (.array (version :: .array items :: rest))
        (.array (version :: .array items' :: rest))
  | trans {w w' w'' : Document} (h : Reordered w w') (h' : Reordered w' w'') : Reordered w w''

theorem Reordered.symm (h : Reordered w w') : Reordered w' w := by
  induction h with
  | members h => exact .members h.symm
  | signals h => exact .signals h.symm
  | listed h => exact .listed h.symm
  | trans _ _ ih ih' => exact ih'.trans ih

theorem read_array_of_perm {items items' : List Document} (h : items.Perm items')
    (hv : (Document.array items).read room = some v) :
    ∃ vs vs', v = .array vs ∧ (Document.array items').read room = some (.array vs') ∧
      vs.Perm vs' := by
  obtain ⟨hroom, vs, hvs, rfl⟩ := Document.read_array_eq_some_iff.1 hv
  obtain ⟨vs', hvs', hsame⟩ := List.perm_comp_forall₂ h.symm hvs
  exact ⟨vs, vs', rfl, Document.read_array_eq_some_iff.2 ⟨hroom, vs', hvs', rfl⟩, hsame.symm⟩

theorem shuffled_of_signals {before after : List (Except Fault String × Document)}
    {items items' : List Document} (h : items.Perm items')
    (hv : (Document.object (before ++ (.ok "signals", .array items) :: after)).read room =
      some v) :
    ∃ v', (Document.object (before ++ (.ok "signals", .array items') :: after)).read room =
      some v' ∧ Shuffled v v' := by
  obtain ⟨hroom, xs, hxs, rfl⟩ := Document.read_object_eq_some_iff.1 hv
  have hsignals : ∀ x, Document.MemberReads (room - 1) (.ok "signals", .array items) x →
      ∃ x', Document.MemberReads (room - 1) (.ok "signals", .array items') x' ∧
        AlikeMember x x' := by
    rintro ⟨key, x⟩ ⟨hkey, hx⟩
    cases hkey
    obtain ⟨vs, vs', rfl, hvs', hperm⟩ := read_array_of_perm h hx
    exact ⟨("signals", .array vs'), ⟨rfl, hvs'⟩, .signals hperm⟩
  obtain ⟨xs', hxs', halike⟩ := forall₂_exchange AlikeMember.same hsignals hxs
  exact ⟨_, Document.read_object_eq_some_iff.2 ⟨hroom, xs', hxs', rfl⟩,
    .object (forall₂_orderMembers (fun _ _ hm => hm.key_eq) halike)⟩

theorem shuffled_of_listed {version : Document} {items items' rest : List Document}
    (h : items.Perm items')
    (hv : (Document.array (version :: .array items :: rest)).read room = some v) :
    ∃ v', (Document.array (version :: .array items' :: rest)).read room = some v' ∧
      Shuffled v v' := by
  obtain ⟨hroom, vs, hvs, rfl⟩ := Document.read_array_eq_some_iff.1 hv
  obtain ⟨x, more, hx, hmore, rfl⟩ := List.forall₂_cons_left_iff.1 hvs
  obtain ⟨y, rest, hy, hrest, rfl⟩ := List.forall₂_cons_left_iff.1 hmore
  obtain ⟨ys, ys', rfl, hys', hperm⟩ := read_array_of_perm h hy
  exact ⟨_, Document.read_array_eq_some_iff.2 ⟨hroom, _, .cons hx (.cons hys' hrest), rfl⟩,
    .array hperm⟩

def Loads (w : Document) (limits : Limits) (c : Catalog) : Prop :=
  ∃ v, w.read maxDepth = some v ∧ ofDocument v limits = .ok c

/-- A document in another order is loaded as a catalog that gives the same. -/
theorem Reordered.loads (h : Reordered w w') :
    ∀ c, Loads w limits c → ∃ c', Loads w' limits c' ∧ c.Agrees c' := by
  induction h with
  | members h =>
    rintro c ⟨v, hv, hc⟩
    exact ⟨c, ⟨v, h.read_eq maxDepth ▸ hv, hc⟩, .refl c⟩
  | signals h =>
    rintro c ⟨v, hv, hc⟩
    obtain ⟨v', hv', hshuffled⟩ := shuffled_of_signals h hv
    obtain ⟨c', hc', hagrees⟩ := hshuffled.ofDocument hc
    exact ⟨c', ⟨v', hv', hc'⟩, hagrees⟩
  | listed h =>
    rintro c ⟨v, hv, hc⟩
    obtain ⟨v', hv', hshuffled⟩ := shuffled_of_listed h hv
    obtain ⟨c', hc', hagrees⟩ := hshuffled.ofDocument hc
    exact ⟨c', ⟨v', hv', hc'⟩, hagrees⟩
  | trans _ _ ih ih' =>
    intro c hc
    obtain ⟨c', hc', hagrees⟩ := ih c hc
    obtain ⟨c'', hc'', hagrees'⟩ := ih' c' hc'
    exact ⟨c'', hc'', hagrees.trans hagrees'⟩

theorem ofText_eq_ok_iff_loads {text : String} {c : Catalog} (hw : Spells text.toList w)
    (hsize : text.utf8ByteSize ≤ limits.maxFileSize) :
    ofText text limits = .ok c ↔ Loads w limits c := by
  have hread (v : Value) : Json.parse text.toList = .ok v ↔ w.read maxDepth = some v := by
    rw [← hw.toOption_parse, toOption_eq_some_iff]
  simp only [ofText_eq_ok_iff, hsize, true_and, hread, Loads]

end Documents

/-- The order of the signals of a list does not matter, nor does the order of members with keys
of their own: one of two lists that differ by these is accepted if and only if the other is. Then
the catalogs give the same, and the signals of either are registered with the same result. -/
theorem order_is_irrelevant {text text' : String} {w w' : Document} (limits : Limits)
    (hsize : text.utf8ByteSize ≤ limits.maxFileSize)
    (hsize' : text'.utf8ByteSize ≤ limits.maxFileSize) (hw : Spells text.toList w)
    (hw' : Spells text'.toList w') (h : Reordered w w') :
    ((∃ c, ofText text limits = .ok c) ↔ ∃ c', ofText text' limits = .ok c') ∧
    ∀ c c', ofText text limits = .ok c → ofText text' limits = .ok c' →
      c.Agrees c' ∧ ∀ (b : Dictionary.Builder) (modeOf : Definition → Signal.Mode),
        b.registerCatalog c modeOf = b.registerCatalog c' modeOf := by
  simp only [ofText_eq_ok_iff_loads hw hsize, ofText_eq_ok_iff_loads hw' hsize']
  -- What is loaded in one order is loaded in the other, and an order can be undone.
  refine ⟨⟨?_, ?_⟩, ?_⟩
  · rintro ⟨c, hc⟩
    obtain ⟨c', hc', -⟩ := h.loads c hc
    exact ⟨c', hc'⟩
  · rintro ⟨c', hc'⟩
    obtain ⟨c, hc, -⟩ := h.symm.loads c' hc'
    exact ⟨c, hc⟩
  · rintro c c' hc ⟨v', hv', hc'⟩
    obtain ⟨c₁, ⟨v₁, hv₁, hc₁⟩, hagrees⟩ := h.loads c hc
    cases hv'.symm.trans hv₁
    cases hc'.symm.trans hc₁
    refine ⟨hagrees, ?_⟩
    intro b modeOf
    rw [Dictionary.Builder.registerCatalog, Dictionary.Builder.registerCatalog,
      hagrees.definitions]

/-- The list with its signals and its members the other way round. -/
def reversedList : String :=
  "\x7b\"signals\":[" ++ secondSignal ++ "," ++ firstSignal ++ "],\"version\":3\x7d"

def integerMember (key : String) (n : Int) : Except Fault String × Document :=
  (.ok key, .scalar (.ok (.number (.integer n))))

def textMember (key s : String) : Except Fault String × Document := (.ok key, .text (.ok s))

def sampleItems : List Document :=
  [.object [integerMember "cat_id" 1, integerMember "sub_id" 2, textMember "name" "a",
      integerMember "timeout" 9, textMember "type" "integer"],
    .object [integerMember "cat_id" 1, integerMember "sub_id" 1, textMember "name" "b",
      integerMember "timeout" 9, textMember "type" "buffer", integerMember "length" 7]]

def forwardDocument : Document :=
  .object [integerMember "version" 3, (.ok "signals", .array sampleItems)]

def reversedDocument : Document :=
  .object [(.ok "signals", .array sampleItems.reverse), integerMember "version" 3]

theorem forwardDocument_reordered : Reordered forwardDocument reversedDocument := by
  have hmembers : Document.SameMembers forwardDocument
      (.object [(.ok "signals", .array sampleItems), integerMember "version" 3]) :=
    .members (List.Perm.swap _ _ _) (by simp [integerMember, Except.toOption])
  have hsignals : Reordered
      (.object [(.ok "signals", .array sampleItems), integerMember "version" 3])
      reversedDocument :=
    @Reordered.signals [] _ _ _ (List.reverse_perm sampleItems).symm
  exact (Reordered.members hmembers).trans hsignals

/-- Both lists are loaded. The definitions stand at different places, and this cannot be told. -/
theorem reversedList_agrees : ∃ c c', ofText forwardList .standard = .ok c ∧
    ofText reversedList .standard = .ok c' ∧ c.entries ≠ c'.entries ∧ c.Agrees c' := by
  have hsize : forwardList.utf8ByteSize ≤ Limits.standard.maxFileSize := by decide +kernel
  have hsize' : reversedList.utf8ByteSize ≤ Limits.standard.maxFileSize := by decide +kernel
  have hw : Spells forwardList.toList forwardDocument := by
    unfold Spells forwardList firstSignal secondSignal
    repeat rw [String.toList_append]
    cbv
  have hw' : Spells reversedList.toList reversedDocument := by
    unfold Spells reversedList firstSignal secondSignal
    repeat rw [String.toList_append]
    cbv
  obtain ⟨-, hagrees⟩ :=
    order_is_irrelevant .standard hsize hsize' hw hw' forwardDocument_reordered
  have hplaces : ((forwardDocument.read maxDepth).bind fun v =>
      (ofDocument v .standard).toOption.map (·.entries.toList.map (·.name))) =
        some ["a", "b"] := by decide +kernel
  have hplaces' : ((reversedDocument.read maxDepth).bind fun v =>
      (ofDocument v .standard).toOption.map (·.entries.toList.map (·.name))) =
        some ["b", "a"] := by decide +kernel
  obtain ⟨v, hv, hplaces⟩ := Option.bind_eq_some_iff.1 hplaces
  obtain ⟨c, hc, hnames⟩ := Option.map_eq_some_iff.1 hplaces
  obtain ⟨v', hv', hplaces'⟩ := Option.bind_eq_some_iff.1 hplaces'
  obtain ⟨c', hc', hnames'⟩ := Option.map_eq_some_iff.1 hplaces'
  have hloaded := (ofText_eq_ok_iff_loads hw hsize).2 ⟨v, hv, toOption_eq_some_iff.1 hc⟩
  have hloaded' := (ofText_eq_ok_iff_loads hw' hsize').2 ⟨v', hv', toOption_eq_some_iff.1 hc'⟩
  refine ⟨c, c', hloaded, hloaded', ?_, (hagrees c c' hloaded hloaded').1⟩
  intro hentries
  rw [hentries, hnames'] at hnames
  simp at hnames

end SignalList
end InstrumentBus
