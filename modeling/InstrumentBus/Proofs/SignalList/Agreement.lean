import InstrumentBus.Proofs.Json.Keys
import InstrumentBus.Proofs.Signal.WellFormed
import InstrumentBus.SignalList.Load

/-!
# Two descriptions of signal lists

A list is described by the checks of a schema and by the types that its values are read with.
The checks ask for more about the shape of a document: objects only, known keys only, nothing
null. The types ask for more about numbers and about what signals mean. A list that passes the
second description passes the first one if and only if it has that shape, and then it is loaded
as the same catalog.
-/

namespace InstrumentBus
namespace SignalList

open Json Numeric Signal Catalog

/-- A signal written as an object with known keys only, none of them null, and with its type, if
it has one, as a text. -/
inductive PlainSignal : Value → Prop where
  | object {members : List (String × Value)}
      (known : ∀ m ∈ members, m.1 ∈ ["cat_id", "sub_id", "name", "description", "timeout", "type",
        "units", "resolution", "length"])
      (full : ∀ m ∈ members, m.2 ≠ .null)
      (typed : ∀ m ∈ members, m.1 = "type" → ∃ s, m.2 = .text s) : PlainSignal (.object members)

/-- A list written as an object with a version and signals and nothing else, none of them null,
and with every signal written plainly. -/
inductive PlainList : Value → Prop where
  | object {members : List (String × Value)}
      (version : "version" ∈ members.map Prod.fst)
      (signals : "signals" ∈ members.map Prod.fst)
      (known : ∀ m ∈ members, m.1 = "version" ∨ m.1 = "signals")
      (full : ∀ m ∈ members, m.2 ≠ .null)
      (plain : ∀ items, ("signals", .array items) ∈ members → ∀ item ∈ items, PlainSignal item) :
      PlainList (.object members)

section Outlines

variable {o : Outline} {v : Value} {members : List (String × Value)}

theorem Outline.checkMember_eq_nil_iff (hrules : (o.members.map Prod.fst).Nodup)
    {m : String × Value} :
    o.checkMember m = [] ∧ o.members.any (·.1 == m.1) = true ↔
      ∃ check, (m.1, check) ∈ o.members ∧ check m.2 = [] := by
  constructor
  · rintro ⟨hclean, hknown⟩
    obtain ⟨rule, hrule, hkey⟩ := List.any_eq_true.1 hknown
    have hfound := find?_of_mem hrules hrule
    rw [beq_iff_eq.1 hkey] at hfound
    rw [checkMember, hfound] at hclean
    exact ⟨rule.2, beq_iff_eq.1 hkey ▸ hrule, hclean⟩
  · rintro ⟨check, hrule, hclean⟩
    have hfound := find?_of_mem hrules hrule
    refine ⟨?_, List.any_eq_true.2 ⟨_, hrule, beq_self_eq_true _⟩⟩
    rw [checkMember, hfound]
    exact hclean

/-- A document passes an outline if it is an object with the keys it must have, and each of its
members passes the check for its key. -/
theorem Outline.check_eq_nil_iff (hrules : (o.members.map Prod.fst).Nodup) :
    o.check v = [] ↔ ∃ members, v = .object members ∧
      (∀ key ∈ o.required, key ∈ members.map Prod.fst) ∧
      ∀ m ∈ members, ∃ check, (m.1, check) ∈ o.members ∧ check m.2 = [] := by
  cases v with
  | object members =>
    have hmissing : o.required.filter (!(members.map (·.1)).contains ·) = [] ↔
        ∀ key ∈ o.required, key ∈ members.map Prod.fst := by
      simp [List.filter_eq_nil_iff]
    have hunexpected : (members.map (·.1)).filter (fun k => !(o.members.any (·.1 == k))) = [] ↔
        ∀ m ∈ members, o.members.any (·.1 == m.1) = true := by
      simp [List.filter_eq_nil_iff]
    simp only [Outline.check, List.append_eq_nil_iff, List.map_eq_nil_iff, ite_eq_left_iff,
      List.isEmpty_iff, reduceCtorEq, imp_false, Decidable.not_not, List.flatMap_eq_nil_iff,
      Value.object.injEq, exists_eq_left', hmissing, hunexpected,
      ← Outline.checkMember_eq_nil_iff hrules]
    constructor
    · rintro ⟨⟨hrequired, hclean⟩, hknown⟩
      exact ⟨hrequired, fun m hm => ⟨hclean m hm, hknown m hm⟩⟩
    · rintro ⟨hrequired, hmembers⟩
      exact ⟨⟨hrequired, fun m hm => (hmembers m hm).1⟩, fun m hm => (hmembers m hm).2⟩
  | _ => simp [Outline.check]

end Outlines

section Fields

variable {v : Value}

theorem checkInteger_of_readNatural {bound limit n : Nat} (h : readNatural bound v = some n)
    (hle : n ≤ limit) : checkInteger (some limit) v = [] := by
  unfold readNatural at h
  split at h
  · next k =>
    split at h
    · next hrange =>
      cases h
      have hbelow : ¬ k < 0 := by omega
      have habove : ¬ (limit : Int) < k := by omega
      simp [checkInteger, isWhole, isBelow, isAbove, hbelow, habove]
    · cases h
  · cases h

theorem readNatural_lt {bound n : Nat} (h : readNatural bound v = some n) : n < bound := by
  unfold readNatural at h
  split at h
  · split at h
    · next hrange =>
      cases h
      omega
    · cases h
  · cases h

theorem checkInteger_of_readSigned {n : Int} (h : readSigned v = some n) :
    checkInteger none v = [] := by
  unfold readSigned at h
  split at h
  · simp [checkInteger, isWhole]
  · cases h

theorem readText_eq_some_iff {s : String} : readText v = some s ↔ v = .text s := by
  cases v <;> simp [readText]

theorem checkType_of_readShape {s : String} {shape : Shape}
    (h : readShape (.text s) = some shape) : checkType (.text s) = [] := by
  simp only [readShape, shapeNamed] at h
  split at h
  · simp [checkType, typeNames]
  · simp [checkType, typeNames]
  · simp [checkType, typeNames]
  · cases h

theorem checkResolution_of_readResolution {r : ResolutionDraft} (h : readResolution v = some r) :
    checkResolution v = [] := by
  unfold readResolution at h
  split at h
  · rfl
  · rfl
  · cases h

theorem readNullable_of_ne {α : Type} {read : Value → Option α} {x : Option α} (hv : v ≠ .null)
    (h : readNullable read v = some x) : ∃ y, read v = some y ∧ x = some y := by
  unfold readNullable at h
  split at h
  · exact absurd rfl hv
  · obtain ⟨y, hy, rfl⟩ := Option.map_eq_some_iff.1 h
    exact ⟨y, hy, rfl⟩

variable {members : List (String × Value)} {m : String × Value} {α : Type}
  {read : Value → Option α} {absent x : α}

theorem mem_keys_of_required {key : String} (h : required members key read = some x) :
    key ∈ members.map Prod.fst := by
  obtain ⟨v, hv, -⟩ := Option.bind_eq_some_iff.1 h
  exact List.mem_map_of_mem (mem_of_member? hv)

theorem read_of_required (hkeys : (members.map Prod.fst).Nodup) (hm : m ∈ members)
    (h : required members m.1 read = some x) : read m.2 = some x := by
  rwa [required, member?_of_mem hkeys hm] at h

theorem checkInteger_of_required {limit : Nat} (hkeys : (members.map Prod.fst).Nodup)
    (hm : m ∈ members) (h : ∃ n, required members m.1 (readNatural (limit + 1)) = some n) :
    checkInteger (some limit) m.2 = [] := by
  obtain ⟨n, hn⟩ := h
  have hvalue := read_of_required hkeys hm hn
  exact checkInteger_of_readNatural hvalue (Nat.le_of_lt_succ (readNatural_lt hvalue))

theorem read_of_optional (hkeys : (members.map Prod.fst).Nodup) (hm : m ∈ members)
    (h : optional members m.1 read absent = some x) : read m.2 = some x := by
  rwa [optional, member?_of_mem hkeys hm] at h

end Fields

section Signals

variable {members : List (String × Value)} {s : SignalDraft}

structure Reads (members : List (String × Value)) (s : SignalDraft) : Prop where
  category : ∃ n, required members "cat_id" (readNatural 0x100) = some n
  subcategory : ∃ n, required members "sub_id" (readNatural 0x100) = some n
  name : required members "name" readText = some s.name
  description : optional members "description" readText "" = some s.description
  timeout : ∃ n, required members "timeout" (readNatural 0x100000000) = some n
  shape : optional members "type" readShape .scaled = some s.shape
  units : optional members "units" (readNullable readText) none = some s.units
  resolution : optional members "resolution" (readNullable readResolution) none =
    some s.resolution
  length : optional members "length" (readNullable (readNatural 0x10000000000000000)) none =
    some s.length

theorem reads_of_readSignal (h : readSignal (.object members) = some s) : Reads members s := by
  simp only [readSignal, fieldsOf, Option.bind_eq_bind, Option.bind_some, Option.bind_eq_some_iff,
    Option.pure_def, Option.some.injEq] at h
  obtain ⟨category, hcategory, subcategory, hsubcategory, name, hname, description, hdescription,
    timeout, htimeout, shape, hshape, units, hunits, resolution, hresolution, length, hlength,
    rfl⟩ := h
  exact ⟨⟨_, hcategory⟩, ⟨_, hsubcategory⟩, hname, hdescription, ⟨_, htimeout⟩, hshape, hunits,
    hresolution, hlength⟩

theorem kind_of_length {n : Nat} {kind : Kind} (hn : s.length = some n) (h : s.kind = .ok kind) :
    kind = .buffer n := by
  unfold SignalDraft.kind at h
  split at h
  · split at h
    · cases h
    · rw [hn] at h
      cases h
  · rw [hn] at h
    split at h
    · cases h
    · cases h
  · rw [hn] at h
    dsimp only at h
    split at h
    · cases h
    · exact (Except.ok.inj h).symm

theorem sound_of_definition {d : Definition} (h : s.definition = .ok d) :
    s.name ≠ "" ∧ ∀ n, s.length = some n → n ≤ maxBufferLength := by
  unfold SignalDraft.definition at h
  split at h
  · cases h
  · next kind hkind =>
    dsimp only at h
    split at h
    · cases h
    · next hfault =>
      obtain ⟨hname, zero, hzero⟩ := Definition.fault?_eq_none_iff.1 hfault
      refine ⟨?_, ?_⟩
      · intro hempty
        simp [SignalDraft.define, hempty] at hname
      · intro n hn
        cases kind_of_length hn hkind
        exact Kind.registrable_of_zero hzero

theorem nodup_signalOutline : (signalOutline.members.map Prod.fst).Nodup := by decide

theorem check_null {key : String} {check : Value → List Violation}
    (h : (key, check) ∈ signalOutline.members) : check .null ≠ [] := by
  simp only [signalOutline, List.mem_cons, Prod.mk.injEq, List.not_mem_nil, or_false] at h
  rcases h with ⟨-, rfl⟩ | ⟨-, rfl⟩ | ⟨-, rfl⟩ | ⟨-, rfl⟩ | ⟨-, rfl⟩ | ⟨-, rfl⟩ | ⟨-, rfl⟩ |
    ⟨-, rfl⟩ | ⟨-, rfl⟩
  all_goals simp [checkInteger, checkName, checkText, checkType, checkResolution]

theorem plainSignal_of_check {v : Value} (h : signalOutline.check v = []) : PlainSignal v := by
  obtain ⟨members, rfl, -, hmembers⟩ := (Outline.check_eq_nil_iff nodup_signalOutline).1 h
  refine .object ?_ ?_ ?_
  · intro m hm
    obtain ⟨check, hrule, -⟩ := hmembers m hm
    exact List.mem_map_of_mem (f := Prod.fst) hrule
  · intro m hm hnull
    obtain ⟨check, hrule, hclean⟩ := hmembers m hm
    rw [hnull] at hclean
    exact check_null hrule hclean
  · intro m hm htype
    obtain ⟨check, hrule, hclean⟩ := hmembers m hm
    rw [htype] at hrule
    have hcheck : check = checkType := by simpa [signalOutline] using hrule
    subst hcheck
    cases hv : m.2 with
    | text t => exact ⟨t, rfl⟩
    | _ => simp [hv, checkType] at hclean

/-- A signal that is plainly written and is read as a sound definition passes the checks. -/
theorem check_of_plainSignal {v : Value} (hv : v.Keyed) (hplain : PlainSignal v)
    (hread : readSignal v = some s) (hname : s.name ≠ "")
    (hlength : ∀ n, s.length = some n → n ≤ maxBufferLength) : signalOutline.check v = [] := by
  obtain ⟨hknown, hfull, htyped⟩ := hplain
  obtain ⟨hkeys, -⟩ := keyed_object_iff.1 hv
  have hreads := reads_of_readSignal hread
  refine (Outline.check_eq_nil_iff nodup_signalOutline).2 ⟨_, rfl, ?_, ?_⟩
  · obtain ⟨_, hcategory⟩ := hreads.category
    obtain ⟨_, hsubcategory⟩ := hreads.subcategory
    obtain ⟨_, htimeout⟩ := hreads.timeout
    intro key hkey
    simp only [signalOutline, List.mem_cons, List.not_mem_nil, or_false] at hkey
    rcases hkey with rfl | rfl | rfl | rfl
    · exact mem_keys_of_required hcategory
    · exact mem_keys_of_required hsubcategory
    · exact mem_keys_of_required hreads.name
    · exact mem_keys_of_required htimeout
  · rintro ⟨key, value⟩ hm
    have hnull := hfull _ hm
    have hkey := hknown _ hm
    simp only [List.mem_cons, List.not_mem_nil, or_false] at hkey
    rcases hkey with rfl | rfl | rfl | rfl | rfl | rfl | rfl | rfl | rfl
    · exact ⟨checkInteger (some 255), by simp [signalOutline],
        checkInteger_of_required hkeys hm hreads.category⟩
    · exact ⟨checkInteger (some 255), by simp [signalOutline],
        checkInteger_of_required hkeys hm hreads.subcategory⟩
    · have hvalue := read_of_required hkeys hm hreads.name
      cases readText_eq_some_iff.1 hvalue
      exact ⟨checkName, by simp [signalOutline], by simp [checkName, hname]⟩
    · have hvalue := read_of_optional hkeys hm hreads.description
      cases readText_eq_some_iff.1 hvalue
      exact ⟨checkText, by simp [signalOutline], rfl⟩
    · exact ⟨checkInteger (some 4294967295), by simp [signalOutline],
        checkInteger_of_required hkeys hm hreads.timeout⟩
    · obtain ⟨t, ht⟩ := htyped _ hm rfl
      dsimp only at ht
      subst ht
      have hvalue := read_of_optional hkeys hm hreads.shape
      exact ⟨checkType, by simp [signalOutline], checkType_of_readShape hvalue⟩
    · obtain ⟨t, ht, -⟩ := readNullable_of_ne hnull (read_of_optional hkeys hm hreads.units)
      cases readText_eq_some_iff.1 ht
      exact ⟨checkText, by simp [signalOutline], rfl⟩
    · obtain ⟨r, hr, -⟩ := readNullable_of_ne hnull (read_of_optional hkeys hm hreads.resolution)
      exact ⟨checkResolution, by simp [signalOutline], checkResolution_of_readResolution hr⟩
    · obtain ⟨n, hn, hs⟩ := readNullable_of_ne hnull (read_of_optional hkeys hm hreads.length)
      exact ⟨checkInteger (some 4096), by simp [signalOutline],
        checkInteger_of_readNatural hn (hlength n hs)⟩

end Signals

section Lists

variable {c c' : Catalog} {drafts : List SignalDraft} {draft : ListDraft} {limits : Limits}

theorem exists_of_mapM {α β : Type} {f : α → Option β} {xs : List α} {ys : List β}
    (h : xs.mapM f = some ys) : ∀ x ∈ xs, ∃ y ∈ ys, f x = some y := by
  induction xs generalizing ys with
  | nil => exact List.forall_mem_nil _
  | cons x xs ih =>
    simp only [List.mapM_cons, Option.bind_eq_bind, Option.bind_eq_some_iff, Option.pure_def,
      Option.some.injEq] at h
    obtain ⟨y, hy, rest, hrest, rfl⟩ := h
    refine List.forall_mem_cons.2 ⟨⟨y, List.mem_cons_self, hy⟩, ?_⟩
    intro x' hx'
    obtain ⟨y', hy', hread⟩ := ih hrest x' hx'
    exact ⟨y', List.mem_cons_of_mem _ hy', hread⟩

theorem definition_of_addDrafts (h : addDrafts c drafts = .ok c') :
    ∀ s ∈ drafts, ∃ d, s.definition = .ok d := by
  induction drafts generalizing c with
  | nil => exact List.forall_mem_nil _
  | cons s rest ih =>
    rw [addDrafts] at h
    split at h
    · cases h
    · next d hd =>
      split at h
      · cases h
      · exact List.forall_mem_cons.2 ⟨⟨d, hd⟩, ih h⟩

theorem nodup_listOutline : (listOutline.members.map Prod.fst).Nodup := by decide

theorem plainList_of_violations {document : Value} (h : violations document = []) :
    PlainList document := by
  obtain ⟨members, rfl, hrequired, hmembers⟩ := (Outline.check_eq_nil_iff nodup_listOutline).1 h
  have hrules : ∀ m ∈ members, (m.1 = "version" ∧ checkInteger none m.2 = []) ∨
      (m.1 = "signals" ∧ checkSignals m.2 = []) := by
    intro m hm
    obtain ⟨check, hrule, hclean⟩ := hmembers m hm
    simp only [listOutline, List.mem_cons, Prod.mk.injEq, List.not_mem_nil, or_false] at hrule
    rcases hrule with ⟨hkey, rfl⟩ | ⟨hkey, rfl⟩
    · exact Or.inl ⟨hkey, hclean⟩
    · exact Or.inr ⟨hkey, hclean⟩
  refine .object (hrequired _ (by simp [listOutline])) (hrequired _ (by simp [listOutline]))
    ?_ ?_ ?_
  · intro m hm
    rcases hrules m hm with ⟨hkey, -⟩ | ⟨hkey, -⟩
    · exact Or.inl hkey
    · exact Or.inr hkey
  · intro m hm hnull
    rcases hrules m hm with ⟨-, hclean⟩ | ⟨-, hclean⟩
    · simp [hnull, checkInteger] at hclean
    · simp [hnull, checkSignals] at hclean
  · intro items hitems item hitem
    rcases hrules _ hitems with ⟨hkey, -⟩ | ⟨-, hclean⟩
    · simp at hkey
    · exact plainSignal_of_check (List.flatMap_eq_nil_iff.1 hclean item hitem)

theorem violations_of_plainList {document : Value} (hdocument : document.Keyed)
    (hplain : PlainList document) (hread : readList document = some draft)
    (hdraft : ofDraft draft limits = .ok c) : violations document = [] := by
  obtain ⟨hversion, hsignals, hknown, -, hitems⟩ := hplain
  obtain ⟨hkeys, hvalues⟩ := keyed_object_iff.1 hdocument
  obtain ⟨-, -, -, hadded⟩ := ofDraft_eq_ok_iff.1 hdraft
  simp only [readList, fieldsOf, Option.bind_eq_bind, Option.bind_some, Option.bind_eq_some_iff,
    Option.pure_def, Option.some.injEq] at hread
  obtain ⟨version, hreadVersion, signals, hreadSignals, rfl⟩ := hread
  refine (Outline.check_eq_nil_iff nodup_listOutline).2 ⟨_, rfl, ?_, ?_⟩
  · intro key hkey
    simp only [listOutline, List.mem_cons, List.not_mem_nil, or_false] at hkey
    rcases hkey with rfl | rfl
    · exact hversion
    · exact hsignals
  · rintro ⟨key, value⟩ hm
    rcases hknown _ hm with hkey | hkey
    · dsimp only at hkey
      subst hkey
      have hvalue := read_of_required hkeys hm hreadVersion
      exact ⟨checkInteger none, by simp [listOutline], checkInteger_of_readSigned hvalue⟩
    · dsimp only at hkey
      subst hkey
      have hvalue := read_of_optional hkeys hm hreadSignals
      refine ⟨checkSignals, by simp [listOutline], ?_⟩
      cases value with
      | array items =>
        refine List.flatMap_eq_nil_iff.2 ?_
        intro item hitem
        obtain ⟨s, hs, hitemRead⟩ := exists_of_mapM hvalue item hitem
        obtain ⟨d, hd⟩ := definition_of_addDrafts hadded s hs
        obtain ⟨hname, hlength⟩ := sound_of_definition hd
        have hitemKeyed := keyed_array_iff.1 (hvalues _ hm) item hitem
        exact check_of_plainSignal hitemKeyed (hitems _ hm item hitem) hitemRead hname hlength
      | _ => cases hvalue

end Lists

section Limits

/-- The catalog with its lists checked against the schema or not. -/
def checking (check : Bool) (c : Catalog) : Catalog :=
  { c with limits := { c.limits with checkSchema := check } }

variable {check : Bool} {c : Catalog}

theorem insert_checking (c : Catalog) (d : Definition) :
    (checking check c).insert d = (c.insert d).map (checking check) := by
  have hadd : (checking check c).add d = ((c.add d).1, checking check (c.add d).2) := by
    unfold add
    cases d.fault? with
    | some fault => rfl
    | none =>
      by_cases hname : (c.byName.lookup d.name).isSome = true
      · simp only [checking, hname, ↓reduceIte]
      · cases hidentity : c.byIdentity.lookup d.identity with
        | some place => simp only [checking, hname, hidentity, Bool.false_eq_true, ↓reduceIte]
        | none =>
          by_cases hroom : c.limits.maxSignals < c.entries.size + 1
          · simp only [checking, hname, hidentity, size, hroom, Bool.false_eq_true, ↓reduceIte]
          · simp only [checking, hname, hidentity, size, hroom, Bool.false_eq_true, ↓reduceIte]
            rfl
  unfold Catalog.insert
  rw [hadd]
  obtain ⟨_ | _, c'⟩ := c.add d <;> rfl

theorem addDrafts_checking (c : Catalog) (drafts : List SignalDraft) :
    addDrafts (checking check c) drafts = (addDrafts c drafts).map (checking check) := by
  induction drafts generalizing c with
  | nil => rfl
  | cons s rest ih =>
    rw [addDrafts, addDrafts]
    cases s.definition with
    | error e => rfl
    | ok d =>
      dsimp only
      rw [insert_checking]
      cases c.insert d with
      | error e => rfl
      | ok c => exact ih c

/-- Whether lists are checked does not matter to a list that is read already. -/
theorem ofDraft_checking_iff {draft : ListDraft} {maxSignals maxFileSize : Nat} :
    ofDraft draft ⟨maxSignals, maxFileSize, true⟩ = .ok c ↔
      ∃ c', ofDraft draft ⟨maxSignals, maxFileSize, false⟩ = .ok c' ∧ c = checking true c' := by
  have hstart : blank (UInt32.ofNat draft.version.toNat) ⟨maxSignals, maxFileSize, true⟩ =
      checking true (blank (UInt32.ofNat draft.version.toNat) ⟨maxSignals, maxFileSize, false⟩) :=
    rfl
  simp only [ofDraft_eq_ok_iff, hstart, addDrafts_checking]
  cases addDrafts (blank (UInt32.ofNat draft.version.toNat) ⟨maxSignals, maxFileSize, false⟩)
    draft.signals with
  | error e => simp [Except.map]
  | ok c' => simp [Except.map, and_assoc, eq_comm]

end Limits

/-- A list is loaded with the schema checked if and only if it is loaded without and is plainly
written, whatever the limits on its size and on the number of its signals. The catalog is then
the same. -/
theorem schema_agrees_with_types (text : String) (maxSignals maxFileSize : Nat) :
    ((∃ c, ofText text ⟨maxSignals, maxFileSize, true⟩ = .ok c) ↔
      (∃ c, ofText text ⟨maxSignals, maxFileSize, false⟩ = .ok c) ∧
        ∃ document, Json.parse text.toList = .ok document ∧ PlainList document) ∧
    ∀ c c', ofText text ⟨maxSignals, maxFileSize, true⟩ = .ok c →
      ofText text ⟨maxSignals, maxFileSize, false⟩ = .ok c' →
      c.version = c'.version ∧ c.definitions = c'.definitions := by
  have hread : ∀ c, ofText text ⟨maxSignals, maxFileSize, false⟩ = .ok c ↔
      text.utf8ByteSize ≤ maxFileSize ∧ ∃ document, Json.parse text.toList = .ok document ∧
        ∃ draft, readList document = some draft ∧
          ofDraft draft ⟨maxSignals, maxFileSize, false⟩ = .ok c := by
    intro c
    simp [ofText_eq_ok_iff, ofDocument_eq_ok_iff]
  have hchecked : ∀ c, ofText text ⟨maxSignals, maxFileSize, true⟩ = .ok c ↔
      text.utf8ByteSize ≤ maxFileSize ∧ ∃ document, Json.parse text.toList = .ok document ∧
        violations document = [] ∧ ∃ draft, readList document = some draft ∧
          ∃ c', ofDraft draft ⟨maxSignals, maxFileSize, false⟩ = .ok c' ∧
            c = checking true c' := by
    intro c
    simp [ofText_eq_ok_iff, ofDocument_eq_ok_iff, ofDraft_checking_iff]
  refine ⟨⟨?_, ?_⟩, ?_⟩
  · rintro ⟨c, hc⟩
    obtain ⟨hsize, document, hparse, hclean, draft, hdraft, c', hc', -⟩ := (hchecked c).1 hc
    exact ⟨⟨c', (hread c').2 ⟨hsize, document, hparse, draft, hdraft, hc'⟩⟩,
      document, hparse, plainList_of_violations hclean⟩
  · rintro ⟨⟨c', h⟩, document, hparse, hplain⟩
    obtain ⟨hsize, document', hparse', draft, hdraft, hc'⟩ := (hread c').1 h
    obtain rfl : document = document' := Except.ok.inj (hparse.symm.trans hparse')
    have hclean := violations_of_plainList (parse_keyed hparse) hplain hdraft hc'
    exact ⟨checking true c', (hchecked _).2
      ⟨hsize, document, hparse, hclean, draft, hdraft, c', hc', rfl⟩⟩
  · intro c c' hc hc'
    obtain ⟨-, document, hparse, -, draft, hdraft, c₁, hc₁, rfl⟩ := (hchecked c).1 hc
    obtain ⟨-, document', hparse', draft', hdraft', hsame⟩ := (hread c').1 hc'
    obtain rfl : document = document' := Except.ok.inj (hparse.symm.trans hparse')
    obtain rfl : draft = draft' := Option.some.inj (hdraft.symm.trans hdraft')
    obtain rfl : c₁ = c' := Except.ok.inj (hc₁.symm.trans hsame)
    exact ⟨rfl, rfl⟩

end SignalList
end InstrumentBus
