import InstrumentBus.Proofs.Json.Document
import Mathlib.Data.List.Induction
import Mathlib.Data.List.Perm.Basic

/-!
# Members in another order

Members of an object are put in order of their keys as they are read, so that an object in which
no key is repeated has the same value in whatever order its members are written. Where a key is
repeated the last member counts, and the order matters.
-/

namespace InstrumentBus
namespace Json

section Lists

variable {α β : Type} {R : α → β → Prop}

theorem toOption_eq_some_iff {ε : Type} {x : Except ε α} {y : α} :
    x.toOption = some y ↔ x = .ok y := by
  cases x <;> simp [Except.toOption]

theorem mapM_eq_some_iff_forall₂ {f : α → Option β} {xs : List α} {ys : List β} :
    xs.mapM f = some ys ↔ List.Forall₂ (fun x y => f x = some y) xs ys := by
  induction xs generalizing ys with
  | nil => simp [eq_comm]
  | cons x xs ih =>
    simp only [List.mapM_cons, Option.bind_eq_bind, Option.bind_eq_some_iff, Option.pure_def,
      Option.some.injEq, ih, List.forall₂_cons_left_iff]
    constructor
    · rintro ⟨y, hy, ys, hys, rfl⟩
      exact ⟨y, ys, hy, hys, rfl⟩
    · rintro ⟨y, ys, hy, hys, rfl⟩
      exact ⟨y, hy, ys, hys, rfl⟩

theorem forall₂_exchange {S : β → β → Prop} (hS : ∀ y, S y y) {before after : List α} {x x' : α}
    {ys : List β} (hx : ∀ y, R x y → ∃ y', R x' y' ∧ S y y')
    (h : List.Forall₂ R (before ++ x :: after) ys) :
    ∃ ys', List.Forall₂ R (before ++ x' :: after) ys' ∧ List.Forall₂ S ys ys' := by
  induction before generalizing ys with
  | nil =>
    obtain ⟨y, ys, hy, hys, rfl⟩ := List.forall₂_cons_left_iff.1 h
    obtain ⟨y', hy', hyy'⟩ := hx y hy
    exact ⟨y' :: ys, .cons hy' hys, .cons hyy' (List.forall₂_same.2 fun z _ => hS z)⟩
  | cons first before ih =>
    obtain ⟨y, ys, hy, hys, rfl⟩ := List.forall₂_cons_left_iff.1 h
    obtain ⟨ys', hys', hrest⟩ := ih hys
    exact ⟨y :: ys', .cons hy hys', .cons (hS y) hrest⟩

theorem forall₂_replace {before after : List α} {x x' : α} {ys : List β}
    (hx : ∀ y, R x y → R x' y) (h : List.Forall₂ R (before ++ x :: after) ys) :
    List.Forall₂ R (before ++ x' :: after) ys := by
  obtain ⟨ys', hys', hsame⟩ :=
    forall₂_exchange (S := Eq) Eq.refl (fun y hy => ⟨y, hx y hy, rfl⟩) h
  rw [List.forall₂_eq_eq_eq] at hsame
  rwa [hsame]

end Lists

section Members

variable {key : String} {value : Value} {members members' : List (String × Value)}
  {R : String × Value → String × Value → Prop}

theorem insertMember_perm (hkey : key ∉ members.map Prod.fst) :
    (insertMember key value members).Perm ((key, value) :: members) := by
  induction members with
  | nil => exact List.Perm.refl _
  | cons m rest ih =>
    rw [List.map_cons, List.mem_cons, not_or] at hkey
    rw [insertMember, if_neg hkey.1]
    split
    · exact List.Perm.refl _
    · exact ((ih hkey.2).cons m).trans (List.Perm.swap _ _ _)

theorem orderMembers_concat (members : List (String × Value)) (m : String × Value) :
    orderMembers (members ++ [m]) = insertMember m.1 m.2 (orderMembers members) := by
  rw [orderMembers, List.foldl_append]
  rfl

/-- Members with keys of their own are put in order, and none is lost. -/
theorem orderMembers_perm (hkeys : (members.map Prod.fst).Nodup) :
    (orderMembers members).Perm members := by
  induction members using List.reverseRecOn with
  | nil => exact List.Perm.refl _
  | append_singleton members m ih =>
    rw [List.map_append, List.map_singleton, List.nodup_append] at hkeys
    obtain ⟨hbefore, -, hnew⟩ := hkeys
    have hordered := ih hbefore
    have hkey : m.1 ∉ (orderMembers members).map Prod.fst := by
      rw [(hordered.map Prod.fst).mem_iff]
      intro hmem
      exact hnew _ hmem _ (List.mem_singleton_self _) rfl
    rw [orderMembers_concat]
    exact ((insertMember_perm hkey).trans (hordered.cons m)).trans
      (List.perm_append_singleton m members).symm

theorem orderMembers_eq_of_perm (h : members.Perm members')
    (hkeys : (members.map Prod.fst).Nodup) : orderMembers members = orderMembers members' := by
  -- Lists in strictly ascending order of keys with the same members are the same.
  have hkeys' : (members'.map Prod.fst).Nodup := (h.map Prod.fst).nodup_iff.1 hkeys
  have hperm := ((orderMembers_perm hkeys).trans h).trans (orderMembers_perm hkeys').symm
  have hsorted (ms : List (String × Value)) :
      (orderMembers ms).Pairwise fun a b => a.1 < b.1 :=
    List.pairwise_map.1 (pairwise_orderMembers ms)
  apply hperm.eq_of_pairwise ?_ (hsorted members) (hsorted members')
  intro a b _ _ hab hba
  exact absurd (String.lt_trans hab hba) (String.lt_irrefl _)

/-- Where a member is put depends on keys alone. -/
theorem forall₂_insertMember {value' : Value} (hR : ∀ m m', R m m' → m.1 = m'.1)
    (hm : R (key, value) (key, value')) (h : List.Forall₂ R members members') :
    List.Forall₂ R (insertMember key value members) (insertMember key value' members') := by
  induction h with
  | nil => exact .cons hm .nil
  | @cons first first' rest rest' hfirst hrest ih =>
    obtain ⟨k, v⟩ := first
    obtain ⟨k', v'⟩ := first'
    obtain rfl : k = k' := hR _ _ hfirst
    rw [insertMember, insertMember]
    split
    · exact .cons hm hrest
    · split
      · exact .cons hm (.cons hfirst hrest)
      · exact .cons hfirst ih

theorem forall₂_orderMembers (hR : ∀ m m', R m m' → m.1 = m'.1)
    (h : List.Forall₂ R members members') :
    List.Forall₂ R (orderMembers members) (orderMembers members') := by
  apply List.rel_foldl (P := List.Forall₂ R) ?_ .nil h
  intro ordered ordered' hordered m m' hm
  obtain ⟨key, value⟩ := m
  obtain ⟨key', value'⟩ := m'
  obtain rfl : key = key' := hR _ _ hm
  exact forall₂_insertMember hR hm hordered

theorem member?_cases (hR : ∀ m m', R m m' → m.1 = m'.1) (key : String)
    (h : List.Forall₂ R members members') :
    (member? key members = none ∧ member? key members' = none) ∨
      ∃ v v', member? key members = some v ∧ member? key members' = some v' ∧
        R (key, v) (key, v') := by
  induction h with
  | nil => exact Or.inl ⟨rfl, rfl⟩
  | @cons m m' rest rest' hm hrest ih =>
    obtain ⟨k, v⟩ := m
    obtain ⟨k', v'⟩ := m'
    obtain rfl : k = k' := hR _ _ hm
    by_cases hk : k = key
    · subst hk
      exact Or.inr ⟨v, v', by simp [member?], by simp [member?], hm⟩
    · have hskip (x : Value) (ms : List (String × Value)) :
          member? key ((k, x) :: ms) = member? key ms := by
        rw [member?, List.find?_cons_of_neg (by simpa using hk), member?]
      rw [hskip, hskip]
      exact ih

end Members

namespace Document

/-- Documents that differ by the order of the members of objects in which no key is repeated. -/
inductive SameMembers : Document → Document → Prop where
  | refl (w : Document) : SameMembers w w
  | trans {w w' w'' : Document} (h : SameMembers w w') (h' : SameMembers w' w'') :
      SameMembers w w''
  | members {ms ms' : List (Except Fault String × Document)} (h : ms.Perm ms')
      (hkeys : (ms.filterMap (·.1.toOption)).Nodup) : SameMembers (.object ms) (.object ms')
  | item {before after : List Document} {w w' : Document} (h : SameMembers w w') :
      SameMembers (.array (before ++ w :: after)) (.array (before ++ w' :: after))
  | member {before after : List (Except Fault String × Document)} {key : Except Fault String}
      {w w' : Document} (h : SameMembers w w') :
      SameMembers (.object (before ++ (key, w) :: after)) (.object (before ++ (key, w') :: after))

variable {room : Nat} {w w' : Document} {v : Value}

theorem SameMembers.symm (h : w.SameMembers w') : w'.SameMembers w := by
  induction h with
  | refl w => exact .refl w
  | trans _ _ ih ih' => exact ih'.trans ih
  | members hperm hkeys => exact .members hperm.symm ((hperm.filterMap _).nodup_iff.1 hkeys)
  | item _ ih => exact .item ih
  | member _ ih => exact .member ih

def MemberReads (room : Nat) (m : Except Fault String × Document) (x : String × Value) : Prop :=
  m.1 = .ok x.1 ∧ m.2.read room = some x.2

theorem readItems_eq_some_iff {ws : List Document} {vs : List Value} :
    readItems room ws = some vs ↔ List.Forall₂ (fun w v => w.read room = some v) ws vs := by
  induction ws generalizing vs with
  | nil => simp [readItems, eq_comm]
  | cons w ws ih =>
    simp only [readItems, Option.bind_eq_some_iff, Option.map_eq_some_iff, ih,
      List.forall₂_cons_left_iff]
    constructor
    · rintro ⟨v, hv, vs, hvs, rfl⟩
      exact ⟨v, vs, hv, hvs, rfl⟩
    · rintro ⟨v, vs, hv, hvs, rfl⟩
      exact ⟨v, hv, vs, hvs, rfl⟩

theorem readMembers_eq_some_iff {ms : List (Except Fault String × Document)}
    {xs : List (String × Value)} :
    readMembers room ms = some xs ↔ List.Forall₂ (MemberReads room) ms xs := by
  induction ms generalizing xs with
  | nil => simp [readMembers, eq_comm]
  | cons m ms ih =>
    simp only [readMembers, Option.bind_eq_some_iff, Option.map_eq_some_iff, ih,
      toOption_eq_some_iff, List.forall₂_cons_left_iff]
    constructor
    · rintro ⟨k, hk, v, hv, xs, hxs, rfl⟩
      exact ⟨(k, v), xs, ⟨hk, hv⟩, hxs, rfl⟩
    · rintro ⟨⟨k, v⟩, xs, ⟨hk, hv⟩, hxs, rfl⟩
      exact ⟨k, hk, v, hv, xs, hxs, rfl⟩

theorem read_array_eq_some_iff {ws : List Document} :
    (array ws).read room = some v ↔ room ≠ 0 ∧ ∃ vs,
      List.Forall₂ (fun w v => w.read (room - 1) = some v) ws vs ∧ .array vs = v := by
  simp only [read, Option.ite_none_left_eq_some, Option.map_eq_some_iff, readItems_eq_some_iff,
    ne_eq]

theorem read_object_eq_some_iff {ms : List (Except Fault String × Document)} :
    (object ms).read room = some v ↔ room ≠ 0 ∧ ∃ xs,
      List.Forall₂ (MemberReads (room - 1)) ms xs ∧ .object (orderMembers xs) = v := by
  simp only [read, Option.ite_none_left_eq_some, Option.map_eq_some_iff, readMembers_eq_some_iff,
    ne_eq]

theorem keys_of_memberReads {ms : List (Except Fault String × Document)}
    {xs : List (String × Value)} (h : List.Forall₂ (MemberReads room) ms xs) :
    xs.map Prod.fst = ms.filterMap (·.1.toOption) := by
  induction h with
  | nil => rfl
  | cons hm _ ih =>
    have hkey := toOption_eq_some_iff.2 hm.1
    rw [List.map_cons, List.filterMap_cons, hkey, ih]

theorem SameMembers.read_of_read (h : w.SameMembers w') :
    ∀ room v, w.read room = some v → w'.read room = some v := by
  induction h with
  | refl w =>
    intro room v hv
    exact hv
  | trans _ _ ih ih' =>
    intro room v hv
    exact ih' room v (ih room v hv)
  | members hperm hkeys =>
    intro room v hv
    obtain ⟨hroom, xs, hxs, rfl⟩ := read_object_eq_some_iff.1 hv
    obtain ⟨xs', hxs', hsame⟩ := List.perm_comp_forall₂ hperm.symm hxs
    rw [← keys_of_memberReads hxs] at hkeys
    exact read_object_eq_some_iff.2
      ⟨hroom, xs', hxs', congrArg _ (orderMembers_eq_of_perm hsame.symm hkeys).symm⟩
  | item _ ih =>
    intro room v hv
    obtain ⟨hroom, vs, hvs, rfl⟩ := read_array_eq_some_iff.1 hv
    exact read_array_eq_some_iff.2 ⟨hroom, vs, forall₂_replace (ih _) hvs, rfl⟩
  | member _ ih =>
    intro room v hv
    obtain ⟨hroom, xs, hxs, rfl⟩ := read_object_eq_some_iff.1 hv
    refine read_object_eq_some_iff.2 ⟨hroom, xs, forall₂_replace ?_ hxs, rfl⟩
    intro x hx
    exact ⟨hx.1, ih _ _ hx.2⟩

theorem SameMembers.read_eq (h : w.SameMembers w') (room : Nat) : w.read room = w'.read room := by
  apply Option.ext
  intro v
  exact ⟨h.read_of_read room v, h.symm.read_of_read room v⟩

end Document

end Json
end InstrumentBus
