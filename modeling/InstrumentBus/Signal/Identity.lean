/-!
# Signal identities

A signal is named by a category and a subcategory. Identities are ordered by
category first, which is the order of their index in a table of all of them. A set
of identities lists them in this order.
-/

namespace InstrumentBus
namespace Signal

structure Identity where
  category : UInt8
  subcategory : UInt8
  deriving DecidableEq, Repr

namespace Identity

def index (i : Identity) : Nat := 256 * i.category.toNat + i.subcategory.toNat

/-- The identity with a given index. -/
def ofIndex? (index : Nat) : Option Identity :=
  if index < 0x10000 then some ⟨UInt8.ofNat (index / 256), UInt8.ofNat (index % 256)⟩ else none

def text (i : Identity) : String := s!"{i.category.toNat}:{i.subcategory.toNat}"

instance : LT Identity := ⟨fun a b => a.index < b.index⟩

instance (a b : Identity) : Decidable (a < b) := inferInstanceAs (Decidable (a.index < b.index))

theorem lt_iff {a b : Identity} : a < b ↔ a.index < b.index := Iff.rfl

theorem index_lt (i : Identity) : i.index < 0x10000 := by
  have hc := i.category.toNat_lt
  have hs := i.subcategory.toNat_lt
  unfold index
  omega

theorem index_inj {a b : Identity} : a.index = b.index ↔ a = b := by
  refine ⟨fun h => ?_, fun h => h ▸ rfl⟩
  have ha := a.subcategory.toNat_lt
  have hb := b.subcategory.toNat_lt
  unfold index at h
  cases a
  cases b
  congr 1
  · apply UInt8.toNat_inj.1; dsimp only at *; omega
  · apply UInt8.toNat_inj.1; dsimp only at *; omega

theorem ofIndex?_index (i : Identity) : ofIndex? i.index = some i := by
  have hs := i.subcategory.toNat_lt
  have h1 : (256 * i.category.toNat + i.subcategory.toNat) / 256 = i.category.toNat := by omega
  have h2 : (256 * i.category.toNat + i.subcategory.toNat) % 256 = i.subcategory.toNat := by omega
  rw [ofIndex?, if_pos i.index_lt]
  simp only [index, h1, h2, UInt8.ofNat_toNat]

theorem index_of_ofIndex? {index : Nat} {i : Identity} (h : ofIndex? index = some i) :
    i.index = index := by
  unfold ofIndex? at h
  split at h
  · cases h
    have hc : (UInt8.ofNat (index / 256)).toNat = index / 256 := by
      rw [UInt8.toNat_ofNat']
      omega
    have hs : (UInt8.ofNat (index % 256)).toNat = index % 256 := by
      rw [UInt8.toNat_ofNat']
      omega
    rw [Identity.index, hc, hs]
    omega
  · cases h

theorem nodup_of_ascending {is : List Identity} (h : is.Pairwise (· < ·)) : is.Nodup := by
  refine h.imp ?_
  rintro i _ hlt rfl
  exact Nat.lt_irrefl _ hlt

/-- There is one way to put identities in ascending order. -/
theorem eq_of_ascending {is js : List Identity} (hi : is.Pairwise (· < ·))
    (hj : js.Pairwise (· < ·)) (h : ∀ i, i ∈ is ↔ i ∈ js) : is = js := by
  have hperm : is.Perm js :=
    (List.perm_ext_iff_of_nodup (nodup_of_ascending hi) (nodup_of_ascending hj)).2 h
  refine hperm.eq_of_pairwise ?_ hi hj
  intro i j _ _ hij hji
  exact absurd (Nat.lt_trans hij hji) (Nat.lt_irrefl _)

/-- A list of identities in ascending order. -/
def sort (identities : List Identity) : List Identity :=
  identities.mergeSort fun a b => a.index ≤ b.index

/-- A thing put at its place among others in ascending order of their identities. -/
def insertInto {α : Type} (identityOf : α → Identity) (x : α) : List α → List α
  | [] => [x]
  | y :: rest =>
    if identityOf x < identityOf y then x :: y :: rest else y :: insertInto identityOf x rest

theorem mem_insertInto {α : Type} {identityOf : α → Identity} {x y : α} {xs : List α} :
    y ∈ insertInto identityOf x xs ↔ y = x ∨ y ∈ xs := by
  induction xs with
  | nil => simp [insertInto]
  | cons z rest ih =>
    unfold insertInto
    split
    · simp
    · simp only [List.mem_cons, ih]
      constructor
      · rintro (h | h | h) <;> simp [h]
      · rintro (h | h | h) <;> simp [h]

/-- A thing of a new identity is found once it is put among others, and so are they. -/
theorem find?_insertInto {α : Type} {identityOf : α → Identity} {x : α} {xs : List α}
    (hnew : ∀ y ∈ xs, identityOf y ≠ identityOf x) (i : Identity) :
    (insertInto identityOf x xs).find? (identityOf · == i) =
      if identityOf x = i then some x else xs.find? (identityOf · == i) := by
  induction xs with
  | nil => by_cases hx : identityOf x = i <;> simp [insertInto, hx]
  | cons y rest ih =>
    have hy := hnew y (List.mem_cons_self ..)
    have hrest := ih fun z hz => hnew z (List.mem_cons_of_mem _ hz)
    by_cases hx : identityOf x = i
    · have hne : (identityOf y == i) = false := beq_false_of_ne (hx ▸ hy)
      rw [if_pos hx] at hrest ⊢
      unfold insertInto
      split
      · exact List.find?_cons_of_pos (beq_iff_eq.2 hx)
      · rw [List.find?_cons_of_neg (Bool.not_eq_true _ ▸ hne), hrest]
    · have hne : ¬ (identityOf x == i) = true := fun heq => hx (beq_iff_eq.1 heq)
      rw [if_neg hx] at hrest ⊢
      unfold insertInto
      split
      · exact List.find?_cons_of_neg hne
      · rw [List.find?_cons, List.find?_cons, hrest]

/-- Things in strictly ascending order stay so when one of a new identity is put among them. -/
theorem pairwise_insertInto {α : Type} {identityOf : α → Identity} {x : α}
    {xs : List α} (hnew : ∀ y ∈ xs, identityOf y ≠ identityOf x)
    (h : (xs.map identityOf).Pairwise (· < ·)) :
    ((insertInto identityOf x xs).map identityOf).Pairwise (· < ·) := by
  induction xs with
  | nil => simp [insertInto]
  | cons y rest ih =>
    obtain ⟨hy, hrest⟩ := List.pairwise_cons.1 h
    unfold insertInto
    split
    · next hlt =>
      refine List.pairwise_cons.2 ⟨?_, h⟩
      intro i hi
      rcases List.mem_cons.1 hi with rfl | hi
      · exact hlt
      · exact Nat.lt_trans hlt (hy i hi)
    · next hle =>
      have hne := hnew y (List.mem_cons_self ..)
      refine List.pairwise_cons.2 ⟨?_, ih (fun z hz => hnew z (List.mem_cons_of_mem _ hz)) hrest⟩
      intro i hi
      obtain ⟨z, hz, rfl⟩ := List.mem_map.1 hi
      rcases mem_insertInto.1 hz with rfl | hz
      · rw [lt_iff] at hle ⊢
        exact Nat.lt_of_le_of_ne (Nat.le_of_not_lt hle) (mt index_inj.1 hne)
      · exact hy _ (List.mem_map_of_mem hz)

end Identity

/-- Identities in ascending order, each of them once. -/
structure IdentitySet where
  members : List Identity
  ascending : members.Pairwise (· < ·)

namespace IdentitySet

instance : Membership Identity IdentitySet := ⟨fun s i => i ∈ s.members⟩

def empty : IdentitySet := ⟨[], .nil⟩

theorem pairwise_insertInto {i : Identity} {members : List Identity} (hnew : i ∉ members)
    (h : members.Pairwise (· < ·)) : (Identity.insertInto id i members).Pairwise (· < ·) := by
  have hne : ∀ j ∈ members, id j ≠ id i := by
    rintro j hj rfl
    exact hnew hj
  have hascending := Identity.pairwise_insertInto hne (by rwa [List.map_id])
  rwa [List.map_id] at hascending

/-- The set with one more member, unless it is one already. -/
def insert (s : IdentitySet) (i : Identity) : IdentitySet :=
  if h : i ∈ s.members then s
  else ⟨Identity.insertInto id i s.members, pairwise_insertInto h s.ascending⟩

/-- The set with a member more, if one is given. -/
def extend (s : IdentitySet) : Option Identity → IdentitySet
  | none => s
  | some i => s.insert i

variable {s t : IdentitySet} {i j : Identity}

theorem not_mem_empty : i ∉ empty := List.not_mem_nil

theorem mem_insert : j ∈ s.insert i ↔ j = i ∨ j ∈ s := by
  unfold insert
  split
  · next hi =>
    constructor
    · exact Or.inr
    · rintro (rfl | hj)
      · exact hi
      · exact hj
  · exact Identity.mem_insertInto

theorem mem_extend {i? : Option Identity} : j ∈ s.extend i? ↔ i? = some j ∨ j ∈ s := by
  cases i? with
  | none => simp [extend]
  | some i => simp [extend, mem_insert, eq_comm]

theorem ext_members (h : ∀ i, i ∈ s ↔ i ∈ t) : s = t := by
  obtain ⟨members, hs⟩ := s
  obtain ⟨others, ht⟩ := t
  cases Identity.eq_of_ascending hs ht h
  rfl

end IdentitySet

/-- A signal and how long, in milliseconds, its value stays valid after an update. -/
structure Descriptor where
  identity : Identity
  timeout : UInt32
  deriving DecidableEq, Repr

end Signal
end InstrumentBus
