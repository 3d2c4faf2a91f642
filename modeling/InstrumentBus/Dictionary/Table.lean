import InstrumentBus.Signal.Record

/-!
# The table of all identities

A table has a slot for each of the 65536 identities. Records are put into it by the index of their
identity, and the identities in use are read off from the places of the slots that are filled.
-/

namespace InstrumentBus
namespace Dictionary

open Signal

structure Table where
  slots : Array (Option Record)

namespace Table

def empty : Table := ⟨Array.replicate 0x10000 none⟩

/-- Put a record into the slot of its identity. -/
def put (t : Table) (r : Record) : Table := ⟨t.slots.setIfInBounds r.identity.index (some r)⟩

def ofRecords (records : List Record) : Table := records.foldl put empty

/-- The record in the slot of an identity. -/
def record? (t : Table) (i : Identity) : Option Record := t.slots[i.index]?.join

/-- The identities of the slots that are filled. -/
def identities (t : Table) : List Identity :=
  (t.slots.toList.zipIdx.filter fun entry => entry.1.isSome).filterMap
    fun entry => Identity.ofIndex? entry.2

variable {t : Table} {r : Record} {i : Identity}

@[simp] theorem size_put (t : Table) (r : Record) : (t.put r).slots.size = t.slots.size := by
  simp [put]

theorem record?_empty (i : Identity) : empty.record? i = none := by
  simp only [record?, empty, Array.getElem?_replicate]
  split
  · rfl
  · rfl

theorem record?_put_self (h : t.slots.size = 0x10000) (r : Record) :
    (t.put r).record? r.identity = some r := by
  have hbound : r.identity.index < t.slots.size := h ▸ r.identity.index_lt
  rw [record?, put, Array.getElem?_setIfInBounds_self, if_pos hbound]
  rfl

theorem record?_put_of_ne (hne : i ≠ r.identity) : (t.put r).record? i = t.record? i := by
  have hindex : r.identity.index ≠ i.index := fun h => hne (Identity.index_inj.1 h).symm
  rw [record?, put, Array.getElem?_setIfInBounds_ne hindex, record?]

/-- Records of identities that differ are all found, beside those that were there. -/
theorem record?_foldl_put (h : t.slots.size = 0x10000) {records : List Record}
    (hnodup : (records.map Record.identity).Nodup) (i : Identity) :
    (records.foldl put t).record? i =
      (records.find? (·.identity == i)).or (t.record? i) := by
  induction records generalizing t with
  | nil => rfl
  | cons r rest ih =>
    obtain ⟨hnew, hrest⟩ := List.nodup_cons.1 hnodup
    rw [List.foldl_cons, ih ((size_put t r).trans h) hrest, List.find?_cons]
    by_cases hi : r.identity = i
    · subst hi
      have hnone : rest.find? (·.identity == r.identity) = none := by
        rw [List.find?_eq_none]
        intro s hs heq
        exact hnew (List.mem_map.2 ⟨s, hs, beq_iff_eq.1 heq⟩)
      rw [hnone, record?_put_self h, beq_self_eq_true]
      rfl
    · rw [record?_put_of_ne (Ne.symm hi), beq_false_of_ne hi]

theorem record?_ofRecords {records : List Record}
    (hnodup : (records.map Record.identity).Nodup) (i : Identity) :
    (ofRecords records).record? i = records.find? (·.identity == i) := by
  have hsize : empty.slots.size = 0x10000 := Array.size_replicate
  rw [ofRecords, record?_foldl_put hsize hnodup, record?_empty, Option.or_none]

/-- An identity is listed if its slot is filled. -/
theorem mem_identities_iff : i ∈ t.identities ↔ ∃ r, t.record? i = some r := by
  simp only [identities, List.mem_filterMap, List.mem_filter, List.mem_zipIdx_iff_getElem?,
    Array.getElem?_toList, record?, Option.join_eq_some_iff]
  constructor
  · rintro ⟨⟨slot, index⟩, ⟨hslot, hfilled⟩, hindex⟩
    obtain ⟨r, rfl⟩ := Option.isSome_iff_exists.1 hfilled
    rw [Identity.index_of_ofIndex? hindex]
    exact ⟨r, hslot⟩
  · rintro ⟨r, hr⟩
    exact ⟨(some r, i.index), ⟨hr, rfl⟩, i.ofIndex?_index⟩

/-- The identities are listed in the order of their slots. -/
theorem pairwise_identities (t : Table) : t.identities.Pairwise (· < ·) := by
  have hplaces : t.slots.toList.zipIdx.Pairwise (fun a b => a.2 < b.2) := by
    rw [← List.pairwise_map (f := Prod.snd), List.zipIdx_map_snd]
    exact List.pairwise_lt_range'
  apply (hplaces.filter _).filterMap
  intro a b hab i hi j hj
  rw [Identity.lt_iff, Identity.index_of_ofIndex? hi, Identity.index_of_ofIndex? hj]
  exact hab

end Table

end Dictionary
end InstrumentBus
