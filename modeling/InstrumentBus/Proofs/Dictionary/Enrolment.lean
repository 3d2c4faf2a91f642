import InstrumentBus.Dictionary.Table
import InstrumentBus.Proofs.Dictionary.Catalogued
import InstrumentBus.Proofs.Dictionary.Isolation

/-!
# The first registration of a signal is kept

A builder is changed in place by one call after the other, and a call that fails leaves it as it
was. Which call succeeds for a signal depends only on the calls for the same signal, of which the
first that can make a record does. So the order of calls for different signals does not matter,
and the table of the node, its list of signals and the records of the builder agree.
-/

namespace InstrumentBus
namespace Signal

open Numeric Wire

def Identity.Before (a b : Identity) : Prop :=
  a.category < b.category ∨ a.category = b.category ∧ a.subcategory < b.subcategory

theorem Identity.before_iff {a b : Identity} : a.Before b ↔ a < b := by
  have ha := a.subcategory.toNat_lt
  have hb := b.subcategory.toNat_lt
  rw [Identity.Before, Identity.lt_iff, Identity.index, Identity.index, UInt8.lt_iff_toNat_lt,
    UInt8.lt_iff_toNat_lt, ← UInt8.toNat_inj]
  omega

inductive Kind.Unfit : Kind → Error → Prop where
  | resolution {x : Binary64} (hx : ¬ (x.isFinite = true ∧ (Binary64.zero false).lt x = true)) :
      Unfit (.scaled x) (.wire (.badResolution x))
  | length {n : Nat} (hn : 4096 < n) : Unfit (.buffer n) (.tooLarge n 4096)

theorem Payload.zero_eq_error_iff {kind : Kind} {e : Error} :
    Payload.zero kind = .error e ↔ kind.Unfit e := by
  have hresolution {x : Binary64} :
      isResolution x = true ↔ x.isFinite = true ∧ (Binary64.zero false).lt x = true := by
    rw [isResolution, Bool.and_eq_true]
  constructor
  · intro h
    cases kind with
    | scaled x =>
      by_cases hx : isResolution x = true
      · simp [Payload.zero, FixedPoint.new, hx] at h
      · simp only [Payload.zero, FixedPoint.new, if_neg hx] at h
        cases h
        exact .resolution (mt hresolution.2 hx)
    | integer => cases h
    | buffer n =>
      by_cases hn : maxBufferLength < n
      · simp only [Payload.zero, if_pos hn] at h
        cases h
        exact .length hn
      · simp [Payload.zero, hn] at h
  · rintro (⟨hx⟩ | ⟨hn⟩)
    · simp only [Payload.zero, FixedPoint.new, if_neg (mt hresolution.1 hx)]
    · exact if_pos hn

end Signal

namespace Dictionary

open Wire Signal

theorem ofSignal_of_unfit {kind : Kind} {e : Signal.Error} (h : kind.Unfit e) :
    Error.ofSignal e = .signal e := by
  cases h with
  | resolution hx => rfl
  | length hn => rfl

def Registration.identity (g : Registration) : Identity := g.descriptor.identity

namespace Builder

section Calls

variable {b : Builder} {g : Registration}

def insert (b : Builder) (r : Record) : Builder :=
  { b with records := Identity.insertInto Record.identity r b.records }

def stamp (config : Config) (r : Record) : Except Signal.Error Unit × Record :=
  if r.mode = .transmit then
    match r.amend (.device config.device) 0 with
    | (.error e, r) => (.error e, r)
    | (.ok (), r) => r.amend (.priority config.priority) 0
  else (.ok (), r)

/-- A registration made in place: whether it was made, and the builder after it. -/
def enroll (b : Builder) (g : Registration) : Except Error Unit × Builder :=
  if b.contains g.identity then (.error (.alreadyRegistered g.identity), b)
  else
    match Record.new g.descriptor g.kind g.mode with
    | .error e => (.error (.ofSignal e), b)
    | .ok r =>
      match stamp b.config r with
      | (.error e, _) => (.error (.ofSignal e), b)
      | (.ok (), r) => (.ok (), b.insert r)

theorem enroll_eq (b : Builder) (g : Registration) :
    b.enroll g = match b.register g.descriptor g.kind g.mode with
      | .ok b' => (.ok (), b')
      | .error e => (.error e, b) := by
  unfold enroll register Registration.identity
  split
  · rfl
  · unfold Builder.record
    cases hnew : Record.new g.descriptor g.kind g.mode with
    | error e => rfl
    | ok r =>
      obtain ⟨payload, -, rfl⟩ := Record.new_eq_ok_iff.1 hnew
      cases hmode : g.mode with
      | receive => rfl
      | transmit => rfl

theorem enroll_of_ok {b' : Builder} (h : b.register g.descriptor g.kind g.mode = .ok b') :
    b.enroll g = (.ok (), b') := by
  rw [enroll_eq, h]

theorem enroll_of_error {e : Error} (h : b.register g.descriptor g.kind g.mode = .error e) :
    b.enroll g = (.error e, b) := by
  rw [enroll_eq, h]

theorem enroll_snd (b : Builder) (g : Registration) : (b.enroll g).2 = b.attempt g := by
  unfold attempt
  split
  · next hr => rw [enroll_of_ok hr]
  · next hr => rw [enroll_of_error hr]

theorem enroll_fst_eq_error_iff {e : Error} :
    (b.enroll g).1 = .error e ↔ b.register g.descriptor g.kind g.mode = .error e := by
  cases hr : b.register g.descriptor g.kind g.mode with
  | error e' => simp [enroll_of_error hr]
  | ok b' => simp [enroll_of_ok hr]

theorem enroll_snd_of_error {e : Error} (h : (b.enroll g).1 = .error e) : (b.enroll g).2 = b := by
  rw [enroll_of_error (enroll_fst_eq_error_iff.1 h)]

end Calls

def enrolled (config : Config) (gs : List Registration) : Builder :=
  gs.foldl (fun b g => (b.enroll g).2) (Builder.new config)

def Succeeds (config : Config) (gs : List Registration) (g : Registration) : Prop :=
  ∃ before after, gs = before ++ g :: after ∧ ((enrolled config before).enroll g).1 = .ok ()

section Sequence

variable {config : Config} {gs gs' : List Registration} {g : Registration} {i : Identity}

theorem enrolled_eq (config : Config) (gs : List Registration) :
    enrolled config gs = (Builder.new config).attemptAll gs := by
  have hstep : (fun (b : Builder) g => (b.enroll g).2) = attempt := by
    funext b g
    exact enroll_snd b g
  rw [enrolled, attemptAll, hstep]

theorem attemptAll_cons (b : Builder) (g : Registration) (gs : List Registration) :
    b.attemptAll (g :: gs) = (b.attempt g).attemptAll gs := rfl

theorem mem_admitted_cons_iff {b : Builder} {first : Registration} {rest : List Registration} :
    g ∈ b.admitted (first :: rest) ↔
      g = first ∧ (b.enroll first).1 = .ok () ∨ g ∈ (b.attempt first).admitted rest := by
  rw [admitted, attempt]
  cases hr : b.register first.descriptor first.kind first.mode with
  | error e => simp [enroll_of_error hr]
  | ok b' => simp [enroll_of_ok hr]

theorem mem_admitted_iff {b : Builder} :
    g ∈ b.admitted gs ↔ ∃ before after, gs = before ++ g :: after ∧
      ((b.attemptAll before).enroll g).1 = .ok () := by
  induction gs generalizing b with
  | nil => simp [admitted]
  | cons first rest ih =>
    rw [mem_admitted_cons_iff]
    constructor
    · rintro (⟨rfl, hok⟩ | h)
      · exact ⟨[], rest, rfl, hok⟩
      · obtain ⟨before, after, rfl, hok⟩ := ih.1 h
        exact ⟨first :: before, after, rfl, hok⟩
    · rintro ⟨before, after, heq, hok⟩
      rcases List.cons_eq_append_iff.1 heq with ⟨rfl, hg⟩ | ⟨before', rfl, rfl⟩
      · cases hg
        exact Or.inl ⟨rfl, hok⟩
      · exact Or.inr (ih.2 ⟨before', after, rfl, hok⟩)

theorem succeeds_iff : Succeeds config gs g ↔ g ∈ (Builder.new config).admitted gs := by
  rw [mem_admitted_iff, Succeeds]
  simp only [enrolled_eq]

theorem mem_records_enrolled {r : Record} :
    r ∈ (enrolled config gs).records ↔
      ∃ g, Succeeds config gs g ∧ Builder.record config g.descriptor g.kind g.mode = .ok r := by
  rw [enrolled_eq, mem_records_attemptAll]
  simp only [succeeds_iff]
  exact or_iff_right List.not_mem_nil

theorem Succeeds.exists_record (h : Succeeds config gs g) :
    ∃ r, Builder.record config g.descriptor g.kind g.mode = .ok r :=
  record_of_mem_admitted (succeeds_iff.1 h)

theorem contains_enrolled_iff :
    (enrolled config gs).contains i = true ↔ ∃ g, Succeeds config gs g ∧ g.identity = i := by
  rw [contains_eq_true_iff]
  constructor
  · rintro ⟨r, hr, hi⟩
    obtain ⟨g, hg, hfresh⟩ := mem_records_enrolled.1 hr
    exact ⟨g, hg, by rw [← hi, (wellFormed_record hfresh).2]; rfl⟩
  · rintro ⟨g, hg, hi⟩
    obtain ⟨r, hfresh⟩ := hg.exists_record
    exact ⟨r, mem_records_enrolled.2 ⟨g, hg, hfresh⟩, by rw [(wellFormed_record hfresh).2, ← hi]; rfl⟩

end Sequence

end Builder

/-- Why a call fails after a sequence of others: a call for the same signal succeeded, or else the
kind has no zero. -/
inductive Registration.Refused (config : Config) (gs : List Registration) (g : Registration) :
    Error → Prop where
  | taken {first : Registration} (h : Builder.Succeeds config gs first)
      (hsame : first.identity = g.identity) : Refused config gs g (.alreadyRegistered g.identity)
  | unfit {e : Signal.Error} (hkind : g.kind.Unfit e)
      (hfree : ∀ first, Builder.Succeeds config gs first → first.identity ≠ g.identity) :
      Refused config gs g (.signal e)

namespace Builder

section Refusal

variable {config : Config} {gs : List Registration} {g : Registration}

theorem record_eq_error_iff {e : Signal.Error} :
    Builder.record config g.descriptor g.kind g.mode = .error e ↔ g.kind.Unfit e := by
  rw [← Payload.zero_eq_error_iff, Builder.record, Record.new]
  cases Payload.zero g.kind with
  | error e' => simp [Except.map]
  | ok payload => simp [Except.map]

theorem config_enrolled (config : Config) (gs : List Registration) :
    (enrolled config gs).config = config := by
  rw [enrolled_eq, config_attemptAll, Builder.new]

theorem enroll_error_iff {e : Error} :
    ((enrolled config gs).enroll g).1 = .error e ↔ g.Refused config gs e := by
  rw [enroll_fst_eq_error_iff, register]
  constructor
  · intro h
    split at h
    · next hc =>
      obtain ⟨first, hfirst, hsame⟩ := contains_enrolled_iff.1 hc
      cases h
      exact .taken hfirst hsame
    · next hc =>
      have hfree : ∀ first, Succeeds config gs first → first.identity ≠ g.identity :=
        fun first hfirst hsame => hc (contains_enrolled_iff.2 ⟨first, hfirst, hsame⟩)
      split at h
      · next he =>
        have hkind := record_eq_error_iff.1 he
        cases h
        rw [ofSignal_of_unfit hkind]
        exact .unfit hkind hfree
      · cases h
  · rintro (⟨hfirst, hsame⟩ | ⟨hkind, hfree⟩)
    · exact if_pos (contains_enrolled_iff.2 ⟨_, hfirst, hsame⟩)
    · have hc : ¬ (enrolled config gs).contains g.descriptor.identity = true := by
        intro hc
        obtain ⟨first, hfirst, hsame⟩ := contains_enrolled_iff.1 hc
        exact hfree first hfirst hsame
      rw [if_neg hc, record_eq_error_iff.2 hkind, ← ofSignal_of_unfit hkind]

end Refusal

section Order

variable {b : Builder} {config : Config} {gs gs' : List Registration} {g : Registration}
  {i : Identity}

/-- The record that a registration makes for a signal, if it is for that signal and can make
one. -/
def fresh? (config : Config) (i : Identity) (g : Registration) : Option Record :=
  if g.identity = i then (Builder.record config g.descriptor g.kind g.mode).toOption else none

theorem record?_build_of_contains (h : b.contains i = true) :
    ∃ r, b.build.record? i = some r := by
  obtain ⟨s, hs, rfl⟩ := contains_eq_true_iff.1 h
  exact Dictionary.mem_identities_iff.1 (List.mem_map_of_mem hs)

theorem record?_insert {r : Record} (hnew : ∀ s ∈ b.records, s.identity ≠ r.identity)
    (i : Identity) :
    (b.insert r).build.record? i = if r.identity = i then some r else b.build.record? i :=
  Identity.find?_insertInto hnew i

theorem attempt_of_error {e : Error} (h : b.register g.descriptor g.kind g.mode = .error e) :
    b.attempt g = b := by
  rw [attempt, h]

theorem record?_attempt (b : Builder) (g : Registration) (i : Identity) :
    (b.attempt g).build.record? i = (b.build.record? i).or (fresh? b.config i g) := by
  cases hr : b.register g.descriptor g.kind g.mode with
  | ok b' =>
    obtain ⟨r, hfresh, hnew, rfl⟩ := register_cases hr
    have hidentity : r.identity = g.identity := (wellFormed_record hfresh).2
    have hattempt : b.attempt g = b.insert r := by
      rw [attempt, hr]
      rfl
    rw [hattempt, record?_insert hnew, fresh?, hfresh, hidentity]
    by_cases hi : g.identity = i
    · have hnone : b.build.record? i = none := by
        rw [← hi, ← hidentity]
        exact List.find?_eq_none.2 fun s hs heq => hnew s hs (beq_iff_eq.1 heq)
      rw [if_pos hi, if_pos hi, hnone]
      rfl
    · rw [if_neg hi, if_neg hi, Option.or_none]
  | error e =>
    rw [attempt_of_error hr, fresh?]
    by_cases hi : g.identity = i
    · rw [if_pos hi]
      unfold register at hr
      split at hr
      · next hc =>
        obtain ⟨r, hfound⟩ := record?_build_of_contains hc
        have hfound : b.build.record? i = some r := hi ▸ hfound
        rw [hfound]
        rfl
      · split at hr
        · next he =>
          rw [he]
          exact Option.or_none.symm
        · cases hr
    · rw [if_neg hi, Option.or_none]

theorem config_attempt (b : Builder) (g : Registration) : (b.attempt g).config = b.config :=
  config_attemptAll b [g]

/-- The record of a signal is the one there was, else the first that a registration makes. -/
theorem record?_attemptAll (b : Builder) (gs : List Registration) (i : Identity) :
    (b.attemptAll gs).build.record? i =
      (b.build.record? i).or (gs.findSome? (fresh? b.config i)) := by
  induction gs generalizing b with
  | nil => exact Option.or_none.symm
  | cons g gs ih =>
    rw [attemptAll_cons, ih, record?_attempt, config_attempt, List.findSome?_cons]
    cases b.build.record? i with
    | some r => rfl
    | none =>
      cases fresh? b.config i g with
      | some r => rfl
      | none => rfl

theorem record?_enrolled (config : Config) (gs : List Registration) (i : Identity) :
    (enrolled config gs).build.record? i = gs.findSome? (fresh? config i) := by
  rw [enrolled_eq, record?_attemptAll]
  rfl

theorem findSome?_fresh?_filter (config : Config) (gs : List Registration) (i : Identity) :
    (gs.filter fun g => g.identity = i).findSome? (fresh? config i) =
      gs.findSome? (fresh? config i) := by
  induction gs with
  | nil => rfl
  | cons g gs ih =>
    rw [List.filter_cons, List.findSome?_cons, ← ih]
    by_cases hi : g.identity = i
    · rw [if_pos (decide_eq_true hi), List.findSome?_cons]
    · rw [if_neg (mt of_decide_eq_true hi), fresh?, if_neg hi]

theorem wellFormed_enrolled (config : Config) (gs : List Registration) :
    (enrolled config gs).build.WellFormed := by
  rw [enrolled_eq]
  exact ((Reachable.new config).attemptAll gs).wellFormed

/-- Calls for different signals may be made in any order. -/
theorem build_enrolled_congr
    (h : ∀ i : Identity, gs.filter (fun g => g.identity = i) = gs'.filter fun g => g.identity = i) :
    (enrolled config gs).build = (enrolled config gs').build := by
  have hrecord : (enrolled config gs).build.record? = (enrolled config gs').build.record? := by
    funext i
    rw [record?_enrolled, record?_enrolled, ← findSome?_fresh?_filter config gs, h,
      findSome?_fresh?_filter]
  have hfirst := wellFormed_enrolled config gs
  have hsecond := wellFormed_enrolled config gs'
  apply hfirst.ext hsecond
  · exact (config_enrolled config gs).trans (config_enrolled config gs').symm
  · apply Identity.eq_of_ascending hfirst.ascending hsecond.ascending
    intro i
    rw [Dictionary.mem_identities_iff, Dictionary.mem_identities_iff, hrecord]
  · exact hrecord

theorem filter_eq_of_perm (hperm : gs.Perm gs') (hnodup : (gs.map Registration.identity).Nodup)
    (i : Identity) :
    gs.filter (fun g => g.identity = i) = gs'.filter fun g => g.identity = i := by
  have hdistinct : (gs'.map Registration.identity).Nodup := (hperm.map _).nodup_iff.1 hnodup
  have hpairs {gs : List Registration} (h : (gs.map Registration.identity).Nodup) :
      (gs.filter fun g => g.identity = i).Pairwise fun g g' => g.identity ≠ g'.identity :=
    (List.pairwise_map.1 h).filter _
  refine (hperm.filter _).eq_of_pairwise ?_ (hpairs hnodup) (hpairs hdistinct)
  intro g g' hg hg' hne
  have hi := of_decide_eq_true (List.mem_filter.1 hg).2
  have hi' := of_decide_eq_true (List.mem_filter.1 hg').2
  exact absurd (hi.trans hi'.symm) hne

end Order

end Builder

theorem WellFormed.table_eq {d : Dictionary} (hd : d.WellFormed) :
    (Table.ofRecords d.records).identities = d.identities ∧
      (Table.ofRecords d.records).record? = d.record? := by
  have hnodup : (d.records.map Record.identity).Nodup :=
    Identity.nodup_of_ascending hd.ascending
  have hrecord : (Table.ofRecords d.records).record? = d.record? := by
    funext i
    exact Table.record?_ofRecords hnodup i
  refine ⟨?_, hrecord⟩
  apply Identity.eq_of_ascending (Table.pairwise_identities _) hd.ascending
  intro i
  rw [Table.mem_identities_iff, hrecord, mem_identities_iff]

/-- A call fails if a call for its signal has succeeded or its kind has no zero, and then changes
nothing. The node that is built has a record of each call that succeeded and no other, in its list
in the order of categories and subcategories, and in its table. Where the calls for each signal
come in the same order, in particular where no two calls are for one signal, the node is the
same. -/
theorem first_registration_is_kept (config : Config) :
    (∀ gs g e, ((Builder.enrolled config gs).enroll g).1 = .error e ↔ g.Refused config gs e) ∧
    (∀ gs g e, ((Builder.enrolled config gs).enroll g).1 = .error e →
      ((Builder.enrolled config gs).enroll g).2 = Builder.enrolled config gs) ∧
    (∀ gs,
      (∀ i, i ∈ (Builder.enrolled config gs).build.identities ↔
        ∃ g, Builder.Succeeds config gs g ∧ g.identity = i) ∧
      (∀ g, Builder.Succeeds config gs g →
        ∃ r, (Builder.enrolled config gs).build.record? g.identity = some r ∧
          r.descriptor = g.descriptor ∧ r.payload.kind = g.kind ∧ r.mode = g.mode) ∧
      (Builder.enrolled config gs).build.identities.Pairwise Identity.Before ∧
      (Table.ofRecords (Builder.enrolled config gs).records).identities =
        (Builder.enrolled config gs).build.identities ∧
      (Table.ofRecords (Builder.enrolled config gs).records).record? =
        (Builder.enrolled config gs).build.record?) ∧
    (∀ gs gs' : List Registration,
      (∀ i : Identity,
        gs.filter (fun g => g.identity = i) = gs'.filter fun g => g.identity = i) →
      (Builder.enrolled config gs).build = (Builder.enrolled config gs').build) ∧
    ∀ gs gs' : List Registration, gs.Perm gs' → (gs.map Registration.identity).Nodup →
      (Builder.enrolled config gs).build = (Builder.enrolled config gs').build := by
  refine ⟨fun gs g e => Builder.enroll_error_iff, fun gs g e => Builder.enroll_snd_of_error, ?_,
    fun gs gs' => Builder.build_enrolled_congr, ?_⟩
  · intro gs
    have hwf := Builder.wellFormed_enrolled config gs
    obtain ⟨hlisted, htable⟩ := hwf.table_eq
    refine ⟨?_, ?_, hwf.ascending.imp Identity.before_iff.2, hlisted, htable⟩
    · intro i
      rw [← Builder.contains_enrolled_iff, Builder.contains_eq_true_iff]
      exact List.mem_map
    · intro g hg
      obtain ⟨r, hfresh⟩ := hg.exists_record
      obtain ⟨hdescriptor, hmode, hkind⟩ := Builder.record_eq hfresh
      have hfound := hwf.record?_of_mem (Builder.mem_records_enrolled.2 ⟨g, hg, hfresh⟩)
      rw [(Builder.wellFormed_record hfresh).2] at hfound
      exact ⟨r, hfound, hdescriptor, hkind, hmode⟩
  · intro gs gs' hperm hnodup
    exact Builder.build_enrolled_congr (Builder.filter_eq_of_perm hperm hnodup)

/-- Of the sample registrations the first two succeed, for two signals, so they may be made in the
other order. -/
theorem sampleRegistrations_commute :
    ((Builder.enrolled ⟨7, ⟨0x90⟩, none⟩ (sampleRegistrations.take 2)).enroll
        ⟨⟨⟨10, 20⟩, 5⟩, .integer, .receive⟩).1 = .error (.alreadyRegistered ⟨10, 20⟩) ∧
      ((Builder.enrolled ⟨7, ⟨0x90⟩, none⟩ (sampleRegistrations.take 2)).enroll
        ⟨⟨⟨10, 20⟩, 5⟩, .integer, .receive⟩).2 =
          Builder.enrolled ⟨7, ⟨0x90⟩, none⟩ (sampleRegistrations.take 2) ∧
      (Builder.enrolled ⟨7, ⟨0x90⟩, none⟩ (sampleRegistrations.take 2)).build =
        (Builder.enrolled ⟨7, ⟨0x90⟩, none⟩ (sampleRegistrations.take 2).reverse).build := by
  obtain ⟨-, hunchanged, -, -, hperm⟩ := first_registration_is_kept ⟨7, ⟨0x90⟩, none⟩
  have herror : ((Builder.enrolled ⟨7, ⟨0x90⟩, none⟩ (sampleRegistrations.take 2)).enroll
      ⟨⟨⟨10, 20⟩, 5⟩, .integer, .receive⟩).1 = .error (.alreadyRegistered ⟨10, 20⟩) := rfl
  refine ⟨herror, hunchanged _ _ _ herror, hperm _ _ (List.reverse_perm _).symm ?_⟩
  decide

end Dictionary
end InstrumentBus
