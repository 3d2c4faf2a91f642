import InstrumentBus.Json.Parser
import Mathlib.Data.List.Nodup

/-!
# Keys of objects

An object in a document that was read has every key once, however often it is written: members
are put at their places in ascending order of keys, and a member takes the place of the one with
its key. The machine that reads a document carries this along with the containers still open.
-/

namespace InstrumentBus
namespace Json

/-- No object in a value has two members of one key. -/
inductive Value.Keyed : Value → Prop where
  | null : Keyed .null
  | bool (b : Bool) : Keyed (.bool b)
  | number (n : Number) : Keyed (.number n)
  | text (s : String) : Keyed (.text s)
  | array {items : List Value} (h : ∀ v ∈ items, Keyed v) : Keyed (.array items)
  | object {members : List (String × Value)} (hkeys : (members.map Prod.fst).Nodup)
      (h : ∀ m ∈ members, Keyed m.2) : Keyed (.object members)

theorem keyed_array_iff {items : List Value} :
    (Value.array items).Keyed ↔ ∀ v ∈ items, v.Keyed := by
  constructor
  · intro h
    cases h with
    | array h => exact h
  · exact .array

theorem keyed_object_iff {members : List (String × Value)} :
    (Value.object members).Keyed ↔
      (members.map Prod.fst).Nodup ∧ ∀ m ∈ members, m.2.Keyed := by
  constructor
  · intro h
    cases h with
    | object hkeys h => exact ⟨hkeys, h⟩
  · rintro ⟨hkeys, h⟩
    exact .object hkeys h

theorem find?_of_mem {α : Type} {entries : List (String × α)} {entry : String × α}
    (hkeys : (entries.map Prod.fst).Nodup) (h : entry ∈ entries) :
    entries.find? (·.1 == entry.1) = some entry := by
  induction entries with
  | nil => exact absurd h List.not_mem_nil
  | cons first rest ih =>
    obtain ⟨hfirst, hrest⟩ := List.nodup_cons.1 hkeys
    rcases List.mem_cons.1 h with rfl | h
    · simp
    · have hne : (first.1 == entry.1) = false := by
        apply beq_false_of_ne
        intro heq
        exact hfirst (heq ▸ List.mem_map_of_mem h)
      rw [List.find?_cons, hne]
      exact ih hrest h

section Members

variable {key : String} {value : Value} {members : List (String × Value)}

theorem member?_of_mem {m : String × Value} (hkeys : (members.map Prod.fst).Nodup)
    (hm : m ∈ members) : member? m.1 members = some m.2 := by
  rw [member?, find?_of_mem hkeys hm, Option.map_some]

theorem mem_of_member? (h : member? key members = some value) : (key, value) ∈ members := by
  obtain ⟨m, hm, rfl⟩ := Option.map_eq_some_iff.1 h
  have hkey := List.find?_some (p := fun m : String × Value => m.1 == key) hm
  rw [← beq_iff_eq.1 hkey]
  exact List.mem_of_find?_eq_some hm

theorem mem_insertMember {m : String × Value} (h : m ∈ insertMember key value members) :
    m = (key, value) ∨ m ∈ members := by
  induction members with
  | nil => exact Or.inl (List.mem_singleton.1 h)
  | cons first rest ih =>
    unfold insertMember at h
    split at h
    · rcases List.mem_cons.1 h with h | h
      · exact Or.inl h
      · exact Or.inr (List.mem_cons_of_mem _ h)
    · split at h
      · exact List.mem_cons.1 h
      · rcases List.mem_cons.1 h with rfl | h
        · exact Or.inr List.mem_cons_self
        · rcases ih h with h | h
          · exact Or.inl h
          · exact Or.inr (List.mem_cons_of_mem _ h)

theorem mem_keys_insertMember {k : String}
    (h : k ∈ (insertMember key value members).map Prod.fst) :
    k = key ∨ k ∈ members.map Prod.fst := by
  obtain ⟨m, hm, rfl⟩ := List.mem_map.1 h
  rcases mem_insertMember hm with rfl | hm
  · exact Or.inl rfl
  · exact Or.inr (List.mem_map_of_mem hm)

theorem pairwise_insertMember (h : (members.map Prod.fst).Pairwise (· < ·)) :
    ((insertMember key value members).map Prod.fst).Pairwise (· < ·) := by
  induction members with
  | nil => simp [insertMember]
  | cons first rest ih =>
    obtain ⟨hfirst, hrest⟩ := List.pairwise_cons.1 h
    unfold insertMember
    split
    · next heq =>
      subst heq
      exact h
    · next hne =>
      split
      · next hlt =>
        refine List.pairwise_cons.2 ⟨?_, h⟩
        intro k hk
        rcases List.mem_cons.1 hk with rfl | hk
        · exact hlt
        · exact String.lt_trans hlt (hfirst k hk)
      · next hle =>
        refine List.pairwise_cons.2 ⟨?_, ih hrest⟩
        intro k hk
        rcases mem_keys_insertMember hk with rfl | hk
        · exact Std.lt_of_le_of_ne (Std.not_lt.1 hle) (Ne.symm hne)
        · exact hfirst k hk

theorem orderMembers_preserves {P : List (String × Value) → Prop} (hnil : P [])
    (hinsert : ∀ m ∈ members, ∀ ordered, P ordered → P (insertMember m.1 m.2 ordered)) :
    P (orderMembers members) :=
  List.foldlRecOn members _ hnil fun ordered h m hm => hinsert m hm ordered h

theorem pairwise_orderMembers (members : List (String × Value)) :
    ((orderMembers members).map Prod.fst).Pairwise (· < ·) := by
  apply orderMembers_preserves (P := fun ordered => (ordered.map Prod.fst).Pairwise (· < ·))
  · exact List.Pairwise.nil
  · intro m _ ordered h
    exact pairwise_insertMember h

theorem mem_orderMembers {m : String × Value} (h : m ∈ orderMembers members) : m ∈ members := by
  revert h
  apply orderMembers_preserves (P := fun ordered => m ∈ ordered → m ∈ members)
  · intro h
    exact absurd h List.not_mem_nil
  · intro first hfirst ordered ih h
    rcases mem_insertMember h with rfl | h
    · exact hfirst
    · exact ih h

theorem Value.Keyed.orderMembers (h : ∀ m ∈ members, m.2.Keyed) :
    (Value.object (orderMembers members)).Keyed := by
  refine .object ?_ ?_
  · apply (pairwise_orderMembers members).imp
    rintro a _ hlt rfl
    exact String.lt_irrefl _ hlt
  · intro m hm
    exact h m (mem_orderMembers hm)

end Members

section Reading

variable {stack : List Frame} {lexeme : Lexeme} {s s' : State}

def Lexeme.Keyed (lexeme : Lexeme) : Prop := ∀ v, lexeme = .scalar (.ok v) → v.Keyed

theorem scanWord_keyed {value : Value} {word text rest : List Char} {v : Value}
    (hvalue : value.Keyed) (h : scanWord value word text = (.ok v, rest)) : v.Keyed := by
  fun_induction scanWord value word text with
  | case1 => cases h; exact hvalue
  | case2 => cases h
  | case3 word text w ih => exact ih h
  | case4 => cases h

theorem wordLexeme_keyed {value : Value} (hvalue : value.Keyed) (word text : List Char) :
    (wordLexeme (scanWord value word text)).1.Keyed := by
  intro v h
  exact scanWord_keyed hvalue (Prod.ext (Lexeme.scalar.inj h) rfl)

theorem numberLexeme_keyed (r : Except Fault Number × List Char) :
    (numberLexeme r).1.Keyed := by
  intro v h
  obtain ⟨result, rest⟩ := r
  cases result with
  | error fault => cases h
  | ok n =>
    cases h
    exact .number n

theorem punctuation?_keyed {c : Char} (h : punctuation? c = some lexeme) : lexeme.Keyed := by
  intro v hv
  subst hv
  unfold punctuation? at h
  repeat' split at h
  all_goals cases h

theorem nextLexeme_keyed (c : Char) (rest : List Char) : (nextLexeme c rest).1.Keyed := by
  unfold nextLexeme
  split
  · next lexeme hlexeme => exact punctuation?_keyed hlexeme
  · split
    · intro v h
      cases h
    · split
      · exact wordLexeme_keyed .null _ _
      · split
        · exact wordLexeme_keyed (.bool true) _ _
        · split
          · exact wordLexeme_keyed (.bool false) _ _
          · split
            · exact numberLexeme_keyed _
            · split
              · exact numberLexeme_keyed _
              · intro v h
                cases h

def Frame.Keyed : Frame → Prop
  | .array reversed => ∀ v ∈ reversed, v.Keyed
  | .object reversed _ => ∀ m ∈ reversed, m.2.Keyed

/-- What the machine holds: the values and members read so far and the containers around them. -/
def State.Keyed : State → Prop
  | .value stack | .firstItem stack | .firstKey stack => ∀ f ∈ stack, f.Keyed
  | .nextItem reversed stack => (∀ v ∈ reversed, v.Keyed) ∧ ∀ f ∈ stack, f.Keyed
  | .key reversed stack | .colon reversed _ stack | .nextMember reversed stack =>
    (∀ m ∈ reversed, m.2.Keyed) ∧ ∀ f ∈ stack, f.Keyed
  | .done v => v.Keyed

theorem State.Keyed.finished {v : Value} (hv : v.Keyed) (hstack : ∀ f ∈ stack, f.Keyed) :
    (State.finished v stack).Keyed := by
  cases stack with
  | nil => exact hv
  | cons frame rest =>
    obtain ⟨hframe, hrest⟩ := List.forall_mem_cons.1 hstack
    cases frame with
    | array reversed => exact ⟨List.forall_mem_cons.2 ⟨hv, hframe⟩, hrest⟩
    | object reversed name => exact ⟨List.forall_mem_cons.2 ⟨hv, hframe⟩, hrest⟩

theorem State.Keyed.begin (hlexeme : lexeme.Keyed) (hstack : ∀ f ∈ stack, f.Keyed)
    (h : State.begin stack lexeme = .ok s) : s.Keyed := by
  cases lexeme with
  | openArray =>
    simp only [State.begin] at h
    split at h
    · cases h
    · cases h
      exact hstack
  | openObject =>
    simp only [State.begin] at h
    split at h
    · cases h
    · cases h
      exact hstack
  | text t =>
    cases t with
    | error fault => cases h
    | ok t =>
      cases h
      exact .finished (.text t) hstack
  | scalar v =>
    cases v with
    | error fault => cases h
    | ok v =>
      cases h
      exact .finished (hlexeme v rfl) hstack
  | _ => cases h

theorem State.Keyed.beginKey {reversed : List (String × Value)}
    (hmembers : ∀ m ∈ reversed, m.2.Keyed) (hstack : ∀ f ∈ stack, f.Keyed)
    (h : State.beginKey reversed stack lexeme = .ok s) : s.Keyed := by
  cases lexeme with
  | text t =>
    cases t with
    | error fault => cases h
    | ok t =>
      cases h
      exact ⟨hmembers, hstack⟩
  | _ => cases h

theorem State.Keyed.closeArray {reversed : List Value} (hitems : ∀ v ∈ reversed, v.Keyed)
    (hstack : ∀ f ∈ stack, f.Keyed) : (State.closeArray reversed stack).Keyed := by
  refine .finished (.array ?_) hstack
  intro v hv
  exact hitems v (List.mem_reverse.1 hv)

theorem State.Keyed.closeObject {reversed : List (String × Value)}
    (hmembers : ∀ m ∈ reversed, m.2.Keyed) (hstack : ∀ f ∈ stack, f.Keyed) :
    (State.closeObject reversed stack).Keyed := by
  refine .finished (.orderMembers ?_) hstack
  intro m hm
  exact hmembers m (List.mem_reverse.1 hm)

theorem State.Keyed.step (hs : s.Keyed) (hlexeme : lexeme.Keyed)
    (h : s.step lexeme = .ok s') : s'.Keyed := by
  fun_cases State.step s lexeme with
  | case1 stack lexeme => exact .begin hlexeme hs h
  | case2 stack =>
    cases h
    exact .closeArray (List.forall_mem_nil _) hs
  | case3 stack lexeme =>
    have hopen : ∀ f ∈ Frame.array [] :: stack, f.Keyed :=
      List.forall_mem_cons.2 ⟨List.forall_mem_nil _, hs⟩
    simp only [State.step] at h
    exact .begin hlexeme hopen h
  | case4 reversed stack =>
    cases h
    exact .closeArray hs.1 hs.2
  | case5 reversed stack =>
    cases h
    exact List.forall_mem_cons.2 hs
  | case6 stack =>
    cases h
    exact .closeObject (List.forall_mem_nil _) hs
  | case7 stack lexeme =>
    simp only [State.step] at h
    exact .beginKey (List.forall_mem_nil _) hs h
  | case8 reversed stack lexeme => exact .beginKey hs.1 hs.2 h
  | case9 reversed name stack =>
    cases h
    exact List.forall_mem_cons.2 hs
  | case10 reversed stack =>
    cases h
    exact .closeObject hs.1 hs.2
  | case11 reversed stack =>
    cases h
    exact hs
  | case12 =>
    simp only [State.step] at h
    cases h

theorem parseFrom_keyed {text : List Char} {v : Value} (hs : s.Keyed)
    (h : parseFrom s text = .ok v) : v.Keyed := by
  fun_induction parseFrom s text with
  | case1 w =>
    cases h
    exact hs
  | case2 => cases h
  | case3 s c rest hspace ih => exact ih hs h
  | case4 => cases h
  | case5 s c rest hspace next hstep ih =>
    exact ih (.step hs (nextLexeme_keyed c rest) hstep) h

theorem parse_keyed {text : List Char} {v : Value} (h : parse text = .ok v) : v.Keyed := by
  have hstart : (State.value []).Keyed := List.forall_mem_nil _
  exact parseFrom_keyed hstart h

end Reading

end Json
end InstrumentBus
