import InstrumentBus.Proofs.Json.Keys

/-!
# Documents as they are written

A document is the tree of values that a text spells, with the items and members of each array and
object in the order in which they stand, whatever their keys. A scalar or a text in it may be at
fault; what follows a fault is not looked at. The machine that reads a document is led through the
lexemes of each part of it as through one value.
-/

namespace InstrumentBus
namespace Json

inductive Document where
  | scalar (v : Except Fault Value)
  | text (s : Except Fault String)
  | array (items : List Document)
  | object (members : List (Except Fault String × Document))

namespace Document

/-- What holds of a document as soon as it holds of its parts holds of every document. -/
@[elab_as_elim]
theorem induct {P : Document → Prop} (scalar : ∀ v, P (.scalar v)) (text : ∀ s, P (.text s))
    (array : ∀ items, (∀ w ∈ items, P w) → P (.array items))
    (object : ∀ members, (∀ m ∈ members, P m.2) → P (.object members)) : ∀ w, P w
  | .scalar v => scalar v
  | .text s => text s
  | .array items => array items fun w _ => induct scalar text array object w
  | .object members => object members fun m _ => induct scalar text array object m.2
decreasing_by
  · have hitem := List.sizeOf_lt_of_mem ‹w ∈ items›
    simp only [Document.array.sizeOf_spec]
    omega
  · have hmember := List.sizeOf_lt_of_mem ‹m ∈ members›
    obtain ⟨key, w⟩ := m
    simp only [Document.object.sizeOf_spec, Prod.mk.sizeOf_spec] at hmember ⊢
    omega

mutual

def spelling : Document → List Lexeme
  | .scalar v => [.scalar v]
  | .text s => [.text s]
  | .array [] => [.openArray, .closeArray]
  | .array (w :: ws) => .openArray :: (w.spelling ++ itemsSpelling ws)
  | .object [] => [.openObject, .closeObject]
  | .object ((key, w) :: ms) =>
    .openObject :: .text key :: .colon :: (w.spelling ++ membersSpelling ms)

def itemsSpelling : List Document → List Lexeme
  | [] => [.closeArray]
  | w :: ws => .comma :: (w.spelling ++ itemsSpelling ws)

def membersSpelling : List (Except Fault String × Document) → List Lexeme
  | [] => [.closeObject]
  | (key, w) :: ms => .comma :: .text key :: .colon :: (w.spelling ++ membersSpelling ms)

end

mutual

/-- The value of a document without faults that is not nested deeper than there is room. -/
def read (room : Nat) : Document → Option Value
  | .scalar v => v.toOption
  | .text s => s.toOption.map .text
  | .array items =>
    if room = 0 then none else (readItems (room - 1) items).map .array
  | .object members =>
    if room = 0 then none
    else (readMembers (room - 1) members).map fun members => .object (orderMembers members)

def readItems (room : Nat) : List Document → Option (List Value)
  | [] => some []
  | w :: ws => (w.read room).bind fun v => (readItems room ws).map (v :: ·)

def readMembers (room : Nat) :
    List (Except Fault String × Document) → Option (List (String × Value))
  | [] => some []
  | (key, w) :: ms => key.toOption.bind fun k => (w.read room).bind fun v =>
      (readMembers room ms).map ((k, v) :: ·)

end

end Document

def Lexeme.isFault : Lexeme → Bool
  | .text (.error _) | .scalar (.error _) => true
  | _ => false

def lexemes (text : List Char) : List Lexeme :=
  match text with
  | [] => []
  | c :: rest =>
    if isSpace c then lexemes rest
    else if (nextLexeme c rest).1.isFault then [(nextLexeme c rest).1]
    else (nextLexeme c rest).1 :: lexemes (nextLexeme c rest).2
termination_by text.length
decreasing_by
  · simp
  · have := length_nextLexeme c rest; simp only [List.length_cons]; omega

def untilFault : List Lexeme → List Lexeme
  | [] => []
  | lexeme :: rest => if lexeme.isFault then [lexeme] else lexeme :: untilFault rest

/-- A text is made of the lexemes of a document, with space between them. -/
def Spells (text : List Char) (w : Document) : Prop := lexemes text = untilFault w.spelling

/-- The state after some lexemes, if none of them is out of place or at fault. -/
def State.after? (s : State) : List Lexeme → Option State
  | [] => some s
  | lexeme :: rest => (s.step lexeme).toOption.bind fun s => s.after? rest

def State.result? : State → Option Value
  | .done v => some v
  | _ => none

section Machine

variable {s : State} {stack : List Frame} {lexeme : Lexeme} {rest : List Lexeme}

theorem toOption_step_of_isFault (h : lexeme.isFault = true) (s : State) :
    (s.step lexeme).toOption = none := by
  cases lexeme with
  | text t =>
    cases t with
    | ok t => cases h
    | error fault => cases s <;> rfl
  | scalar v =>
    cases v with
    | ok v => cases h
    | error fault => cases s <;> rfl
  | _ => cases h

theorem State.after?_untilFault (s : State) (list : List Lexeme) :
    s.after? (untilFault list) = s.after? list := by
  induction list generalizing s with
  | nil => rfl
  | cons lexeme rest ih =>
    rw [untilFault]
    split
    · next hfault => simp only [State.after?, toOption_step_of_isFault hfault, Option.bind_none]
    · simp only [State.after?, ih]

theorem toOption_parseFrom (s : State) (text : List Char) :
    (parseFrom s text).toOption = (s.after? (lexemes text)).bind State.result? := by
  fun_induction parseFrom s text with
  | case1 v => rw [lexemes]; rfl
  | case2 s hdone =>
    rw [lexemes]
    cases s with
    | done v => exact absurd rfl (hdone v)
    | _ => rfl
  | case3 s c rest hspace ih => rw [lexemes, if_pos hspace, ih]
  | case4 s c rest hspace fault hstep =>
    rw [lexemes, if_neg hspace]
    split
    · simp [State.after?, hstep, Except.toOption]
    · simp [State.after?, hstep, Except.toOption]
  | case5 s c rest hspace next hstep ih =>
    have hfault : ¬ (nextLexeme c rest).1.isFault = true := by
      intro hfault
      have hnone := toOption_step_of_isFault hfault s
      rw [hstep] at hnone
      cases hnone
    rw [lexemes, if_neg hspace, if_neg hfault, ih, State.after?, hstep]
    rfl

theorem toOption_parse (text : List Char) :
    (parse text).toOption = ((State.value []).after? (lexemes text)).bind State.result? :=
  toOption_parseFrom _ _

theorem State.after?_of_step {s' : State} (h : s.step lexeme = .ok s') :
    s.after? (lexeme :: rest) = s'.after? rest := by
  rw [State.after?, h]
  rfl

theorem State.after?_of_error {fault : Fault} (h : s.step lexeme = .error fault) :
    s.after? (lexeme :: rest) = none := by
  rw [State.after?, h]
  rfl

theorem State.after?_firstItem (h : lexeme ≠ .closeArray) :
    (State.firstItem stack).after? (lexeme :: rest) =
      (State.value (.array [] :: stack)).after? (lexeme :: rest) := by
  have hstep : (State.firstItem stack).step lexeme = State.begin (.array [] :: stack) lexeme := by
    cases lexeme with
    | closeArray => exact absurd rfl h
    | _ => rfl
  rw [State.after?, State.after?, hstep]
  rfl

theorem Document.spelling_eq_cons (w : Document) :
    ∃ lexeme rest, w.spelling = lexeme :: rest ∧ lexeme ≠ .closeArray := by
  cases w with
  | scalar v => simp [Document.spelling]
  | text t => simp [Document.spelling]
  | array items => cases items <;> simp [Document.spelling]
  | object members => cases members <;> simp [Document.spelling]

/-- The machine is led through a document as through its value, if it has one. -/
def Document.Led (w : Document) : Prop :=
  ∀ (stack : List Frame) (rest : List Lexeme),
    (State.value stack).after? (w.spelling ++ rest) =
      (w.read (maxDepth - stack.length)).bind fun v => (State.finished v stack).after? rest

theorem after?_items {ws : List Document} (hled : ∀ w ∈ ws, w.Led) (reversed : List Value)
    (stack : List Frame) (rest : List Lexeme) :
    (State.nextItem reversed stack).after? (Document.itemsSpelling ws ++ rest) =
      (Document.readItems (maxDepth - (stack.length + 1)) ws).bind fun vs =>
        (State.closeArray (vs.reverse ++ reversed) stack).after? rest := by
  induction ws generalizing reversed with
  | nil =>
    rw [Document.itemsSpelling, Document.readItems]
    exact State.after?_of_step rfl
  | cons w ws ih =>
    obtain ⟨hw, hws⟩ := List.forall_mem_cons.1 hled
    have hcomma : (State.nextItem reversed stack).step .comma =
        .ok (.value (.array reversed :: stack)) := rfl
    have hnext (v : Value) : State.finished v (.array reversed :: stack) =
        .nextItem (v :: reversed) stack := rfl
    rw [Document.itemsSpelling, List.cons_append, State.after?_of_step hcomma, List.append_assoc,
      hw, List.length_cons, Document.readItems, Option.bind_assoc]
    congr 1
    funext v
    rw [hnext, ih hws, Option.bind_map]
    simp only [Function.comp_def, List.reverse_cons, List.append_assoc, List.cons_append,
      List.nil_append]

theorem after?_member {key : Except Fault String} {w : Document} (hw : w.Led)
    (reversed : List (String × Value)) (stack : List Frame) (rest : List Lexeme) :
    (State.key reversed stack).after? (.text key :: .colon :: (w.spelling ++ rest)) =
      key.toOption.bind fun k => (w.read (maxDepth - (stack.length + 1))).bind fun v =>
        (State.nextMember ((k, v) :: reversed) stack).after? rest := by
  cases key with
  | error fault => exact State.after?_of_error rfl
  | ok k =>
    have hkey : (State.key reversed stack).step (.text (.ok k)) = .ok (.colon reversed k stack) :=
      rfl
    have hcolon : (State.colon reversed k stack).step .colon =
        .ok (.value (.object reversed k :: stack)) := rfl
    rw [State.after?_of_step hkey, State.after?_of_step hcolon, hw]
    rfl

theorem after?_members {ms : List (Except Fault String × Document)}
    (hled : ∀ m ∈ ms, m.2.Led) (reversed : List (String × Value))
    (stack : List Frame) (rest : List Lexeme) :
    (State.nextMember reversed stack).after? (Document.membersSpelling ms ++ rest) =
      (Document.readMembers (maxDepth - (stack.length + 1)) ms).bind fun vs =>
        (State.closeObject (vs.reverse ++ reversed) stack).after? rest := by
  induction ms generalizing reversed with
  | nil =>
    rw [Document.membersSpelling, Document.readMembers]
    exact State.after?_of_step rfl
  | cons m ms ih =>
    obtain ⟨key, w⟩ := m
    obtain ⟨hw, hms⟩ := List.forall_mem_cons.1 hled
    have hcomma : (State.nextMember reversed stack).step .comma = .ok (.key reversed stack) := rfl
    rw [Document.membersSpelling, List.cons_append, State.after?_of_step hcomma, List.cons_append,
      List.cons_append, List.append_assoc, after?_member hw, Document.readMembers,
      Option.bind_assoc]
    congr 1
    funext k
    rw [Option.bind_assoc]
    congr 1
    funext v
    rw [ih hms, Option.bind_map]
    simp only [Function.comp_def, List.reverse_cons, List.append_assoc, List.cons_append,
      List.nil_append]

theorem after?_of_full (hroom : maxDepth ≤ stack.length) (items : List Document)
    (members : List (Except Fault String × Document)) (rest : List Lexeme) :
    (State.value stack).after? ((Document.array items).spelling ++ rest) = none ∧
      (State.value stack).after? ((Document.object members).spelling ++ rest) = none ∧
      (Document.array items).read (maxDepth - stack.length) = none ∧
      (Document.object members).read (maxDepth - stack.length) = none := by
  have harray : (State.value stack).step .openArray = .error .malformed := if_pos hroom
  have hobject : (State.value stack).step .openObject = .error .malformed := if_pos hroom
  have hnone := Nat.sub_eq_zero_of_le hroom
  refine ⟨?_, ?_, ?_, ?_⟩
  · cases items with
    | nil => exact State.after?_of_error harray
    | cons w ws => exact State.after?_of_error harray
  · cases members with
    | nil => exact State.after?_of_error hobject
    | cons m ms => exact State.after?_of_error hobject
  · rw [Document.read, if_pos hnone]
  · rw [Document.read, if_pos hnone]

theorem Document.read_array_of_room (hroom : stack.length < maxDepth) (items : List Document) :
    (array items).read (maxDepth - stack.length) =
      (readItems (maxDepth - (stack.length + 1)) items).map .array := by
  rw [read, if_neg (Nat.sub_ne_zero_of_lt hroom), Nat.sub_sub]

theorem Document.read_object_of_room (hroom : stack.length < maxDepth)
    (members : List (Except Fault String × Document)) :
    (object members).read (maxDepth - stack.length) =
      (readMembers (maxDepth - (stack.length + 1)) members).map
        fun members => .object (orderMembers members) := by
  rw [read, if_neg (Nat.sub_ne_zero_of_lt hroom), Nat.sub_sub]

theorem State.step_openArray_of_room (hroom : stack.length < maxDepth) :
    (State.value stack).step .openArray = .ok (.firstItem stack) := if_neg (Nat.not_le.2 hroom)

theorem State.step_openObject_of_room (hroom : stack.length < maxDepth) :
    (State.value stack).step .openObject = .ok (.firstKey stack) := if_neg (Nat.not_le.2 hroom)

theorem after?_array {items : List Document} (hled : ∀ w ∈ items, w.Led)
    (hroom : stack.length < maxDepth) (rest : List Lexeme) :
    (State.value stack).after? ((Document.array items).spelling ++ rest) =
      ((Document.array items).read (maxDepth - stack.length)).bind fun v =>
        (State.finished v stack).after? rest := by
  have hopen := State.step_openArray_of_room hroom
  rw [Document.read_array_of_room hroom]
  cases items with
  | nil =>
    rw [Document.spelling, List.cons_append, State.after?_of_step hopen, Document.readItems]
    exact State.after?_of_step rfl
  | cons w ws =>
    obtain ⟨hw, hws⟩ := List.forall_mem_cons.1 hled
    obtain ⟨first, more, hfirst, hne⟩ := w.spelling_eq_cons
    have hinside : (State.firstItem stack).after?
          (w.spelling ++ (Document.itemsSpelling ws ++ rest)) =
        (State.value (.array [] :: stack)).after?
          (w.spelling ++ (Document.itemsSpelling ws ++ rest)) := by
      rw [hfirst]
      exact State.after?_firstItem hne
    have hnext (v : Value) : State.finished v (.array [] :: stack) = .nextItem [v] stack := rfl
    rw [Document.spelling, List.cons_append, State.after?_of_step hopen, List.append_assoc,
      hinside, hw, List.length_cons, Document.readItems, Option.bind_map, Option.bind_assoc]
    congr 1
    funext v
    rw [hnext, after?_items hws, Option.bind_map]
    simp [Function.comp_def, State.closeArray]

theorem after?_object {members : List (Except Fault String × Document)}
    (hled : ∀ m ∈ members, m.2.Led) (hroom : stack.length < maxDepth) (rest : List Lexeme) :
    (State.value stack).after? ((Document.object members).spelling ++ rest) =
      ((Document.object members).read (maxDepth - stack.length)).bind fun v =>
        (State.finished v stack).after? rest := by
  have hopen := State.step_openObject_of_room hroom
  rw [Document.read_object_of_room hroom]
  cases members with
  | nil =>
    rw [Document.spelling, List.cons_append, State.after?_of_step hopen, Document.readMembers]
    exact State.after?_of_step rfl
  | cons m ms =>
    obtain ⟨key, w⟩ := m
    obtain ⟨hw, hms⟩ := List.forall_mem_cons.1 hled
    have hinside (list : List Lexeme) : (State.firstKey stack).after? (.text key :: list) =
        (State.key [] stack).after? (.text key :: list) := rfl
    rw [Document.spelling, List.cons_append, State.after?_of_step hopen, List.cons_append,
      hinside, List.cons_append, List.append_assoc, after?_member hw, Document.readMembers,
      Option.bind_map, Option.bind_assoc]
    congr 1
    funext k
    rw [Option.bind_assoc]
    congr 1
    funext v
    rw [after?_members hms, Option.bind_map]
    simp [Function.comp_def, State.closeObject]

theorem Document.led (w : Document) : w.Led := by
  induction w using Document.induct with
  | scalar v =>
    intro stack rest
    cases v with
    | error fault => exact State.after?_of_error rfl
    | ok v => exact State.after?_of_step rfl
  | text t =>
    intro stack rest
    cases t with
    | error fault => exact State.after?_of_error rfl
    | ok t => exact State.after?_of_step rfl
  | array items ih =>
    intro stack rest
    by_cases hroom : stack.length < maxDepth
    · exact after?_array ih hroom rest
    · obtain ⟨hstuck, -, hread, -⟩ := after?_of_full (Nat.le_of_not_lt hroom) items [] rest
      rw [hstuck, hread, Option.bind_none]
  | object members ih =>
    intro stack rest
    by_cases hroom : stack.length < maxDepth
    · exact after?_object ih hroom rest
    · obtain ⟨-, hstuck, -, hread⟩ := after?_of_full (Nat.le_of_not_lt hroom) [] members rest
      rw [hstuck, hread, Option.bind_none]

theorem Spells.toOption_parse {text : List Char} {w : Document} (h : Spells text w) :
    (parse text).toOption = w.read maxDepth := by
  have hled := w.led [] []
  rw [List.append_nil] at hled
  rw [Json.toOption_parse, h, State.after?_untilFault, hled, Option.bind_assoc]
  exact Option.bind_fun_some (w.read maxDepth)

end Machine

section Spelled

variable {list : List Lexeme}

theorem State.after?_cons_eq_some_iff {s t : State} {lexeme : Lexeme} :
    s.after? (lexeme :: list) = some t ↔
      ∃ s', s.step lexeme = .ok s' ∧ s'.after? list = some t := by
  rw [State.after?]
  cases s.step lexeme with
  | error fault => simp [Except.toOption]
  | ok s' => simp [Except.toOption]

/-- Lexemes that lead from the place of a value to the end spell a document first. -/
def ValueFirst (list : List Lexeme) : Prop :=
  ∀ stack v, (State.value stack).after? list = some (.done v) →
    ∃ (w : Document) (x : Value) (rest : List Lexeme), list = w.spelling ++ rest ∧
      w.read (maxDepth - stack.length) = some x ∧
      (State.finished x stack).after? rest = some (.done v)

def ItemsFirst (list : List Lexeme) : Prop :=
  ∀ reversed stack v, (State.nextItem reversed stack).after? list = some (.done v) →
    ∃ ws xs rest, list = Document.itemsSpelling ws ++ rest ∧
      Document.readItems (maxDepth - (stack.length + 1)) ws = some xs ∧
      (State.closeArray (xs.reverse ++ reversed) stack).after? rest = some (.done v)

def MembersFirst (list : List Lexeme) : Prop :=
  ∀ reversed stack v, (State.nextMember reversed stack).after? list = some (.done v) →
    ∃ ms xs rest, list = Document.membersSpelling ms ++ rest ∧
      Document.readMembers (maxDepth - (stack.length + 1)) ms = some xs ∧
      (State.closeObject (xs.reverse ++ reversed) stack).after? rest = some (.done v)

theorem Document.length_lt_of_spelling {w : Document} {rest : List Lexeme}
    (h : list = w.spelling ++ rest) : rest.length < list.length := by
  obtain ⟨first, more, hfirst, -⟩ := w.spelling_eq_cons
  rw [h, hfirst, List.cons_append, List.length_cons, List.length_append]
  omega

theorem itemsFirst_step
    (ih : ∀ shorter : List Lexeme, shorter.length < list.length →
      ValueFirst shorter ∧ ItemsFirst shorter) : ItemsFirst list := by
  intro reversed stack v h
  cases list with
  | nil => simp [State.after?] at h
  | cons lexeme rest =>
    obtain ⟨s, hstep, h⟩ := State.after?_cons_eq_some_iff.1 h
    cases lexeme with
    | closeArray =>
      cases hstep
      exact ⟨[], [], rest, rfl, rfl, h⟩
    | comma =>
      cases hstep
      obtain ⟨w, x, rest₁, heq₁, hread, h⟩ := (ih rest (by simp)).1 _ v h
      have hshorter := Document.length_lt_of_spelling heq₁
      obtain ⟨ws, xs, rest₂, heq₂, hreads, h⟩ :=
        (ih rest₁ (by rw [List.length_cons]; omega)).2 _ _ v h
      refine ⟨w :: ws, x :: xs, rest₂, ?_, ?_, ?_⟩
      · rw [heq₁, heq₂, Document.itemsSpelling, List.cons_append, List.append_assoc]
      · rw [List.length_cons] at hread
        rw [Document.readItems, hread, hreads]
        rfl
      · rwa [List.reverse_cons, List.append_assoc]
    | _ => cases hstep

theorem memberFirst {reversed : List (String × Value)} {stack : List Frame} {v : Value}
    (ih : ∀ shorter : List Lexeme, shorter.length < list.length → ValueFirst shorter)
    (h : (State.key reversed stack).after? list = some (.done v)) :
    ∃ (k : String) (w : Document) (x : Value) (rest : List Lexeme),
      list = .text (.ok k) :: .colon :: (w.spelling ++ rest) ∧
      w.read (maxDepth - (stack.length + 1)) = some x ∧
      (State.nextMember ((k, x) :: reversed) stack).after? rest = some (.done v) := by
  cases list with
  | nil => simp [State.after?] at h
  | cons lexeme rest =>
    obtain ⟨s, hkey, h⟩ := State.after?_cons_eq_some_iff.1 h
    cases lexeme with
    | text t =>
      cases t with
      | error fault => cases hkey
      | ok k =>
        cases hkey
        cases rest with
        | nil => simp [State.after?] at h
        | cons lexeme rest =>
          obtain ⟨s, hcolon, h⟩ := State.after?_cons_eq_some_iff.1 h
          cases lexeme with
          | colon =>
            cases hcolon
            obtain ⟨w, x, rest, rfl, hread, h⟩ :=
              ih rest (by simp only [List.length_cons]; omega) _ v h
            exact ⟨k, w, x, rest, rfl, hread, h⟩
          | _ => cases hcolon
    | _ => cases hkey

theorem membersFirst_step
    (ih : ∀ shorter : List Lexeme, shorter.length < list.length →
      ValueFirst shorter ∧ MembersFirst shorter) : MembersFirst list := by
  intro reversed stack v h
  cases list with
  | nil => simp [State.after?] at h
  | cons lexeme rest =>
    obtain ⟨s, hstep, h⟩ := State.after?_cons_eq_some_iff.1 h
    cases lexeme with
    | closeObject =>
      cases hstep
      exact ⟨[], [], rest, rfl, rfl, h⟩
    | comma =>
      cases hstep
      obtain ⟨k, w, x, rest₁, rfl, hread, h⟩ :=
        memberFirst (fun shorter hlt => (ih shorter (by rw [List.length_cons]; omega)).1) h
      obtain ⟨ms, xs, rest₂, rfl, hreads, h⟩ :=
        (ih rest₁ (by simp only [List.length_cons, List.length_append]; omega)).2 _ _ v h
      refine ⟨(.ok k, w) :: ms, (k, x) :: xs, rest₂, ?_, ?_, ?_⟩
      · simp only [Document.membersSpelling, List.cons_append, List.append_assoc]
      · rw [Document.readMembers, hread, hreads]
        rfl
      · rwa [List.reverse_cons, List.append_assoc]
    | _ => cases hstep

theorem arrayFirst {stack : List Frame} {v : Value} (hroom : stack.length < maxDepth)
    (ih : ∀ shorter : List Lexeme, shorter.length ≤ list.length →
      ValueFirst shorter ∧ ItemsFirst shorter)
    (h : (State.firstItem stack).after? list = some (.done v)) :
    ∃ (ws : List Document) (x : Value) (rest : List Lexeme),
      .openArray :: list = (Document.array ws).spelling ++ rest ∧
      (Document.array ws).read (maxDepth - stack.length) = some x ∧
      (State.finished x stack).after? rest = some (.done v) := by
  cases list with
  | nil => simp [State.after?] at h
  | cons first more =>
    by_cases hclose : first = .closeArray
    · subst hclose
      exact ⟨[], .array [], more, rfl, Document.read_array_of_room hroom [], h⟩
    · rw [State.after?_firstItem hclose] at h
      obtain ⟨w, x, rest₁, heq, hx, h⟩ := (ih (first :: more) (Nat.le_refl _)).1 _ v h
      have hshorter := Document.length_lt_of_spelling heq
      obtain ⟨ws, xs, rest₂, rfl, hxs, h⟩ := (ih rest₁ (Nat.le_of_lt hshorter)).2 _ _ v h
      rw [List.length_cons] at hx
      refine ⟨w :: ws, .array (x :: xs), rest₂, ?_, ?_, ?_⟩
      · rw [heq, Document.spelling, List.cons_append, List.append_assoc]
      · rw [Document.read_array_of_room hroom, Document.readItems, hx, hxs]
        rfl
      · simpa [State.closeArray] using h

theorem objectFirst {stack : List Frame} {v : Value} (hroom : stack.length < maxDepth)
    (ih : ∀ shorter : List Lexeme, shorter.length ≤ list.length →
      ValueFirst shorter ∧ MembersFirst shorter)
    (h : (State.firstKey stack).after? list = some (.done v)) :
    ∃ (ms : List (Except Fault String × Document)) (x : Value) (rest : List Lexeme),
      .openObject :: list = (Document.object ms).spelling ++ rest ∧
      (Document.object ms).read (maxDepth - stack.length) = some x ∧
      (State.finished x stack).after? rest = some (.done v) := by
  cases list with
  | nil => simp [State.after?] at h
  | cons first more =>
    by_cases hclose : first = .closeObject
    · subst hclose
      exact ⟨[], .object [], more, rfl, Document.read_object_of_room hroom [], h⟩
    · have hkey : (State.key [] stack).after? (first :: more) = some (.done v) := by
        cases first with
        | closeObject => exact absurd rfl hclose
        | _ => exact h
      obtain ⟨k, w, x, rest₁, heq, hx, h⟩ :=
        memberFirst (fun shorter hlt => (ih shorter (Nat.le_of_lt hlt)).1) hkey
      have hshorter := congrArg List.length heq
      simp only [List.length_cons, List.length_append] at hshorter
      obtain ⟨ms, xs, rest₂, rfl, hxs, h⟩ :=
        (ih rest₁ (by simp only [List.length_cons]; omega)).2 _ _ v h
      refine ⟨(.ok k, w) :: ms, .object (orderMembers ((k, x) :: xs)), rest₂, ?_, ?_, ?_⟩
      · rw [heq]
        simp only [Document.spelling, List.cons_append, List.append_assoc]
      · rw [Document.read_object_of_room hroom, Document.readMembers, hx, hxs]
        rfl
      · simpa [State.closeObject] using h

theorem valueFirst_step
    (ih : ∀ shorter : List Lexeme, shorter.length < list.length →
      ValueFirst shorter ∧ ItemsFirst shorter ∧ MembersFirst shorter) : ValueFirst list := by
  intro stack v h
  cases list with
  | nil => simp [State.after?] at h
  | cons lexeme rest =>
    obtain ⟨s, hstep, h⟩ := State.after?_cons_eq_some_iff.1 h
    have hinside : ∀ shorter : List Lexeme, shorter.length ≤ rest.length →
        ValueFirst shorter ∧ ItemsFirst shorter ∧ MembersFirst shorter :=
      fun shorter hle => ih shorter (Nat.lt_succ_of_le hle)
    cases lexeme with
    | text t =>
      cases t with
      | error fault => cases hstep
      | ok t =>
        cases hstep
        exact ⟨.text (.ok t), .text t, rest, rfl, rfl, h⟩
    | scalar x =>
      cases x with
      | error fault => cases hstep
      | ok x =>
        cases hstep
        exact ⟨.scalar (.ok x), x, rest, rfl, rfl, h⟩
    | openArray =>
      by_cases hroom : stack.length < maxDepth
      · cases (State.step_openArray_of_room hroom).symm.trans hstep
        obtain ⟨ws, hws⟩ := arrayFirst hroom
          (fun shorter hle => ⟨(hinside shorter hle).1, (hinside shorter hle).2.1⟩) h
        exact ⟨.array ws, hws⟩
      · cases (if_pos (Nat.le_of_not_lt hroom)).symm.trans hstep
    | openObject =>
      by_cases hroom : stack.length < maxDepth
      · cases (State.step_openObject_of_room hroom).symm.trans hstep
        obtain ⟨ms, hms⟩ := objectFirst hroom
          (fun shorter hle => ⟨(hinside shorter hle).1, (hinside shorter hle).2.2⟩) h
        exact ⟨.object ms, hms⟩
      · cases (if_pos (Nat.le_of_not_lt hroom)).symm.trans hstep
    | _ => cases hstep

theorem first (list : List Lexeme) : ValueFirst list ∧ ItemsFirst list ∧ MembersFirst list := by
  induction hlength : list.length using Nat.strongRecOn generalizing list with
  | _ n ih =>
    subst hlength
    have hshorter : ∀ shorter : List Lexeme, shorter.length < list.length →
        ValueFirst shorter ∧ ItemsFirst shorter ∧ MembersFirst shorter :=
      fun shorter hlt => ih _ hlt shorter rfl
    exact ⟨valueFirst_step hshorter,
      itemsFirst_step fun shorter hlt => ⟨(hshorter shorter hlt).1, (hshorter shorter hlt).2.1⟩,
      membersFirst_step fun shorter hlt => ⟨(hshorter shorter hlt).1, (hshorter shorter hlt).2.2⟩⟩

theorem untilFault_of_after? {s t : State} (h : s.after? list = some t) :
    untilFault list = list := by
  induction list generalizing s with
  | nil => rfl
  | cons lexeme rest ih =>
    obtain ⟨s', hstep, h⟩ := State.after?_cons_eq_some_iff.1 h
    have hsound : ¬ lexeme.isFault = true := by
      intro hfault
      have hnone := toOption_step_of_isFault hfault s
      rw [hstep] at hnone
      cases hnone
    rw [untilFault, if_neg hsound, ih h]

/-- A text that is read spells a document. -/
theorem exists_document_of_parse {text : List Char} {v : Value} (h : parse text = .ok v) :
    ∃ w, Spells text w ∧ w.read maxDepth = some v := by
  have hparse := toOption_parse text
  rw [h] at hparse
  obtain ⟨s, hafter, hresult⟩ := Option.bind_eq_some_iff.1 hparse.symm
  cases s with
  | done v' =>
    cases hresult
    obtain ⟨w, x, rest, hspelled, hread, hrest⟩ := (first (lexemes text)).1 [] v hafter
    have hw := untilFault_of_after? hafter
    cases rest with
    | nil =>
      cases hrest
      rw [List.append_nil] at hspelled
      rw [hspelled] at hw
      exact ⟨w, hspelled.trans hw.symm, hread⟩
    | cons lexeme rest =>
      obtain ⟨s', hstep, -⟩ := State.after?_cons_eq_some_iff.1 hrest
      cases hstep
  | _ => cases hresult

/-- What is read of a text is the value of the document that it spells. -/
theorem parse_eq_ok_iff {text : List Char} {v : Value} :
    parse text = .ok v ↔ ∃ w, Spells text w ∧ w.read maxDepth = some v := by
  constructor
  · exact exists_document_of_parse
  · rintro ⟨w, hw, hread⟩
    rw [← hw.toOption_parse] at hread
    cases hparse : parse text with
    | error fault =>
      rw [hparse] at hread
      cases hread
    | ok v' =>
      rw [hparse] at hread
      cases hread
      rfl

end Spelled

end Json
end InstrumentBus
