import InstrumentBus.Command.ReplayLog
import InstrumentBus.Proofs.Text.Hex

/-!
# Logs written and read

The layout of a log is free: margins, comments, blank lines, either break, digits in either case and
separators between them. However a log is written down, its entries are read back, each under the
number of its line. A log is refused for the first line that says neither nothing nor an entry.
-/

namespace InstrumentBus
namespace Command

open Text

/-- Blanks that do not end a line. -/
structure Margin (text : List Char) : Prop where
  blank : ∀ c ∈ text, isBlank c = true
  unbroken : '\n' ∉ text

inductive Comment : List Char → Prop where
  | none : Comment []
  | some {text : List Char} (h : '\n' ∉ text) : Comment ('#' :: text)

/-- A line without its break, and the entry it says if it says any. -/
inductive Says : Option (UInt32 × List UInt8) → List Char → Prop where
  | nothing {margin comment : List Char} (hmargin : Margin margin) (hcomment : Comment comment) :
      Says none (margin ++ comment)
  | entry {time : UInt32} {bytes : List UInt8} {margin word gap mark digits comment : List Char}
      (hmargin : Margin margin) (hword : Numeral.Spells 10 time.toNat word) (hgap : Margin gap)
      (hwide : gap ≠ []) (hmark : Hex.Mark mark)
      (hdigits : Hex.Spells bytes (digits.filter Hex.counts)) (hline : '\n' ∉ digits)
      (hfilled : bytes ≠ []) (hcomment : Comment comment) :
      Says (some (time, bytes)) (margin ++ word ++ gap ++ mark ++ digits ++ comment)

inductive Break : List Char → Prop where
  | lineFeed : Break ['\n']
  | carriageReturn : Break ['\r', '\n']

/-- A log line by line. There may be a break behind the last line or not. -/
inductive Log : List (Option (UInt32 × List UInt8)) → List Char → Prop where
  | nil : Log [] []
  | last {said : Option (UInt32 × List UInt8)} {line : List Char} (h : Says said line) :
      Log [said] line
  | cons {said : Option (UInt32 × List UInt8)} {line ending : List Char}
      {others : List (Option (UInt32 × List UInt8))} {rest : List Char} (h : Says said line)
      (hending : Break ending) (hrest : Log others rest) :
      Log (said :: others) (line ++ ending ++ rest)

def numbered (line : Nat) (said : List (Option (UInt32 × List UInt8))) : List LogEntry :=
  (said.zipIdx line).filterMap fun p => p.1.map fun entry => ⟨p.2, entry.1, entry.2⟩

/-- A line that says something, but no entry. -/
inductive Malformed (line : List Char) : Prop where
  | incomplete (hcontent : lineContent line ≠ []) (h : ∀ c ∈ lineContent line, isBlank c = false)
  | badTime {word rest : List Char} {c : Char} {fault : Numeral.Fault}
      (hsplit : lineContent line = word ++ c :: rest) (hword : ∀ x ∈ word, isBlank x = false)
      (hc : isBlank c = true) (h : Numeral.parse 10 0x100000000 word = .error fault)
  | badBytes {word rest : List Char} {c : Char} {fault : Hex.Fault}
      (hsplit : lineContent line = word ++ c :: rest) (hword : ∀ x ∈ word, isBlank x = false)
      (hc : isBlank c = true) (h : Hex.decode rest = .error fault)

section Lines

variable {said : Option (UInt32 × List UInt8)} {line text comment : List Char}

theorem Comment.unbroken (h : Comment comment) : '\n' ∉ comment := by
  cases h with
  | none => exact List.not_mem_nil
  | some h =>
    rw [List.mem_cons, not_or]
    exact ⟨by decide, h⟩

theorem lineContent_append (htext : '#' ∉ text) (hcomment : Comment comment) :
    lineContent (text ++ comment) = trim text := by
  have hplain : ∀ c ∈ text, decide (c ≠ '#') = true := by
    intro c hc
    rw [decide_eq_true_eq]
    rintro rfl
    exact htext hc
  rw [lineContent, List.takeWhile_append_of_pos hplain]
  cases hcomment with
  | none => rw [List.takeWhile_nil, List.append_nil]
  | some h => simp

/-- A carriage return behind a line is a blank, or part of its comment. -/
theorem lineContent_carriageReturn (line : List Char) :
    lineContent (line ++ ['\r']) = lineContent line := by
  have hreturn : ∀ c ∈ ['\r'], isBlank c = true := List.forall_mem_singleton.2 rfl
  rw [lineContent, lineContent, List.takeWhile_append]
  split
  · next hwhole =>
    have hline := (List.takeWhile_prefix (· ≠ '#')).eq_of_length hwhole
    rw [hline]
    exact trim_append_margin hreturn line
  · rfl

theorem lineContent_dropReturn (line : List Char) :
    lineContent (dropReturn line.reverse).reverse = lineContent line := by
  unfold dropReturn
  split
  · next rest hline =>
    rw [List.reverse_eq_cons_iff.1 hline, lineContent_carriageReturn]
  · rw [List.reverse_reverse]

theorem Margin.not_mem {c : Char} (h : Margin text) (hc : isBlank c = false) : c ∉ text := by
  intro hmem
  cases (h.blank c hmem).symm.trans hc

theorem not_mem_word {n : Nat} {word : List Char} (h : Numeral.Spells 10 n word) {c : Char}
    (hc : c.toNat < 48) : c ∉ word := by
  intro hmem
  obtain ⟨d, hd⟩ := h.digits c hmem
  exact Numeral.ne_of_digit hd hc rfl

theorem not_mem_mark {mark : List Char} (h : Hex.Mark mark) {c : Char} (hc : c.toNat < 48) :
    c ∉ mark := by
  rintro hmem
  rcases h with rfl | rfl
  · cases hmem
  · simp only [List.mem_cons, List.not_mem_nil, or_false] at hmem
    rcases hmem with rfl | rfl
    · exact absurd hc (by decide)
    · exact absurd hc (by decide)

theorem Says.unbroken (h : Says said line) : '\n' ∉ line := by
  cases h with
  | nothing hmargin hcomment =>
    rw [List.mem_append, not_or]
    exact ⟨hmargin.unbroken, hcomment.unbroken⟩
  | entry hmargin hword hgap hwide hmark hdigits hline hfilled hcomment =>
    simp only [List.mem_append, not_or]
    exact ⟨⟨⟨⟨⟨hmargin.unbroken, not_mem_word hword (by decide)⟩, hgap.unbroken⟩,
      not_mem_mark hmark (by decide)⟩, hline⟩, hcomment.unbroken⟩

theorem Says.lineContent_eq_nil (h : Says none line) : lineContent line = [] := by
  cases h with
  | nothing hmargin hcomment =>
    rw [lineContent_append (hmargin.not_mem rfl) hcomment, trim_of_blank hmargin.blank]

theorem Says.readLine_eq {entry : UInt32 × List UInt8} (h : Says (some entry) line) :
    lineContent line ≠ [] ∧ readLine (lineContent line) = .ok entry := by
  cases h with
  | @entry time bytes margin word gap mark digits comment hmargin hword hgap hwide hmark hdigits
      hline hfilled hcomment =>
    have hfree : '#' ∉ margin ++ word ++ gap ++ mark ++ digits := by
      simp only [List.mem_append, not_or]
      refine ⟨⟨⟨⟨hmargin.not_mem rfl, not_mem_word hword (by decide)⟩, hgap.not_mem rfl⟩,
        not_mem_mark hmark (by decide)⟩, ?_⟩
      intro hmem
      obtain ⟨d, hd⟩ := hdigits.digit_of_mem hmem rfl
      exact Numeral.ne_of_digit hd (by decide) rfl
    have hplain : ∀ c ∈ word, isBlank c = false := by
      intro c hc
      obtain ⟨d, hd⟩ := hword.digits c hc
      exact Numeral.isBlank_of_digit hd
    -- The first digit of the time and the last digit of the bytes end what is trimmed.
    obtain ⟨last, hlast, d, hd⟩ := hdigits.exists_digit hfilled
    obtain ⟨first, others, rfl⟩ := List.exists_cons_of_ne_nil hword.ne_nil
    obtain ⟨blank, wider, rfl⟩ := List.exists_cons_of_ne_nil hwide
    have hcontent : lineContent
        (margin ++ (first :: others) ++ (blank :: wider) ++ mark ++ digits ++ comment) =
          (first :: others) ++ blank :: (wider ++ mark ++ trimEnd digits) := by
      have hstart : trimStart (margin ++ (first :: others) ++ (blank :: wider) ++ mark ++ digits) =
          (first :: others ++ blank :: wider ++ mark) ++ digits := by
        simp only [List.append_assoc, trimStart_of_blank hmargin.blank]
        exact trimStart_of_head (hplain first List.mem_cons_self)
      rw [lineContent_append hfree hcomment, trim, hstart,
        trimEnd_append hlast (Numeral.isBlank_of_digit hd)]
      simp only [List.append_assoc, List.cons_append]
    have hread : Numeral.parse 10 0x100000000 (first :: others) = .ok time.toNat :=
      Numeral.parse_of_spells hword time.toNat_lt
    have hbody : Hex.Spells bytes ((trimEnd digits).filter Hex.counts) := by
      rwa [Hex.filter_trimEnd]
    have hdecoded := Hex.decode_of_spells
      (fun c hc => hgap.blank c (List.mem_cons_of_mem blank hc)) hmark hbody
    rw [hcontent]
    refine ⟨List.cons_ne_nil _ _, ?_⟩
    simp only [readLine, splitAtBlank_append hplain (hgap.blank blank List.mem_cons_self), hread,
      hdecoded, UInt32.ofNat_toNat]

end Lines

section Reading

variable {said : Option (UInt32 × List UInt8)} {others : List (Option (UInt32 × List UInt8))}
  {line text content : List Char} {texts : List (List Char)} {n : Nat}

theorem Says.readLines_cons (h : Says said line) (hline : lineContent text = lineContent line)
    (hrest : readLines (n + 1) texts = .ok (numbered (n + 1) others)) :
    readLines n (text :: texts) = .ok (numbered n (said :: others)) := by
  rw [readLines, hline]
  cases said with
  | none =>
    rw [h.lineContent_eq_nil, if_pos List.isEmpty_nil, hrest]
    rfl
  | some entry =>
    obtain ⟨hcontent, hread⟩ := h.readLine_eq
    rw [if_neg (by simpa using hcontent), hread, hrest]
    rfl

theorem Log.readLines_eq (h : Log others text) (n : Nat) :
    readLines n (Text.lines text) = .ok (numbered n others) := by
  induction h generalizing n with
  | nil => rfl
  | @last said line h =>
    rw [lines_last h.unbroken]
    cases line with
    | nil =>
      cases said with
      | none => rfl
      | some entry => exact absurd rfl h.readLine_eq.1
    | cons c line => exact h.readLines_cons rfl rfl
  | @cons said line ending others rest h hending hrest ih =>
    cases hending with
    | lineFeed =>
      rw [List.append_assoc]
      have hlines := lines_break h.unbroken rest
      exact hlines ▸ h.readLines_cons (lineContent_dropReturn line) (ih (n + 1))
    | carriageReturn =>
      have hunbroken : '\n' ∉ line ++ ['\r'] := by
        rw [List.mem_append, not_or]
        exact ⟨h.unbroken, by decide⟩
      have hlines := lines_break hunbroken rest
      rw [List.append_assoc] at hlines ⊢
      refine hlines ▸ h.readLines_cons ?_ (ih (n + 1))
      rw [lineContent_dropReturn, lineContent_carriageReturn]

theorem malformed_iff :
    Malformed line ↔
      lineContent line ≠ [] ∧ ∃ fault, readLine (lineContent line) = .error fault := by
  constructor
  · intro h
    cases h with
    | incomplete hcontent hplain =>
      refine ⟨hcontent, .incomplete, ?_⟩
      simp only [readLine, splitAtBlank_of_plain hplain]
    | @badTime word rest c fault hsplit hword hc hbad =>
      refine ⟨by simp [hsplit], .badTime word fault, ?_⟩
      simp only [hsplit, readLine, splitAtBlank_append hword hc, hbad]
    | @badBytes word rest c fault hsplit hword hc hbad =>
      refine ⟨by simp [hsplit], ?_⟩
      cases htime : Numeral.parse 10 0x100000000 word with
      | error early =>
        refine ⟨.badTime word early, ?_⟩
        simp only [hsplit, readLine, splitAtBlank_append hword hc, htime]
      | ok time =>
        refine ⟨.badBytes fault, ?_⟩
        simp only [hsplit, readLine, splitAtBlank_append hword hc, htime, hbad]
  · rintro ⟨hcontent, fault, hread⟩
    rcases splitAtBlank_cases (lineContent line) with
      ⟨-, hplain⟩ | ⟨word, c, rest, hsplit, hword, hc, -⟩
    · exact .incomplete hcontent hplain
    · cases htime : Numeral.parse 10 0x100000000 word with
      | error bad => exact .badTime hsplit hword hc htime
      | ok time =>
        cases hbytes : Hex.decode rest with
        | error bad => exact .badBytes hsplit hword hc hbytes
        | ok bytes =>
          simp [hsplit, readLine, splitAtBlank_append hword hc, htime, hbytes] at hread

/-- The first of `texts` that is malformed has `front` before it. -/
structure FirstMalformed (texts front : List (List Char)) : Prop where
  split : ∃ line behind, texts = front ++ line :: behind ∧ Malformed line
  sound : ∀ line ∈ front, ¬ Malformed line

theorem FirstMalformed.cons {front : List (List Char)} (h : FirstMalformed texts front)
    (hline : ¬ Malformed line) : FirstMalformed (line :: texts) (line :: front) := by
  obtain ⟨⟨first, behind, rfl, hfirst⟩, hsound⟩ := h
  exact ⟨⟨first, behind, rfl, hfirst⟩, List.forall_mem_cons.2 ⟨hline, hsound⟩⟩

/-- Lines are all read, or they are refused at the first malformed one. -/
theorem readLines_cases (texts : List (List Char)) (n : Nat) :
    (∃ entries, readLines n texts = .ok entries ∧ ∀ line ∈ texts, ¬ Malformed line) ∨
      ∃ front fault, readLines n texts = .error (n + front.length, fault) ∧
        FirstMalformed texts front := by
  induction texts generalizing n with
  | nil => exact Or.inl ⟨[], rfl, List.forall_mem_nil _⟩
  | cons line texts ih =>
    rw [readLines]
    cases hcontent : (lineContent line).isEmpty with
    | true =>
      have hline : ¬ Malformed line := fun h =>
        (malformed_iff.1 h).1 (List.isEmpty_iff.1 hcontent)
      rw [if_pos rfl]
      rcases ih (n + 1) with ⟨entries, hread, hsound⟩ | ⟨front, fault, hread, hfirst⟩
      · exact Or.inl ⟨entries, hread, List.forall_mem_cons.2 ⟨hline, hsound⟩⟩
      · refine Or.inr ⟨line :: front, fault, ?_, hfirst.cons hline⟩
        rw [hread, List.length_cons, Nat.add_assoc, Nat.add_comm 1]
    | false =>
      rw [if_neg Bool.false_ne_true]
      cases hread : readLine (lineContent line) with
      | error fault =>
        have hline : Malformed line := by
          refine malformed_iff.2 ⟨?_, fault, hread⟩
          rintro hnil
          rw [hnil] at hcontent
          cases hcontent
        exact Or.inr ⟨[], fault, rfl, ⟨line, texts, rfl, hline⟩, List.forall_mem_nil _⟩
      | ok entry =>
        have hline : ¬ Malformed line := by
          intro h
          obtain ⟨-, fault, hfault⟩ := malformed_iff.1 h
          cases hread.symm.trans hfault
        rcases ih (n + 1) with ⟨entries, hrest, hsound⟩ | ⟨front, fault, hrest, hfirst⟩
        · refine Or.inl ⟨⟨n, entry.1, entry.2⟩ :: entries, ?_,
            List.forall_mem_cons.2 ⟨hline, hsound⟩⟩
          dsimp only
          rw [hrest]
          rfl
        · refine Or.inr ⟨line :: front, fault, ?_, hfirst.cons hline⟩
          dsimp only
          rw [hrest, List.length_cons, Nat.add_assoc, Nat.add_comm 1]
          rfl

theorem FirstMalformed.exists_mem {front : List (List Char)} (h : FirstMalformed texts front) :
    ∃ line ∈ texts, Malformed line := by
  obtain ⟨line, behind, rfl, hline⟩ := h.split
  exact ⟨line, List.mem_append_right front List.mem_cons_self, hline⟩

theorem numbered_entries (n : Nat) (others : List (Option (UInt32 × List UInt8))) :
    (numbered n others).map (fun entry => (entry.time, entry.bytes)) = others.filterMap id := by
  induction others generalizing n with
  | nil => rfl
  | cons said others ih =>
    have hcons : numbered n (said :: others) =
        (said.map fun entry => (⟨n, entry.1, entry.2⟩ : LogEntry)).toList ++
          numbered (n + 1) others := by
      cases said <;> rfl
    rw [hcons, List.map_append, ih]
    cases said <;> rfl

end Reading

/-- However a log is written, its entries are read in order, each under the number of its line. Any
text is refused exactly if a line of it is malformed, and the first such line is named. -/
theorem logs_read_as_written :
    (∀ {said : List (Option (UInt32 × List UInt8))} {text : List Char}, Log said text →
      readLog text = .ok (numbered 1 said) ∧
        (numbered 1 said).map (fun entry => (entry.time, entry.bytes)) = said.filterMap id) ∧
    ∀ text : List Char,
      ((∃ failure, readLog text = .error failure) ↔ ∃ line ∈ Text.lines text, Malformed line) ∧
        ∀ failure, readLog text = .error failure →
          failure.code = Failure.invalidData ∧
            ∃ front detail, FirstMalformed (Text.lines text) front ∧
              failure.message = s!"line {front.length + 1}:" ++ detail := by
  refine ⟨?_, ?_⟩
  · intro said text h
    have hread := h.readLines_eq 1
    refine ⟨?_, numbered_entries 1 said⟩
    rw [readLog, hread]
  · intro text
    rcases readLines_cases (Text.lines text) 1 with
      ⟨entries, hread, hsound⟩ | ⟨front, fault, hread, hfirst⟩
    · have hlog : readLog text = .ok entries := by rw [readLog, hread]
      rw [hlog]
      refine ⟨⟨?_, ?_⟩, ?_⟩
      · rintro ⟨failure, ⟨⟩⟩
      · rintro ⟨line, hmem, hline⟩
        exact absurd hline (hsound line hmem)
      · rintro failure ⟨⟩
    · have hlog : readLog text =
          .error (.data s!"line {1 + front.length}: {fault.message}") := by rw [readLog, hread]
      rw [hlog]
      refine ⟨⟨fun _ => hfirst.exists_mem, fun _ => ⟨_, rfl⟩⟩, ?_⟩
      rintro failure ⟨⟩
      refine ⟨rfl, front, " " ++ fault.message, hfirst, ?_⟩
      have hcolon : ": " = ":" ++ " " := by decide
      change "line " ++ toString (1 + front.length) ++ ": " ++ fault.message =
        "line " ++ toString (front.length + 1) ++ ":" ++ (" " ++ fault.message)
      rw [hcolon, Nat.add_comm, String.append_assoc, String.append_assoc, String.append_assoc,
        String.append_assoc, String.append_assoc]

def sampleText : List Char :=
  ['#', '!', '\r', '\n', '\n', '\t', '5', ' ', ' ', '0', 'x', '0', 'A', ':', 'f', 'F', ' ', '#',
    '\n']

theorem sampleText_log : Log [none, none, some (5, [0x0a, 0xff])] sampleText := by
  have hempty : Margin [] := ⟨List.forall_mem_nil _, List.not_mem_nil⟩
  have hremark : Says none ([] ++ ['#', '!']) := .nothing hempty (.some (by decide))
  have hentry : Says (some (5, [0x0a, 0xff])) (['\t'] ++ ['5'] ++ [' ', ' '] ++ ['0', 'x'] ++
      ['0', 'A', ':', 'f', 'F', ' '] ++ ['#']) := by
    have htab : Margin ['\t'] := ⟨List.forall_mem_singleton.2 rfl, by decide⟩
    have hgap : Margin [' ', ' '] :=
      ⟨List.forall_mem_cons.2 ⟨rfl, List.forall_mem_singleton.2 rfl⟩, by decide⟩
    have hword : Numeral.Spells 10 (5 : UInt32).toNat ['5'] := .digit rfl
    have hdigits : Hex.Spells [0x0a, 0xff] (['0', 'A', ':', 'f', 'F', ' '].filter Hex.counts) :=
      .cons (a := '0') (b := 'A') rfl rfl (.cons (a := 'f') (b := 'F') rfl rfl .nil)
    exact .entry htab hword hgap (by decide) (Or.inr rfl) hdigits (by decide) (by decide)
      (.some List.not_mem_nil)
  exact .cons hremark .carriageReturn
    (.cons (.nothing hempty .none) .lineFeed (.cons hentry .lineFeed .nil))

/-- The second line has no time. -/
def sampleTypo : List Char := ['5', ' ', '0', 'a', '\n', 'x', ' ', '0', 'b']

theorem sampleText_read :
    Log [none, none, some (5, [0x0a, 0xff])] sampleText ∧
      readLog sampleText = .ok [⟨3, 5, [0x0a, 0xff]⟩] ∧
      (∃ line ∈ Text.lines sampleTypo, Malformed line) ∧
      ∃ failure, readLog sampleTypo = .error failure ∧ failure.code = Failure.invalidData := by
  have hsplit : lineContent ['x', ' ', '0', 'b'] = ['x'] ++ ' ' :: ['0', 'b'] := rfl
  have htypo : Malformed ['x', ' ', '0', 'b'] :=
    .badTime hsplit (List.forall_mem_singleton.2 rfl) rfl rfl
  have hlines : Text.lines sampleTypo = [['5', ' ', '0', 'a'], ['x', ' ', '0', 'b']] := rfl
  have hmem : ['x', ' ', '0', 'b'] ∈ Text.lines sampleTypo :=
    hlines ▸ List.mem_cons_of_mem _ List.mem_cons_self
  obtain ⟨failure, hfailure⟩ := (logs_read_as_written.2 sampleTypo).1.2 ⟨_, hmem, htypo⟩
  exact ⟨sampleText_log, (logs_read_as_written.1 sampleText_log).1, ⟨_, hmem, htypo⟩, failure,
    hfailure, ((logs_read_as_written.2 sampleTypo).2 failure hfailure).1⟩

end Command
end InstrumentBus
