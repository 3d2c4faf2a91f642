import InstrumentBus.Text.Blank
import Mathlib.Data.List.TakeWhile

/-!
# Margins and lines

Blanks around a text do not matter to what is left of it when it is trimmed, and there is one way
only to trim it. A text made of lines with a break behind each of them has these lines.
-/

namespace InstrumentBus
namespace Text

section Margins

variable {text margin : List Char}

theorem trimStart_of_blank (h : ∀ c ∈ margin, isBlank c = true) (text : List Char) :
    trimStart (margin ++ text) = trimStart text := List.dropWhile_append_of_pos h

theorem trimEnd_of_blank (h : ∀ c ∈ margin, isBlank c = true) (text : List Char) :
    trimEnd (text ++ margin) = trimEnd text := by
  have hskip : ∀ c ∈ margin.reverse, isBlank c = true := by simpa using h
  rw [trimEnd, List.reverse_append, List.dropWhile_append_of_pos hskip, trimEnd]

theorem trimEnd_append_cons {c : Char} (hc : isBlank c = false) (front rest : List Char) :
    trimEnd (front ++ c :: rest) = front ++ c :: trimEnd rest := by
  have hkept : (rest.reverse ++ c :: front.reverse).dropWhile isBlank =
      rest.reverse.dropWhile isBlank ++ c :: front.reverse := by
    rw [List.dropWhile_append]
    split
    · next hall =>
      rw [List.isEmpty_iff.1 hall, List.nil_append, List.dropWhile_cons_of_neg (by simp [hc])]
    · rfl
  have hreverse : (front ++ c :: rest).reverse = rest.reverse ++ c :: front.reverse := by
    simp
  rw [trimEnd, hreverse, hkept, List.reverse_append, List.reverse_cons, List.reverse_reverse,
    List.append_assoc]
  rfl

theorem trimEnd_append {c : Char} (hmem : c ∈ text) (hc : isBlank c = false) (front : List Char) :
    trimEnd (front ++ text) = front ++ trimEnd text := by
  obtain ⟨before, rest, rfl⟩ := List.append_of_mem hmem
  rw [← List.append_assoc, trimEnd_append_cons hc, trimEnd_append_cons hc, List.append_assoc]

theorem trim_of_blank (h : ∀ c ∈ text, isBlank c = true) : trim text = [] := by
  have hstart : trimStart text = [] := List.dropWhile_eq_nil_iff.2 h
  rw [trim, hstart]
  rfl

theorem trim_append_margin (h : ∀ c ∈ margin, isBlank c = true) (text : List Char) :
    trim (text ++ margin) = trim text := by
  have hmargin : trimStart margin = [] := List.dropWhile_eq_nil_iff.2 h
  rw [trim, trimStart, List.dropWhile_append]
  split
  · next hall =>
    have hnone : trimStart text = [] := List.isEmpty_iff.1 hall
    rw [trim, hnone]
    exact congrArg trimEnd hmargin
  · exact trimEnd_of_blank h _

theorem isBlank_of_mem_head? {c : Char} (h : c ∈ (text.dropWhile isBlank).head?) :
    isBlank c = false := by
  have hhead := List.head?_dropWhile_not isBlank text
  rwa [Option.mem_def.1 h] at hhead

theorem exists_trimEnd_append (text : List Char) :
    ∃ margin, text = trimEnd text ++ margin ∧ ∀ c ∈ margin, isBlank c = true := by
  refine ⟨(text.reverse.takeWhile isBlank).reverse, ?_, ?_⟩
  · rw [trimEnd, ← List.reverse_append, List.takeWhile_append_dropWhile, List.reverse_reverse]
  · intro c hc
    exact List.mem_takeWhile_imp (List.mem_reverse.1 hc)

theorem trimEnd_of_last (h : ∀ c ∈ text.getLast?, isBlank c = false) : trimEnd text = text := by
  cases hreverse : text.reverse with
  | nil => rw [trimEnd, hreverse, List.reverse_eq_nil_iff.1 hreverse]; rfl
  | cons c reversed =>
    have hc : isBlank c = false := h c (by rw [← List.head?_reverse, hreverse]; rfl)
    rw [trimEnd, hreverse, List.dropWhile_cons_of_neg (by simp [hc]), ← hreverse,
      List.reverse_reverse]

/-- What stands between blanks, with no blank at either of its own ends. -/
structure Trimmed (text body : List Char) : Prop where
  margins : ∃ front back, text = front ++ body ++ back ∧
    (∀ c ∈ front, isBlank c = true) ∧ ∀ c ∈ back, isBlank c = true
  first : ∀ c ∈ body.head?, isBlank c = false
  last : ∀ c ∈ body.getLast?, isBlank c = false

theorem trimmed_trim (text : List Char) : Trimmed text (trim text) := by
  obtain ⟨back, hback, hblank⟩ := exists_trimEnd_append (trimStart text)
  refine ⟨⟨text.takeWhile isBlank, back, ?_, ?_, hblank⟩, ?_, ?_⟩
  · rw [List.append_assoc, trim, ← hback, trimStart, List.takeWhile_append_dropWhile]
  · intro c hc
    exact List.mem_takeWhile_imp hc
  · intro c hc
    have hend : (trimEnd (trimStart text)).head? = some c := hc
    have hstart : c ∈ (trimStart text).head? := by
      rw [hback, List.head?_append, hend]
      rfl
    exact isBlank_of_mem_head? hstart
  · intro c hc
    rw [trim, trimEnd, List.getLast?_reverse] at hc
    exact isBlank_of_mem_head? hc

theorem trim_of_trimmed {body : List Char} (h : Trimmed text body) : trim text = body := by
  obtain ⟨⟨front, back, rfl, hfront, hback⟩, hfirst, hlast⟩ := h
  rw [trim_append_margin hback, trim, trimStart_of_blank hfront]
  cases body with
  | nil => rfl
  | cons c rest => rw [trimStart_of_head (hfirst c rfl), trimEnd_of_last hlast]

theorem trimmed_iff {body : List Char} : Trimmed text body ↔ body = trim text := by
  constructor
  · intro h
    exact (trim_of_trimmed h).symm
  · rintro rfl
    exact trimmed_trim text

end Margins

theorem splitAtBlank_of_plain {text : List Char} (h : ∀ c ∈ text, isBlank c = false) :
    splitAtBlank text = none := by
  have hrest : text.dropWhile (!isBlank ·) = [] := by simpa using h
  simp only [splitAtBlank, hrest]

theorem splitAtBlank_cases (text : List Char) :
    (splitAtBlank text = none ∧ ∀ c ∈ text, isBlank c = false) ∨
      ∃ word c rest, text = word ++ c :: rest ∧ (∀ x ∈ word, isBlank x = false) ∧
        isBlank c = true ∧ splitAtBlank text = some (word, rest) := by
  have hword : ∀ x ∈ text.takeWhile (!isBlank ·), isBlank x = false := by
    intro x hx
    simpa using List.mem_takeWhile_imp hx
  have hsplit : text.takeWhile (!isBlank ·) ++ text.dropWhile (!isBlank ·) = text :=
    List.takeWhile_append_dropWhile
  cases hrest : text.dropWhile (!isBlank ·) with
  | nil =>
    rw [hrest, List.append_nil] at hsplit
    rw [hsplit] at hword
    exact Or.inl ⟨by simp only [splitAtBlank, hrest], hword⟩
  | cons c rest =>
    have hne : text.dropWhile (!isBlank ·) ≠ [] := by simp [hrest]
    have hblank : isBlank c = true := by
      have hhead := List.head_dropWhile_not (!isBlank ·) hne
      simpa [hrest] using hhead
    rw [hrest] at hsplit
    refine Or.inr ⟨_, c, rest, hsplit.symm, hword, hblank, ?_⟩
    rw [← splitAtBlank_append hword hblank, hsplit]

section Lines

variable {line rest reversed : List Char}

theorem linesFrom_append (h : '\n' ∉ line) (reversed rest : List Char) :
    linesFrom reversed (line ++ rest) = linesFrom (line.reverse ++ reversed) rest := by
  induction line generalizing reversed with
  | nil => rfl
  | cons c line ih =>
    have hc : c ≠ '\n' := fun hc => h (hc ▸ List.mem_cons_self)
    have hline : '\n' ∉ line := fun hmem => h (List.mem_cons_of_mem c hmem)
    rw [List.cons_append, linesFrom, if_neg hc, ih hline, List.reverse_cons, List.append_assoc]
    rfl

theorem lines_break (h : '\n' ∉ line) (rest : List Char) :
    lines (line ++ '\n' :: rest) = (dropReturn line.reverse).reverse :: lines rest := by
  rw [lines, linesFrom_append h, List.append_nil, linesFrom, if_pos rfl, lines]

theorem lines_last (h : '\n' ∉ line) : lines line = if line.isEmpty then [] else [line] := by
  have hline := linesFrom_append h [] []
  rw [List.append_nil, List.append_nil] at hline
  rw [lines, hline, linesFrom, List.isEmpty_reverse, List.reverse_reverse]

end Lines

end Text
end InstrumentBus
