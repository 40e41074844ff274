import PxdStub.Include
import PxdStub.Proofs.CodeLines

/-!
Includes, line by line. A line of a text is an include line or not, whatever stands around it, and the
modules of a text are those of its include lines in their order.
-/

namespace PxdStub

namespace Text

theorem startsWith_iff {word text : List Char} : startsWith word text ↔ word <+: text := by
  rw [startsWith, Option.isSome_iff_exists]
  constructor
  · rintro ⟨rest, found⟩
    exact ⟨rest, (after?_eq_some_iff.1 found).symm⟩
  · rintro ⟨rest, rfl⟩
    exact ⟨rest, after?_eq_some_iff.2 rfl⟩

theorem cut?_append_of_not_mem {word mark : List Char} {c : Char} (apart : c ∉ word)
    (rest : List Char) : cut? (c :: mark) (word ++ rest) =
      (cut? (c :: mark) rest).map fun (before, behind) => (word ++ before, behind) := by
  induction word with
  | nil => simp
  | cons d word ih =>
      obtain ⟨other, later⟩ := List.ne_and_not_mem_of_not_mem_cons apart
      rw [List.cons_append, cut?, after?, if_neg other, ih later, Option.map_map]
      rfl

end Text

/-- A line comment takes nothing of a word without a slash at the start of a line. -/
theorem Header.isPrefix_withoutLineComment_iff {line word : List Char}
    (trimmed : Text.IsTrimmed line) (ink : ∀ c ∈ word, Text.isBlank c = false)
    (unslashed : '/' ∉ word) : word <+: withoutLineComment line ↔ word <+: line := by
  constructor
  · intro starts
    exact starts.trans (withoutLineComment_isPrefix trimmed)
  · rintro ⟨rest, rfl⟩
    rw [withoutLineComment, Text.cut?_append_of_not_mem unslashed]
    cases Text.cut? ['/', '/'] rest with
    | none => exact List.prefix_append _ _
    | some parts =>
        have kept : Text.trimRight word = word :=
          Text.trimRight_of_last fun c last => ink c (List.mem_of_getLast? last)
        dsimp only [Option.map_some]
        rw [Text.trimRight_append, kept]
        split
        · exact List.prefix_refl word
        · exact List.prefix_append _ _

namespace Include

/-- Whether a line is an include line, behind its margin. -/
def IsIncludeLine (line : List Char) : Prop :=
  "#include".toList <+: Text.trim line

instance (line : List Char) : Decidable (IsIncludeLine line) :=
  inferInstanceAs (Decidable (_ <+: _))

/-- The include line on a line: what is left of it without margins and line comment. -/
def ofLine? (line : List Char) : Option (List Char) :=
  if IsIncludeLine line then some (Header.withoutLineComment (Text.trim line)) else none

/-- The include lines of a text. -/
def linesOf (text : List Char) : List (List Char) :=
  (Text.lines text).filterMap ofLine?

section Lines

variable {line line' : List Char}

theorem isIncludeLine_of_trim (same : Text.trim line = Text.trim line') :
    IsIncludeLine line ↔ IsIncludeLine line' := by
  rw [IsIncludeLine, IsIncludeLine, same]

theorem ofLine?_of_trim (same : Text.trim line = Text.trim line') : ofLine? line = ofLine? line' := by
  simp only [ofLine?, isIncludeLine_of_trim same, same]

theorem IsIncludeLine.isDirective (isInclude : IsIncludeLine line) :
    Header.isDirective (Text.trim line) :=
  Header.isDirective_of_startsWith (Text.startsWith_iff.2 isInclude)

/-- No text begins with an include and with another directive. -/
theorem not_include_of_isPrefix {word text : List Char} (starts : word <+: text)
    (short : word.length ≤ 8) (other : ¬ word <+: "#include".toList) :
    ¬ "#include".toList <+: text := by
  intro within
  exact other (List.prefix_of_prefix_length_le starts within short)

theorem isPrefix_withoutLineComment_iff :
    "#include".toList <+: Header.withoutLineComment (Text.trim line) ↔ IsIncludeLine line := by
  have ink : ∀ c ∈ "#include".toList, Text.isBlank c = false := by
    simp
    decide
  exact Header.isPrefix_withoutLineComment_iff (Text.isTrimmed_trim line) ink (by decide)

/-- Macro definitions and empty lines are no include lines, so all lines are looked at in the same
way. -/
theorem filterMap_ofLine? (lines : List (List Char)) :
    (((((lines.map Text.trim).filter fun line => !Text.startsWith "#define".toList line).map
      Header.withoutLineComment).filter fun line => !line.isEmpty).filter fun line =>
        Text.startsWith "#include".toList line) = lines.filterMap ofLine? := by
  induction lines with
  | nil => rfl
  | cons line lines ih =>
      rw [List.filterMap_cons, List.map_cons, ofLine?]
      by_cases isInclude : IsIncludeLine line
      · have undefined : Text.startsWith "#define".toList (Text.trim line) = false := by
          rw [Bool.eq_false_iff]
          intro starts
          have define := Text.startsWith_iff.1 starts
          exact not_include_of_isPrefix define (by decide) (by decide) isInclude
        have starts := isPrefix_withoutLineComment_iff.2 isInclude
        have some : Header.withoutLineComment (Text.trim line) ≠ [] := by
          intro none
          rw [none] at starts
          exact absurd starts (by decide)
        rw [List.filter_cons_of_pos (by rw [undefined]; rfl), List.map_cons,
          List.filter_cons_of_pos (by simp [some]),
          List.filter_cons_of_pos (Text.startsWith_iff.2 starts), ih, if_pos isInclude]
      · have other : Text.startsWith "#include".toList
            (Header.withoutLineComment (Text.trim line)) = false := by
          rw [Bool.eq_false_iff]
          intro starts
          exact isInclude (isPrefix_withoutLineComment_iff.1 (Text.startsWith_iff.1 starts))
        rw [if_neg isInclude, ← ih, List.filter_cons]
        split
        · rw [List.map_cons, List.filter_cons]
          split
          · rw [List.filter_cons_of_neg (by rw [other]; decide)]
          · rfl
        · rfl

theorem filterMap_linesBehindPragma (text : List Char) :
    (Header.linesBehindPragma text).filterMap ofLine? = linesOf text := by
  rw [Header.linesBehindPragma, linesOf]
  split
  · next first rest lines =>
      rw [lines]
      split
      · next pragma =>
          have other : ¬ IsIncludeLine first := by
            intro isInclude
            have within := isInclude.trans (Text.isPrefix_trimRight (Text.trimLeft first))
            exact not_include_of_isPrefix (Text.startsWith_iff.1 pragma) (by decide) (by decide) within
          rw [List.filterMap_cons, ofLine?, if_neg other]
      · rfl
  · next none => rw [none]

/-- The modules of a text are those of its include lines. -/
theorem find_eq (text exclude : List Char) (folder : Path) :
    find text exclude folder = resolveAll exclude folder (linesOf text) := by
  rw [find, Header.cleanLines, filterMap_ofLine?, filterMap_linesBehindPragma]

theorem linesOf_of_not_mem (within : '\n' ∉ line) : linesOf line = (ofLine? line).toList := by
  by_cases none : line = []
  · rw [none]
    rfl
  · rw [linesOf, Text.lines_of_not_mem within none, List.filterMap_cons]
    cases ofLine? line <;> rfl

theorem linesOf_append_feed (within : '\n' ∉ line) (rest : List Char) :
    linesOf (line ++ '\n' :: rest) = (ofLine? line).toList ++ linesOf rest := by
  obtain ⟨start, ending, found⟩ := Text.lines_append_feed within rest
  have same : Text.trim start = Text.trim line := by
    obtain rfl | rfl := ending
    · rfl
    · exact (Text.trim_append_blanks (by simp; decide) start).symm
  rw [linesOf, found, List.filterMap_cons, ofLine?_of_trim same]
  cases ofLine? line <;> rfl

end Lines

end Include

end PxdStub
