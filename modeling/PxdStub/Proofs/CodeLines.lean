import PxdStub.Header
import PxdStub.Proofs.Relexing

/-!
The normal form of a header, line by line. Each line adds its own code to the normal form, whatever
stands around it; directives, line comments and blank lines add nothing.
-/

namespace PxdStub

/-! ### Margins -/

namespace Text

theorem exists_trimLeft (text : List Char) :
    ∃ margin, (∀ c ∈ margin, isBlank c) ∧ text = margin ++ trimLeft text :=
  ⟨text.takeWhile isBlank, fun _ mem => List.mem_takeWhile_imp mem,
    List.takeWhile_append_dropWhile.symm⟩

theorem exists_trimRight (text : List Char) :
    ∃ margin, (∀ c ∈ margin, isBlank c) ∧ text = trimRight text ++ margin := by
  obtain ⟨margin, blanks, whole⟩ := exists_trimLeft text.reverse
  refine ⟨margin.reverse, fun c mem => blanks c (List.mem_reverse.1 mem), ?_⟩
  have back := congrArg List.reverse whole
  rwa [List.reverse_reverse, List.reverse_append] at back

structure IsTrimmed (text : List Char) : Prop where
  head : ∀ c ∈ text.head?, isBlank c = false
  last : ∀ c ∈ text.getLast?, isBlank c = false

theorem trimLeft_of_head {text : List Char} (ink : ∀ c ∈ text.head?, isBlank c = false) :
    trimLeft text = text := by
  cases text with
  | nil => rfl
  | cons c text => rw [trimLeft, List.dropWhile_cons_of_neg (by simp [ink c rfl])]

theorem trimRight_of_last {text : List Char} (ink : ∀ c ∈ text.getLast?, isBlank c = false) :
    trimRight text = text := by
  cases last : text.getLast? with
  | none => rw [List.getLast?_eq_none_iff.1 last]; rfl
  | some c => exact trimRight_of_getLast? last (ink c last)

namespace IsTrimmed

theorem nil : IsTrimmed [] :=
  ⟨by simp, by simp⟩

theorem singleton {c : Char} (ink : isBlank c = false) : IsTrimmed [c] :=
  ⟨by simp [ink], by simp [ink]⟩

theorem trimLeft_eq {text : List Char} (trimmed : IsTrimmed text) : trimLeft text = text :=
  trimLeft_of_head trimmed.head

theorem trimRight_eq {text : List Char} (trimmed : IsTrimmed text) : trimRight text = text :=
  trimRight_of_last trimmed.last

theorem trim_eq {text : List Char} (trimmed : IsTrimmed text) : trim text = text := by
  rw [trim, trimmed.trimLeft_eq, trimmed.trimRight_eq]

end IsTrimmed

theorem head_trimLeft (text : List Char) : ∀ c ∈ (trimLeft text).head?, isBlank c = false := by
  intro c head
  have first := List.head?_dropWhile_not isBlank text
  rw [show List.dropWhile isBlank text = trimLeft text from rfl, head] at first
  simpa using first

theorem last_trimRight (text : List Char) : ∀ c ∈ (trimRight text).getLast?, isBlank c = false := by
  intro c last
  rw [trimRight, List.getLast?_reverse] at last
  exact head_trimLeft _ c last

theorem head_of_isPrefix {front text : List Char} (within : front <+: text)
    (ink : ∀ c ∈ text.head?, isBlank c = false) : ∀ c ∈ front.head?, isBlank c = false := by
  intro c head
  obtain ⟨behind, rfl⟩ := within
  refine ink c ?_
  rw [List.head?_append, head]
  rfl

theorem isTrimmed_trim (text : List Char) : IsTrimmed (trim text) :=
  ⟨head_of_isPrefix (isPrefix_trimRight _) (head_trimLeft text), last_trimRight _⟩

theorem trim_append_blanks {margin : List Char} (blanks : ∀ c ∈ margin, isBlank c)
    (text : List Char) : trim (text ++ margin) = trim text := by
  have none : trimRight margin = [] := by
    rw [trimRight, List.dropWhile_eq_nil_iff.2, List.reverse_nil]
    exact fun c mem => blanks c (List.mem_reverse.1 mem)
  rw [trim, trim, ← trimLeft_trimRight, ← trimLeft_trimRight, trimRight_append, if_pos none]

end Text

/-! ### Lines -/

namespace Text

/-- A text is a last line, or a line with an end and a text behind it. -/
@[elab_as_elim]
theorem induction_lines {motive : List Char → Prop}
    (last : ∀ line, '\n' ∉ line → motive line)
    (more : ∀ line rest, '\n' ∉ line → motive rest → motive (line ++ '\n' :: rest))
    (text : List Char) : motive text := by
  induction size : text.length using Nat.strong_induction_on generalizing text with
  | _ size ih =>
      by_cases feed : '\n' ∈ text
      · obtain ⟨line, rest, rfl, within⟩ := List.eq_append_cons_of_mem feed
        exact more line rest within (ih _ (by rw [← size]; simp; omega) rest rfl)
      · exact last text feed

theorem lines_of_not_mem {line : List Char} (within : '\n' ∉ line) (some : line ≠ []) :
    lines line = [line] := by
  induction line with
  | nil => exact absurd rfl some
  | cons c line ih =>
      obtain ⟨here, there⟩ := List.ne_and_not_mem_of_not_mem_cons within
      by_cases ended : line = []
      · subst ended
        rw [lines, lines]
        · exact fun same => here same.symm
        · exact fun _ _ none => by cases none
      · rw [lines, ih there ended]
        · exact fun same => here same.symm
        · rintro rest _ rfl
          exact there List.mem_cons_self

/-- A line in front of its end. A carriage return may belong to the end. -/
theorem lines_append_feed {line : List Char} (within : '\n' ∉ line) (rest : List Char) :
    ∃ start, (line = start ∨ line = start ++ ['\r']) ∧
      lines (line ++ '\n' :: rest) = start :: lines rest := by
  induction line with
  | nil => exact ⟨[], Or.inl rfl, by rw [List.nil_append, lines]⟩
  | cons c line ih =>
      obtain ⟨here, there⟩ := List.ne_and_not_mem_of_not_mem_cons within
      by_cases ends : c = '\r' ∧ line = []
      · obtain ⟨rfl, rfl⟩ := ends
        exact ⟨[], Or.inr rfl, by rw [List.cons_append, List.nil_append, lines]⟩
      · obtain ⟨start, ending, found⟩ := ih there
        refine ⟨c :: start, ?_, ?_⟩
        · exact ending.imp (congrArg (c :: ·)) (congrArg (c :: ·))
        · rw [List.cons_append, lines, found]
          · exact fun same => here same.symm
          · rintro rest' rfl same
            cases line with
            | nil => exact ends ⟨rfl, rfl⟩
            | cons d line =>
                obtain ⟨rfl, _⟩ := List.cons.inj same
                exact there List.mem_cons_self

end Text

namespace Header

/-- The code on a line: what is left of it without directives, line comment and margins. -/
def codeLine? (line : List Char) : Option (List Char) :=
  let trimmed := Text.trim line
  if isDirective trimmed then none
  else
    let code := withoutLineComment trimmed
    if code.isEmpty then none else some code

def codeLines (text : List Char) : List (List Char) :=
  (Text.lines text).filterMap codeLine?

theorem exists_withoutLineComment {line : List Char} (trimmed : Text.IsTrimmed line) :
    ∃ front, front <+: line ∧ withoutLineComment line = Text.trimRight front := by
  rw [withoutLineComment]
  split
  · next before behind found =>
      refine ⟨before, ?_, rfl⟩
      rw [Text.eq_of_cut? found, List.append_assoc]
      exact List.prefix_append _ _
  · exact ⟨line, List.prefix_refl _, trimmed.trimRight_eq.symm⟩

theorem withoutLineComment_isPrefix {line : List Char} (trimmed : Text.IsTrimmed line) :
    withoutLineComment line <+: line := by
  obtain ⟨front, within, same⟩ := exists_withoutLineComment trimmed
  rw [same]
  exact (Text.isPrefix_trimRight front).trans within

theorem isTrimmed_withoutLineComment {line : List Char} (trimmed : Text.IsTrimmed line) :
    Text.IsTrimmed (withoutLineComment line) := by
  refine ⟨Text.head_of_isPrefix (withoutLineComment_isPrefix trimmed) trimmed.head, ?_⟩
  obtain ⟨front, _, same⟩ := exists_withoutLineComment trimmed
  rw [same]
  exact Text.last_trimRight front

theorem isDirective_withoutLineComment {line : List Char} (trimmed : Text.IsTrimmed line)
    (directive : isDirective line) : isDirective (withoutLineComment line) := by
  obtain ⟨rest, rfl⟩ := List.head?_eq_some_iff.1 (of_decide_eq_true directive)
  rw [withoutLineComment, Text.cut?]
  cases later : Text.cut? ['/', '/'] rest with
  | none => simpa [Text.after?] using directive
  | some parts =>
      have ink : Text.isBlank '#' = false := by rfl
      simp [Text.after?, isDirective, Text.trimRight_cons_ink ink]

theorem isDirective_of_startsWith {word : List Char} {line : List Char}
    (starts : Text.startsWith ('#' :: word) line) : isDirective line := by
  obtain ⟨rest, found⟩ := Option.isSome_iff_exists.1 starts
  rw [Text.after?_eq_some_iff.1 found]
  rfl

theorem codeLine?_of_isDirective {line : List Char} (directive : isDirective (Text.trim line)) :
    codeLine? line = none := by
  rw [codeLine?, if_pos directive]

theorem codeLine?_of_plain {line : List Char} (plain : isDirective (Text.trim line) = false) :
    codeLine? line = if withoutLineComment (Text.trim line) = [] then none
      else some (withoutLineComment (Text.trim line)) := by
  rw [codeLine?, if_neg (by simp [plain])]
  simp only [List.isEmpty_iff]

theorem isTrimmed_of_codeLine? {line code : List Char} (found : codeLine? line = some code) :
    Text.IsTrimmed code ∧ code ≠ [] := by
  cases plain : isDirective (Text.trim line) with
  | true => cases (codeLine?_of_isDirective plain).symm.trans found
  | false =>
      rw [codeLine?_of_plain plain] at found
      split at found
      · cases found
      · next some =>
          cases found
          exact ⟨isTrimmed_withoutLineComment (Text.isTrimmed_trim line), some⟩

theorem isDirective_of_isPrefix {line code : List Char} (within : code <+: line)
    (some : code ≠ []) : isDirective code = isDirective line := by
  obtain ⟨c, code, rfl⟩ := List.exists_cons_of_ne_nil some
  obtain ⟨rest, rfl⟩ := within
  rfl

/-- Macro definitions are directives, so all lines are looked at in the same way. -/
theorem filterMap_codeLine? (lines : List (List Char)) :
    (((((lines.map Text.trim).filter fun line => !Text.startsWith "#define".toList line).map
      withoutLineComment).filter fun line => !line.isEmpty).filter fun line => !isDirective line) =
        lines.filterMap codeLine? := by
  induction lines with
  | nil => rfl
  | cons line lines ih =>
      have trimmed := Text.isTrimmed_trim line
      rw [List.filterMap_cons, List.map_cons]
      cases plain : isDirective (Text.trim line) with
      | true =>
          have kept := isDirective_withoutLineComment trimmed plain
          rw [codeLine?_of_isDirective plain, ← ih, List.filter_cons]
          split
          · rw [List.map_cons, List.filter_cons]
            split
            · rw [List.filter_cons, if_neg (by simp [kept])]
            · rfl
          · rfl
      | false =>
          have undefined : Text.startsWith "#define".toList (Text.trim line) = false := by
            by_contra starts
            rw [isDirective_of_startsWith (by simpa using starts)] at plain
            cases plain
          rw [codeLine?_of_plain plain, List.filter_cons, if_pos (by rw [undefined]; rfl),
            List.map_cons, List.filter_cons]
          split
          · next some =>
              have some : withoutLineComment (Text.trim line) ≠ [] := by simpa using some
              have same := isDirective_of_isPrefix (withoutLineComment_isPrefix trimmed) some
              rw [List.filter_cons, if_pos (by simp [same, plain]), if_neg some, ih]
          · next none =>
              rw [if_pos (by simpa using none), ih]

theorem filterMap_linesBehindPragma (text : List Char) :
    (linesBehindPragma text).filterMap codeLine? = codeLines text := by
  rw [linesBehindPragma, codeLines]
  split
  · next first rest lines =>
      rw [lines]
      split
      · next pragma =>
          obtain ⟨more, start⟩ := Option.isSome_iff_exists.1 pragma
          have directive : isDirective (Text.trim first) := by
            rw [Text.trim, Text.after?_eq_some_iff.1 start]
            exact decide_eq_true (congrArg List.head? (Text.trimRight_cons_ink (by rfl) _))
          rw [List.filterMap_cons, codeLine?_of_isDirective directive]
      · rfl
  · next none => rw [none]

theorem cons_intercalate {lines : List (List Char)} (some : lines ≠ []) :
    ' ' :: [' '].intercalate lines = lines.flatMap (' ' :: ·) := by
  induction lines with
  | nil => exact absurd rfl some
  | cons line lines ih =>
      cases lines with
      | nil => simp
      | cons next lines =>
          rw [List.intercalate_cons_cons, List.flatMap_cons, ← ih (List.cons_ne_nil _ _)]
          simp

/-- The normal form of a text is the code on its lines without block comments. -/
theorem normalize_eq (text : List Char) : normalize text =
    withoutComments (Text.trim ((codeLines text).flatMap (' ' :: ·))) := by
  have blank : ∀ code, Text.trim (' ' :: code) = Text.trim code := fun _ => rfl
  rw [normalize, cleanLines, filterMap_codeLine?, filterMap_linesBehindPragma, stripComments]
  by_cases none : codeLines text = []
  · rw [none]
    rfl
  · rw [← cons_intercalate none, blank]

theorem codeLine?_of_trim {line line' : List Char} (same : Text.trim line = Text.trim line') :
    codeLine? line = codeLine? line' := by
  rw [codeLine?, codeLine?, same]

theorem codeLines_of_not_mem {line : List Char} (within : '\n' ∉ line) :
    codeLines line = (codeLine? line).toList := by
  by_cases none : line = []
  · rw [none]
    rfl
  · rw [codeLines, Text.lines_of_not_mem within none, List.filterMap_cons]
    cases codeLine? line <;> rfl

theorem codeLines_append_feed {line : List Char} (within : '\n' ∉ line) (rest : List Char) :
    codeLines (line ++ '\n' :: rest) = (codeLine? line).toList ++ codeLines rest := by
  obtain ⟨start, ending, found⟩ := Text.lines_append_feed within rest
  have same : Text.trim start = Text.trim line := by
    obtain rfl | rfl := ending
    · rfl
    · exact (Text.trim_append_blanks (by simp; decide) start).symm
  rw [codeLines, found, List.filterMap_cons, codeLine?_of_trim same]
  cases codeLine? line <;> rfl

theorem codeLines_append (text rest : List Char) :
    codeLines (text ++ '\n' :: rest) = codeLines text ++ codeLines rest := by
  induction text using Text.induction_lines with
  | last line within => rw [codeLines_append_feed within, codeLines_of_not_mem within]
  | more line text within ih =>
      rw [List.append_assoc, List.cons_append, codeLines_append_feed within, ih,
        codeLines_append_feed within, List.append_assoc]

end Header

end PxdStub
