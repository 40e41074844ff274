import PxdStub.Proofs.Scanning
import PxdStub.Proofs.Splicing

/-!
The normal form of a header and its tokens. The lexer passes over line comments, directives and
block comments in one scan; the normal form drops lines first and cuts comments out of what is left.
On texts where neither of the two is taken for the other, both leave the same lexemes.
-/

namespace PxdStub

/-! ### Lines -/

namespace Text

theorem exists_trim (text : List Char) : ∃ start ending, (∀ c ∈ start, isBlank c) ∧
    (∀ c ∈ ending, isBlank c) ∧ text = start ++ (trim text ++ ending) := by
  obtain ⟨start, blanks, whole⟩ := exists_trimLeft text
  obtain ⟨ending, blanks', inner⟩ := exists_trimRight (trimLeft text)
  exact ⟨start, ending, blanks, blanks', whole.trans (congrArg (start ++ ·) inner)⟩

theorem isInfix_trim (text : List Char) : trim text <:+: text := by
  obtain ⟨start, ending, _, _, whole⟩ := exists_trim text
  exact ⟨start, ending, by rw [List.append_assoc]; exact whole.symm⟩

theorem head?_margin {margin behind : List Char} (blanks : ∀ c ∈ margin, isBlank c)
    (next : behind.head?.all isBlank) : (margin ++ behind).head?.all isBlank := by
  cases margin with
  | nil => exact next
  | cons c margin => exact blanks c List.mem_cons_self

theorem head?_trimLeft_append {c : Char} {text : List Char} (head : (trimLeft text).head? = some c)
    (more : List Char) : (trimLeft (text ++ more)).head? = some c := by
  rw [trimLeft] at head ⊢
  rw [List.dropWhile_append, if_neg, List.head?_append, head]
  · rfl
  · intro none
    rw [List.isEmpty_iff.1 none] at head
    cases head

theorem splitLine_of_not_mem {line tail : List Char} (within : '\n' ∉ line)
    (ended : ∀ c ∈ tail.head?, c = '\n') : (splitLine (line ++ tail)).2 = tail.tail := by
  induction line with
  | nil =>
      cases tail with
      | nil => rfl
      | cons c rest => rw [List.nil_append, splitLine, if_pos (ended c rfl), List.tail_cons]
  | cons c line ih =>
      obtain ⟨here, there⟩ := List.ne_and_not_mem_of_not_mem_cons within
      rw [List.cons_append, splitLine, if_neg (Ne.symm here)]
      exact ih there

end Text

namespace Header

theorem isDirective_trim {line : List Char} (head : (Text.trimLeft line).head? = some '#') :
    isDirective (Text.trim line) := by
  obtain ⟨rest, start⟩ := List.head?_eq_some_iff.1 head
  rw [Text.trim, start, Text.trimRight_cons_ink (by rfl)]
  rfl

theorem flatMap_codeLine? {line : List Char} (plain : isDirective (Text.trim line) = false) :
    (codeLine? line).toList.flatMap (' ' :: ·) = padded (withoutLineComment (Text.trim line)) := by
  rw [codeLine?_of_plain plain, padded]
  split
  · rfl
  · exact List.flatMap_singleton _ _

/-- The code of a line with what stands behind it: blanks, and a line comment if there is one. No
line comment begins in front of that one. -/
structure IsCode (code margin comment : List Char) : Prop where
  blanks : ∀ c ∈ margin, Text.isBlank c
  ends : comment = [] ∨ ∃ rest, comment = '/' :: '/' :: rest
  noLine : ¬ ['/', '/'] <:+: code ++ (margin ++ comment.take 1)

theorem exists_isCode (line : List Char) :
    ∃ margin comment, IsCode (withoutLineComment line) margin comment ∧
      line = withoutLineComment line ++ (margin ++ comment) := by
  rw [withoutLineComment]
  split
  · next before behind found =>
      obtain ⟨margin, blanks, whole⟩ := Text.exists_trimRight before
      have first := Text.not_infix_of_cut? found (List.cons_ne_nil _ _)
      refine ⟨margin, '/' :: '/' :: behind, ⟨blanks, Or.inr ⟨_, rfl⟩, ?_⟩, ?_⟩
      · rw [← List.append_assoc, ← whole]
        exact first
      · rw [← List.append_assoc, ← whole, Text.eq_of_cut? found, List.append_assoc]
        rfl
  · next none =>
      refine ⟨[], [], ⟨by simp, Or.inl rfl, ?_⟩, ?_⟩
      · simpa using Text.not_infix_of_cut?_none none (List.cons_ne_nil _ _)
      · simp

end Header

namespace Lexes

variable {lines : Prop} {inComment : Bool} {lexemes : List Lexeme}

theorem of_margin {front margin behind : List Char} (blanks : ∀ c ∈ margin, Text.isBlank c)
    (next : behind.head?.all Text.isBlank)
    (lexes : Lexes False inComment (front ++ (margin ++ behind)) lexemes) :
    Lexes False inComment (front ++ behind) lexemes := by
  have head := Text.head?_margin blanks next
  have meets : Meets False inComment front (margin ++ behind) := by
    refine ⟨Lexeme.endsLexeme_of_blank head, False.elim, fun _ slash => ?_⟩
    rw [slash] at head
    cases head
  obtain ⟨_, read, left, split⟩ := splits lexes meets
  rw [split.whole]
  exact split.change next ((blanks_iff blanks).1 split.later)

theorem of_trimRight {text : List Char} (lexes : Lexes False inComment text lexemes) :
    Lexes False inComment (Text.trimRight text) lexemes := by
  obtain ⟨margin, blanks, whole⟩ := Text.exists_trimRight text
  rw [whole, ← List.append_nil margin] at lexes
  have trimmed := of_margin blanks (by rfl) lexes
  rwa [List.append_nil] at trimmed

theorem trimLeft_iff {text : List Char} :
    Lexes lines inComment (Text.trimLeft text) lexemes ↔ Lexes lines inComment text lexemes := by
  obtain ⟨margin, blanks, whole⟩ := Text.exists_trimLeft text
  conv_rhs => rw [whole]
  exact (blanks_iff blanks).symm

theorem of_trim {text : List Char} (lexes : Lexes False inComment text lexemes) :
    Lexes False inComment (Text.trim text) lexemes :=
  (trimLeft_iff.2 lexes).of_trimRight

theorem padded_append_iff {text behind : List Char} :
    Lexes lines inComment (Header.padded text ++ behind) lexemes ↔
      Lexes lines inComment (text ++ behind) lexemes := by
  rw [Header.padded]
  split
  · next none => rw [none]
  · exact blank_iff (by rfl)

theorem padded_iff {text : List Char} :
    Lexes lines inComment (Header.padded text) lexemes ↔ Lexes lines inComment text lexemes := by
  have same := @padded_append_iff lines inComment lexemes text []
  rwa [List.append_nil, List.append_nil] at same

/-! ### Block comments -/

theorem exists_close {text : List Char} (lexes : Lexes lines true text lexemes) :
    ∃ inside after, Delimiter.comment.close? 0 text = some (inside, after) ∧
      Lexes lines false after lexemes := by
  generalize opened : true = inComment at lexes
  induction lexes with
  | nil | blank | line | opening | lexeme => cases opened
  | closing later _ => exact ⟨[], _, Delimiter.close?_of_closes rfl rfl, later⟩
  | @inside c rest _ goesOn _ ih =>
      obtain ⟨inside, after, closed, later⟩ := ih opened
      have noOpening : Text.after? Delimiter.comment.opening (c :: rest) = none :=
        Text.after?_pair_eq_none.2 goesOn.noComment
      have noClosing : Text.after? Delimiter.comment.closing (c :: rest) = none :=
        Text.after?_pair_eq_none.2 goesOn.noClosing
      refine ⟨c :: inside, after, ?_, later⟩
      rw [Delimiter.close?_of_other noOpening noClosing, closed]
      rfl

theorem of_opening {behind : List Char}
    (lexes : Lexes False inComment ('/' :: '*' :: behind) lexemes) :
    inComment = false ∧ Lexes False true behind lexemes := by
  cases lexes with
  | blank blank _ => cases blank
  | line none _ _ => cases none
  | opening later => exact ⟨rfl, later⟩
  | lexeme begins _ _ => exact absurd rfl (begins.noComment rfl)
  | inside goesOn _ => exact absurd rfl (goesOn.noComment rfl)

/-- The first comment is found where the scan passes over one, and cutting it out leaves the
lexemes. -/
theorem exists_region {text before behind : List Char} (lexes : Lexes False false text lexemes)
    (opened : Text.cut? Delimiter.comment.opening text = some (before, behind)) :
    ∃ region, Region.find? .comment text = .ok (some region) ∧
      Lexes False false (Header.splice region.before region.after) lexemes := by
  have whole : text = before ++ '/' :: '*' :: behind := by
    rw [Text.eq_of_cut? opened, List.append_assoc]
    rfl
  have first := Text.not_infix_of_cut? opened (Delimiter.opening_ne_nil _)
  -- No comment opens before, so a star there closes none with the slash of the first marker.
  have meets : Meets False false before ('/' :: '*' :: behind) :=
    ⟨rfl, False.elim, fun _ _ => ⟨rfl, fun within => first
      (within.trans (List.prefix_append _ _).isInfix)⟩⟩
  rw [whole] at lexes
  obtain ⟨_, read, left, split⟩ := splits lexes meets
  obtain ⟨rfl, inner⟩ := of_opening split.later
  obtain ⟨inside, after, closed, later⟩ := exists_close inner
  refine ⟨_, Region.find?_eq_some_iff.2 ⟨_, _, _, _, opened, closed, rfl⟩, ?_⟩
  have next : (Header.padded (Text.trim after)).head?.all Text.isBlank := by
    rw [Header.padded]
    split <;> rfl
  have joined := split.change next (padded_iff.2 later.of_trim)
  obtain ⟨start, ending, blanks, blanks', outer⟩ := Text.exists_trim before
  rw [outer, List.append_assoc, blanks_iff blanks, List.append_assoc] at joined
  rw [split.whole, ← padded_iff, Header.padded_splice, padded_append_iff]
  exact of_margin blanks' next joined

theorem exists_withoutComments {text : List Char} (lexes : Lexes False false text lexemes) :
    ∃ code, Header.withoutComments text = .ok code ∧ Lexes False false code lexemes := by
  fun_induction Header.withoutComments text with
  | case1 text region found ih =>
      obtain ⟨before, behind, _, _, opened, _⟩ := Region.find?_eq_some_iff.1 found
      obtain ⟨region', found', later⟩ := exists_region lexes opened
      cases found.symm.trans found'
      exact ih later
  | case2 text none => exact ⟨text, rfl, lexes⟩
  | case3 text error found =>
      cases opened : Text.cut? Delimiter.comment.opening text with
      | none => cases found.symm.trans (Region.find?_eq_none_iff.2 opened)
      | some parts =>
          obtain ⟨region, found', _⟩ := exists_region lexes opened
          cases found.symm.trans found'

/-! ### Code on lines -/

theorem of_line {c : Char} {rest tail : List Char} (starts : Text.startsLine c (rest ++ tail))
    (within : '\n' ∉ rest) (ended : ∀ d ∈ tail.head?, d = '\n')
    (lexes : Lexes lines inComment (c :: (rest ++ tail)) lexemes) :
    Lexes lines inComment tail lexemes := by
  have line := Text.splitLine_of_not_mem within ended
  generalize rest ++ tail = behind at lexes starts line
  cases lexes with
  | blank blank _ =>
      rw [Text.startsLine_blank blank] at starts
      cases starts
  | line _ _ later =>
      rw [line] at later
      cases tail with
      | nil => exact later
      | cons d tail => exact .blank (by rw [ended d rfl]; rfl) later
  | opening _ | closing _ => cases starts
  | lexeme begins _ _ => cases starts.symm.trans begins.noLine
  | inside goesOn _ => cases starts.symm.trans goesOn.noLine

end Lexes

namespace Header.IsCode

variable {code margin comment tail : List Char}

theorem of_slash (isCode : IsCode code margin comment) (blank : tail.head?.all Text.isBlank)
    (slash : (margin ++ (comment ++ tail)).head? = some '/') :
    margin = [] ∧ ∃ rest, comment = '/' :: '/' :: rest := by
  cases margin with
  | cons c margin =>
      cases slash
      cases isCode.blanks '/' List.mem_cons_self
  | nil =>
      obtain rfl | found := isCode.ends
      · rw [List.nil_append, List.nil_append] at slash
        rw [slash] at blank
        cases blank
      · exact ⟨rfl, found⟩

theorem meets (isCode : IsCode code margin comment) (blank : tail.head?.all Text.isBlank)
    (plain : '#' ∉ code) (apart : ¬ ['*', '/', '/'] <:+: code ++ (margin ++ comment))
    (inComment : Bool) : Meets True inComment code (margin ++ (comment ++ tail)) where
  ends := by
    cases margin with
    | cons c margin => exact Lexeme.endsLexeme_of_blank (isCode.blanks c List.mem_cons_self)
    | nil =>
        obtain rfl | ⟨rest, rfl⟩ := isCode.ends
        · exact Lexeme.endsLexeme_of_blank blank
        · rfl
  noLine := fun _ c rest within => by
    by_contra starts
    obtain rfl | ⟨rfl, head⟩ := Text.startsLine_iff.1 (Bool.eq_true_of_not_eq_false starts)
    · exact plain (within.subset List.mem_cons_self)
    · obtain ⟨start, rfl⟩ := within
      refine isCode.noLine ?_
      cases rest with
      | cons d rest =>
          cases head
          exact ⟨start, rest ++ (margin ++ comment.take 1), by simp⟩
      | nil =>
          obtain ⟨rfl, more, rfl⟩ := isCode.of_slash blank head
          exact ⟨start, [], by simp⟩
  noClosing := fun last slash => by
    obtain ⟨rfl, rest, rfl⟩ := isCode.of_slash blank slash
    obtain ⟨start, rfl⟩ := List.getLast?_eq_some_iff.1 last
    exact absurd ⟨start, rest, by simp⟩ apart

end Header.IsCode

namespace Lexes

variable {inComment : Bool} {lexemes : List Lexeme}

theorem of_behindCode {code margin comment ending tail : List Char}
    (isCode : Header.IsCode code margin comment) (blanks : ∀ c ∈ ending, Text.isBlank c)
    (within : '\n' ∉ comment ++ ending) (ended : ∀ c ∈ tail.head?, c = '\n')
    (lexes : Lexes True inComment (margin ++ (comment ++ (ending ++ tail))) lexemes) :
    Lexes True inComment tail lexemes := by
  rw [blanks_iff isCode.blanks] at lexes
  obtain rfl | ⟨rest, rfl⟩ := isCode.ends
  · exact (blanks_iff blanks).1 lexes
  · rw [← List.append_assoc] at lexes
    exact of_line (by rfl) (fun mem => within (List.mem_cons_of_mem _ mem)) ended lexes

/-- A line can be replaced by its code, in front of any text that leaves the same lexemes. -/
theorem of_codeLine {line tail tail' : List Char} (within : '\n' ∉ line)
    (ended : ∀ c ∈ tail.head?, c = '\n')
    (directive : '#' ∈ line → (Text.trimLeft line).head? = some '#')
    (apart : ¬ ['*', '/', '/'] <:+: line) (next : tail'.head?.all Text.isBlank)
    (kept : ∀ {inComment lexemes}, Lexes True inComment tail lexemes →
      Lexes False inComment tail' lexemes)
    (lexes : Lexes True inComment (line ++ tail) lexemes) :
    Lexes False inComment ((Header.codeLine? line).toList.flatMap (' ' :: ·) ++ tail') lexemes := by
  obtain ⟨start, ending, blanks, blanks', whole⟩ := Text.exists_trim line
  have inner : Text.trim line ++ ending <:+ line := ⟨start, whole.symm⟩
  have feed : '\n' ∉ Text.trim line ++ ending := fun mem => within (inner.subset mem)
  have blank : (ending ++ tail).head?.all Text.isBlank := by
    refine Text.head?_margin blanks' ?_
    cases tail with
    | nil => rfl
    | cons c tail => rw [ended c rfl]; rfl
  rw [whole, List.append_assoc, blanks_iff blanks, List.append_assoc] at lexes
  cases plain : Header.isDirective (Text.trim line) with
  | true =>
      obtain ⟨rest, head⟩ := List.head?_eq_some_iff.1 (of_decide_eq_true plain)
      rw [head, List.cons_append, ← List.append_assoc] at lexes
      rw [head, List.cons_append] at feed
      rw [Header.codeLine?_of_isDirective plain]
      exact kept (of_line (by rfl) (fun mem => feed (List.mem_cons_of_mem _ mem)) ended lexes)
  | false =>
      have noDirective : '#' ∉ line := fun mem => by
        cases plain.symm.trans (Header.isDirective_trim (directive mem))
      obtain ⟨margin, comment, isCode, cut⟩ := Header.exists_isCode (Text.trim line)
      rw [Header.flatMap_codeLine? plain, padded_append_iff]
      generalize Header.withoutLineComment (Text.trim line) = code at isCode cut
      rw [cut, List.append_assoc, List.append_assoc] at lexes
      rw [cut] at inner feed
      have inside : code ++ (margin ++ comment) <:+: line :=
        (List.prefix_append _ _).isInfix.trans inner.isInfix
      have behind : comment ++ ending <:+ code ++ (margin ++ comment) ++ ending :=
        ⟨code ++ margin, by simp⟩
      -- The scan is cut behind the code; from there to the next line it finds nothing.
      have meets := isCode.meets blank
        (fun mem => noDirective (inside.subset (List.mem_append_left _ mem)))
        (fun within => apart (within.trans inside)) inComment
      obtain ⟨_, read, left, split⟩ := splits lexes meets
      rw [split.whole]
      exact split.change next (kept (of_behindCode isCode blanks'
        (fun mem => feed (behind.subset mem)) ended split.later))

theorem of_codeLines {raw : List Char}
    (directives : ∀ line ∈ Text.lines raw, '#' ∈ line → (Text.trimLeft line).head? = some '#')
    (apart : ¬ ['*', '/', '/'] <:+: raw) (lexes : Lexes True inComment raw lexemes) :
    Lexes False inComment ((Header.codeLines raw).flatMap (' ' :: ·)) lexemes := by
  induction raw using Text.induction_lines generalizing inComment lexemes with
  | last line within =>
      have directive : '#' ∈ line → (Text.trimLeft line).head? = some '#' := by
        intro mem
        refine directives line ?_ mem
        rw [Text.lines_of_not_mem within (List.ne_nil_of_mem mem)]
        exact List.mem_singleton_self line
      rw [← List.append_nil line] at lexes
      rw [Header.codeLines_of_not_mem within, ← List.append_nil (List.flatMap _ _)]
      refine of_codeLine within (by simp) directive apart (by rfl) (fun empty => ?_) lexes
      cases empty
      exact .nil
  | more line rest within ih =>
      -- A carriage return in front of the line feed is no part of the line, but it is blank.
      obtain ⟨start, ending, found⟩ := Text.lines_append_feed within rest
      rw [found] at directives
      obtain ⟨here, there⟩ := List.forall_mem_cons.1 directives
      have directive : '#' ∈ line → (Text.trimLeft line).head? = some '#' := by
        obtain rfl | rfl := ending
        · exact here
        · intro mem
          exact Text.head?_trimLeft_append (here (by simpa using mem)) _
      have outer : rest <:+: line ++ '\n' :: rest := ⟨line ++ ['\n'], [], by simp⟩
      rw [Header.codeLines_append_feed within, List.flatMap_append]
      refine of_codeLine within (by simp) directive
        (fun inside => apart (inside.trans (List.prefix_append _ _).isInfix)) ?_
        (fun later => ih there (fun inside => apart (inside.trans outer))
          ((blank_iff (by rfl)).1 later)) lexes
      cases Header.codeLines rest <;> rfl

end Lexes

/-! ### The normal form -/

namespace Header

/-- The normal form of a text has the tokens of the text, if directives stand on lines of their own
and block comments hold no mark of a comment or directive. -/
theorem tokens_of_normalize {raw : List Char} {lexed : Lexed}
    (unquoted : ∀ c ∈ raw, c ≠ '"' ∧ c ≠ '\'')
    (directives : ∀ line ∈ Text.lines raw, '#' ∈ line → (Text.trimLeft line).head? = some '#')
    (simple : ∀ comment ∈ lexed.comments, Text.IsSimpleComment comment)
    (apart : ¬ ['*', '/', '/'] <:+: raw) (found : Lexed.ofText raw = .ok lexed) :
    ∃ code lexed', normalize raw = .ok code ∧ Lexed.ofText code = .ok lexed' ∧
      lexed'.tokens.map Token.lexeme = lexed.tokens.map Token.lexeme := by
  have lexes := Lexes.of_codeLines directives apart (Lexes.of_ofText found unquoted simple)
  obtain ⟨code, normal, later⟩ := lexes.of_trim.exists_withoutComments
  obtain ⟨lexed', found', same⟩ := later.ofText
  exact ⟨code, lexed', (normalize_eq raw).trans normal, found', same⟩

theorem tokens_of_normalize_over_lines : ∃ lexed : Lexed,
    Lexed.ofText "#d\nx/* a\nb*/y //z".toList = .ok lexed ∧
      lexed.comments = [" a\nb*/".toList] ∧
      ∃ code lexed', normalize "#d\nx/* a\nb*/y //z".toList = .ok code ∧
        Lexed.ofText code = .ok lexed' ∧
        lexed'.tokens.map Token.lexeme = [.identifier "x", .identifier "y"] := by
  obtain ⟨lexed, found, comments, tokens⟩ : ∃ lexed : Lexed,
      Lexed.ofText "#d\nx/* a\nb*/y //z".toList = .ok lexed ∧
        lexed.comments = [" a\nb*/".toList] ∧
        lexed.tokens.map Token.lexeme = [.identifier "x", .identifier "y"] := by
    refine ⟨⟨"#d\n".toList, [⟨.identifier "x", 3, "/* a\nb*/".toList⟩,
      ⟨.identifier "y", 12, " //z".toList⟩]⟩, ?_, ?_, ?_⟩ <;> cbv
  have simple : ∀ comment ∈ lexed.comments, Text.IsSimpleComment comment := by
    rw [comments, List.forall_mem_singleton]
    exact ⟨by decide, by decide, by decide⟩
  rw [← tokens]
  refine ⟨lexed, found, comments, tokens_of_normalize ?unquoted ?directives simple ?apart found⟩
  case unquoted => simp
  case directives =>
    simp only [String.reduceToList]
    decide
  case apart =>
    simp only [String.reduceToList]
    decide

end Header

end PxdStub
