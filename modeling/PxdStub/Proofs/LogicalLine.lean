import PxdStub.Proofs.Idempotence
import PxdStub.Proofs.LexicalErrors

/-!
The normal form of a header is one logical line: no comment begins in it, not even where pieces of
it meet, so the lexer comes to no comment in any part of it. All that is not blank comes from the
header, in the same order.
-/

namespace PxdStub

/-! ### Text without comments -/

namespace Text

/-- Text on one line in which no comment begins. -/
structure IsUncommented (text : List Char) : Prop where
  oneLine : '\n' ∉ text
  noLine : ¬ ['/', '/'] <:+: text
  noComment : ¬ ['/', '*'] <:+: text

/-- Blanks, with at most one directive behind them, which ends with its line. -/
def IsPlainGap (gap : List Char) : Prop :=
  ∃ blanks directive, gap = blanks ++ directive ∧ (∀ c ∈ blanks, isBlank c) ∧
    (∀ c ∈ directive.head?, c = '#') ∧ '\n' ∉ directive

theorem IsUncommented.of_infix {part text : List Char} (uncommented : IsUncommented text)
    (within : part <:+: text) : IsUncommented part :=
  ⟨fun mem => uncommented.oneLine (within.subset mem),
    fun mark => uncommented.noLine (mark.trans within),
    fun mark => uncommented.noComment (mark.trans within)⟩

theorem IsUncommented.isPlainGap {text : List Char} (uncommented : IsUncommented text) :
    IsPlainGap (splitGap text).1 := by
  obtain ⟨blanks, directive, gap, allBlank, head⟩ :=
    exists_blanks_splitGap uncommented.noLine uncommented.noComment
  refine ⟨blanks, directive, gap, allBlank, head, fun feed => uncommented.oneLine ?_⟩
  have within : '\n' ∈ (splitGap text).1 := gap ▸ List.mem_append_right blanks feed
  exact splitGap_append text ▸ List.mem_append_left _ within

end Text

/-! ### Lexing -/

namespace Lexed

/-- What stands in front of the tokens and behind each of them. -/
def gaps (lexed : Lexed) : List (List Char) :=
  lexed.lead :: lexed.tokens.map Token.gap

variable {text : List Char}

theorem isPlainGap_of_ofText {lexed : Lexed} (found : ofText text = .ok lexed)
    (uncommented : Text.IsUncommented text) : ∀ gap ∈ lexed.gaps, Text.IsPlainGap gap := by
  obtain ⟨tokens, read, rfl⟩ := Except.map_ok_iff.1 found
  refine List.forall_mem_cons.2 ⟨uncommented.isPlainGap, List.forall_mem_map.2 ?_⟩
  intro token mem
  obtain ⟨c, rest, after, place, behind, _, gap⟩ := Token.read?_of_mem_readFrom read mem
  rw [gap]
  have within := (behind.trans (List.suffix_cons c rest)).trans place
  exact (uncommented.of_infix (within.trans (Text.suffix_splitGap text)).isInfix).isPlainGap

/-- Only a literal can be left open. -/
theorem error_of_uncommented {error : ParseError} (failed : ofText text = .error error)
    (uncommented : Text.IsUncommented text) : ∃ front lexed, front <+: text ∧
      ofText front = .ok lexed ∧ error = .unclosedLiteral (Text.size front) := by
  obtain ⟨front, behind, defect, rfl, unclosed, offset, ⟨lexed, found⟩, _⟩ :=
    unclosed_of_ofText failed
  cases unclosed with
  | literal => exact ⟨front, lexed, List.prefix_append _ _, found, offset⟩
  | @comment rest => exact absurd ⟨front, rest, by simp⟩ uncommented.noComment

end Lexed

/-! ### Ink -/

namespace Text

/-- The characters of a text that are not blank. -/
def ink (text : List Char) : List Char :=
  text.filter fun c => !isBlank c

theorem ink_append (front back : List Char) : ink (front ++ back) = ink front ++ ink back :=
  List.filter_append _ _

theorem ink_of_blanks {margin : List Char} (blanks : ∀ c ∈ margin, isBlank c) : ink margin = [] :=
  List.filter_eq_nil_iff.2 fun c mem => by simp [blanks c mem]

theorem ink_trim (text : List Char) : ink (trim text) = ink text := by
  obtain ⟨start, ending, blanks, blanks', whole⟩ := exists_trim text
  conv_rhs => rw [whole, ink_append, ink_append, ink_of_blanks blanks, ink_of_blanks blanks']
  rw [List.nil_append, List.append_nil]

theorem flatten_lines_sublist (text : List Char) : (lines text).flatten.Sublist text := by
  fun_induction lines text with
  | case1 => exact .slnil
  | case2 rest ih => exact ih.cons _
  | case3 rest ih => exact (ih.cons _).cons _
  | case4 c rest _ _ line more found ih =>
      rw [found] at ih
      exact ih.cons_cons c
  | case5 c rest _ _ found ih => exact (List.nil_sublist rest).cons_cons c

end Text

namespace Header

theorem ink_padded (text : List Char) : Text.ink (padded text) = Text.ink text := by
  rw [padded]
  split
  · next none => rw [none]
  · exact List.filter_cons_of_neg (by decide)

theorem ink_splice (before after : List Char) :
    Text.ink (splice before after) = Text.ink before ++ Text.ink after := by
  rw [← ink_padded, padded_splice, Text.ink_append, ink_padded, ink_padded]

theorem ink_withoutComments {text code : List Char} (found : withoutComments text = .ok code) :
    (Text.ink code).Sublist (Text.ink text) := by
  fun_induction withoutComments text with
  | case1 text region here ih =>
      obtain ⟨before, behind, inside, after, opened, closed, rfl⟩ := Region.find?_eq_some_iff.1 here
      have later := ih found
      rw [ink_splice, Text.ink_trim, Text.ink_trim] at later
      rw [Text.eq_of_cut? opened, Delimiter.eq_of_close? closed, Text.ink_append, Text.ink_append,
        Text.ink_append]
      refine later.trans (.append (List.sublist_append_left _ _) ?_)
      exact List.sublist_append_right _ _
  | case2 text none =>
      cases found
      exact List.Sublist.refl _
  | case3 => cases found

theorem sublist_of_codeLine? {line code : List Char} (found : codeLine? line = some code) :
    code.Sublist line := by
  rw [eq_of_codeLine? found]
  have within := withoutLineComment_isPrefix (Text.isTrimmed_trim line)
  exact within.sublist.trans (Text.isInfix_trim line).sublist

theorem ink_filterMap_codeLine? (lines : List (List Char)) :
    (Text.ink ((lines.filterMap codeLine?).flatMap (' ' :: ·))).Sublist
      (Text.ink lines.flatten) := by
  induction lines with
  | nil => exact List.Sublist.refl _
  | cons line lines ih =>
      rw [List.flatten_cons, Text.ink_append, List.filterMap_cons]
      split
      · exact ih.trans (List.sublist_append_right _ _)
      · next code found =>
          have here : (Text.ink (' ' :: code)).Sublist (Text.ink line) := by
            rw [Text.ink, List.filter_cons_of_neg (by decide)]
            exact (sublist_of_codeLine? found).filter _
          rw [List.flatMap_cons, Text.ink_append]
          exact here.append ih

theorem ink_normalize {text code : List Char} (normal : normalize text = .ok code) :
    (Text.ink code).Sublist (Text.ink text) := by
  rw [normalize_eq] at normal
  have joined := ink_withoutComments normal
  rw [Text.ink_trim] at joined
  have kept := ink_filterMap_codeLine? (Text.lines text)
  exact (joined.trans kept).trans ((Text.flatten_lines_sublist text).filter _)

/-- The normal form of a header is trimmed and free of comments, and so is every part of it for the
lexer: only blanks and directives stand between its tokens, and nothing but a literal can be left
open. Its ink is ink of the header. -/
theorem normalize_uncommented {text code : List Char} (normal : normalize text = .ok code) :
    Text.IsTrimmed code ∧ Text.IsUncommented code ∧
      (∀ part, part <:+: code → Text.IsPlainGap (Text.splitGap part).1 ∧
        (∀ lexed, Lexed.ofText part = .ok lexed → ∀ gap ∈ lexed.gaps, Text.IsPlainGap gap) ∧
        ∀ error, Lexed.ofText part = .error error → ∃ front lexed, front <+: part ∧
          Lexed.ofText front = .ok lexed ∧ error = .unclosedLiteral (Text.size front)) ∧
      (Text.ink code).Sublist text := by
  obtain ⟨flat, plain⟩ := isFlat_of_normalize normal
  have uncommented : Text.IsUncommented code := ⟨flat.oneLine, flat.uncommented,
    Text.not_infix_of_cut?_none plain (List.cons_ne_nil _ _)⟩
  refine ⟨flat.trimmed, uncommented, fun part within => ?_, ?_⟩
  · have inner := uncommented.of_infix within
    exact ⟨inner.isPlainGap, fun lexed found => Lexed.isPlainGap_of_ofText found inner,
      fun error failed => Lexed.error_of_uncommented failed inner⟩
  · exact (ink_normalize normal).trans List.filter_sublist

theorem normalize_uncommented_slashes : ∃ code lexed,
    normalize "int a = 8 /\n/ 2; // b\n/* c\n*/ char d = '#'; # e".toList = .ok code ∧
      code = "int a = 8 / / 2; char d = '#'; # e".toList ∧ Text.IsUncommented code ∧
      Lexed.ofText code = .ok lexed ∧ " # e".toList ∈ lexed.gaps ∧
      (∀ gap ∈ lexed.gaps, Text.IsPlainGap gap) ∧
      (Text.ink code).Sublist "int a = 8 /\n/ 2; // b\n/* c\n*/ char d = '#'; # e".toList := by
  have comment : Region.find? .comment "int a = 8 / / 2; /* c */ char d = '#'; # e".toList =
      .ok (some ⟨"int a = 8 / / 2;".toList, "c".toList, "char d = '#'; # e".toList⟩) := by cbv
  have lines : Text.trim ((codeLines
      "int a = 8 /\n/ 2; // b\n/* c\n*/ char d = '#'; # e".toList).flatMap (' ' :: ·)) =
        "int a = 8 / / 2; /* c */ char d = '#'; # e".toList := by cbv
  have normal : normalize "int a = 8 /\n/ 2; // b\n/* c\n*/ char d = '#'; # e".toList =
      .ok "int a = 8 / / 2; char d = '#'; # e".toList := by
    rw [normalize_eq, lines, withoutComments_of_find? comment]
    exact withoutComments_of_cut? (by cbv)
  let tokens : List Token := [⟨.keyword .int, 0, [' ']⟩, ⟨.identifier "a", 4, [' ']⟩,
    ⟨.punctuation .equals, 6, [' ']⟩, ⟨.number "8", 8, [' ']⟩, ⟨.symbol '/', 10, [' ']⟩,
    ⟨.symbol '/', 12, [' ']⟩, ⟨.number "2", 14, []⟩, ⟨.punctuation .semicolon, 15, [' ']⟩,
    ⟨.identifier "char", 17, [' ']⟩, ⟨.identifier "d", 22, [' ']⟩,
    ⟨.punctuation .equals, 24, [' ']⟩, ⟨.character "#", 26, []⟩,
    ⟨.punctuation .semicolon, 29, " # e".toList⟩]
  have found : Lexed.ofText "int a = 8 / / 2; char d = '#'; # e".toList = .ok ⟨[], tokens⟩ := by cbv
  obtain ⟨_, uncommented, parts, ink⟩ := normalize_uncommented normal
  have gaps := (parts _ (List.infix_refl _)).2.1 _ found
  exact ⟨_, _, normal, rfl, uncommented, found, by decide, gaps, ink⟩

end Header

end PxdStub
