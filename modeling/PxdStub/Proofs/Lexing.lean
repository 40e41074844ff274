import PxdStub.Proofs.Reading
import PxdStub.Token.Lexer

/-!
What the lexer gives. A gap is made of blanks, directives and comments; every lexeme has a spelling,
and identifiers are words that are no keywords.
-/

namespace PxdStub

/-! ### Gaps -/

namespace Text

theorem splitGap_blank {c : Char} (blank : isBlank c) (rest : List Char) :
    splitGap (c :: rest) = (c :: (splitGap rest).1, (splitGap rest).2) := by
  rw [splitGap, if_pos blank]

theorem splitGap_nil : splitGap [] = ([], []) := by
  rw [splitGap]

theorem suffix_splitGap (text : List Char) : (splitGap text).2 <:+ text :=
  ⟨(splitGap text).1, splitGap_append text⟩

/-- Directives and line comments. -/
def startsLine (c : Char) (rest : List Char) : Bool :=
  c = '#' || c = '/' && rest.head? = some '/'

theorem startsLine_iff {c : Char} {rest : List Char} :
    startsLine c rest ↔ c = '#' ∨ c = '/' ∧ rest.head? = some '/' := by
  simp [startsLine]

theorem splitGap_line {c : Char} {rest : List Char} (starts : startsLine c rest) :
    splitGap (c :: rest) = (c :: (splitLine rest).1 ++ (splitGap (splitLine rest).2).1,
      (splitGap (splitLine rest).2).2) := by
  obtain rfl | ⟨rfl, head⟩ := startsLine_iff.1 starts
  · rw [splitGap, if_neg (by decide), if_pos rfl]
  · rw [splitGap, if_neg (by decide), if_neg (by decide), if_pos (by simp [head])]

theorem splitGap_comment {rest inside after : List Char}
    (closed : splitComment? rest = some (inside, after)) :
    splitGap ('/' :: '*' :: rest) =
      ('/' :: '*' :: inside ++ (splitGap after).1, (splitGap after).2) := by
  rw [splitGap, if_neg (by decide), if_neg (by decide), if_neg (by simp), if_pos (by simp)]
  split
  · next inside' after' found =>
      cases closed.symm.trans found
      rfl
  · next none => cases closed.symm.trans none

theorem splitGap_other {c : Char} {rest : List Char} (ink : isBlank c = false) (hash : c ≠ '#')
    (slash : c = '/' → rest.head? ≠ some '/' ∧ rest.head? ≠ some '*') :
    splitGap (c :: rest) = ([], c :: rest) := by
  rw [splitGap, if_neg (by simp [ink]), if_neg hash, if_neg, if_neg]
  · simp only [Bool.and_eq_true, decide_eq_true_eq]
    exact fun opened => (slash opened.1).2 opened.2
  · simp only [Bool.and_eq_true, decide_eq_true_eq]
    exact fun opened => (slash opened.1).1 opened.2

/-- Where no comment begins, a gap is blank up to its first directive. -/
theorem exists_blanks_splitGap {text : List Char} (noLine : ¬ ['/', '/'] <:+: text)
    (noComment : ¬ ['/', '*'] <:+: text) : ∃ blanks directive,
      (splitGap text).1 = blanks ++ directive ∧ (∀ c ∈ blanks, isBlank c) ∧
        ∀ c ∈ directive.head?, c = '#' := by
  fun_induction splitGap text with
  | case1 | case6 | case7 => exact ⟨[], [], rfl, by simp, by simp⟩
  | case2 c rest blank ih =>
      have inside : ∀ {mark}, mark <:+: rest → mark <:+: c :: rest := fun within =>
        within.trans (List.suffix_cons c rest).isInfix
      obtain ⟨blanks, directive, gap, allBlank, head⟩ :=
        ih (fun mark => noLine (inside mark)) (fun mark => noComment (inside mark))
      exact ⟨c :: blanks, directive, congrArg (c :: ·) gap,
        List.forall_mem_cons.2 ⟨blank, allBlank⟩, head⟩
  | case3 => exact ⟨[], _, rfl, by simp, by simp⟩
  | case4 c rest _ _ slashes =>
      simp only [Bool.and_eq_true, decide_eq_true_eq] at slashes
      obtain ⟨rfl, head⟩ := slashes
      obtain ⟨more, rfl⟩ := List.head?_eq_some_iff.1 head
      exact absurd ⟨[], more, rfl⟩ noLine
  | case5 c rest _ _ _ opened =>
      simp only [Bool.and_eq_true, decide_eq_true_eq] at opened
      obtain ⟨rfl, head⟩ := opened
      obtain ⟨more, rfl⟩ := List.head?_eq_some_iff.1 head
      exact absurd ⟨[], more, rfl⟩ noComment

end Text

/-! ### Lexemes -/

namespace Lexeme

theorem takeWhile_of_head {stops : Char → Bool} {word text : List Char} (within : word.all stops)
    (ends : text.head?.all fun next => !stops next) :
    (word ++ text).takeWhile stops = word ∧ (word ++ text).dropWhile stops = text := by
  induction word with
  | nil =>
      cases text with
      | nil => exact ⟨rfl, rfl⟩
      | cons c text =>
          simp only [List.head?_cons, Option.all_some, Bool.not_eq_true'] at ends
          simp [ends]
  | cons c word ih =>
      simp only [List.all_cons, Bool.and_eq_true] at within
      obtain ⟨take, drop⟩ := ih within.2
      simp [within.1, take, drop]

/-- A run of characters ends where text follows that does not go on with it. -/
theorem takeWhile_append_of_head {stops : Char → Bool} {behind : List Char}
    (ends : behind.head?.all fun next => !stops next) (text : List Char) :
    (text ++ behind).takeWhile stops = text.takeWhile stops ∧
      (text ++ behind).dropWhile stops = text.dropWhile stops ++ behind := by
  induction text with
  | nil => exact takeWhile_of_head (by rfl) ends
  | cons c text ih =>
      rw [List.cons_append, List.takeWhile_cons, List.takeWhile_cons, List.dropWhile_cons,
        List.dropWhile_cons, ih.1, ih.2]
      split
      · exact ⟨rfl, rfl⟩
      · exact ⟨rfl, rfl⟩

/-- Words that the lexer gives as identifiers. -/
def isName (word : String) : Bool :=
  match word.toList with
  | [] => false
  | c :: rest =>
      isWordStart c && rest.all isWordPart && (Keyword.ofSpelling? word).isNone

/-- What holds of every lexeme of a text. -/
structure IsRead (lexeme : Lexeme) : Prop where
  spelled : lexeme.spelling ≠ []
  named : ∀ name, lexeme = .identifier name → isName name

theorem spelling_ofWord (word : String) : (ofWord word).spelling = word.toList := by
  unfold ofWord
  split
  · next known found =>
      have same := List.find?_some found
      simp only [decide_eq_true_eq] at same
      rw [← same]
      rfl
  · rfl

theorem isRead_ofWord {c : Char} {rest : List Char} (starts : isWordStart c)
    (goesOn : rest.all isWordPart) : (ofWord (String.ofList (c :: rest))).IsRead := by
  unfold ofWord
  split
  · next known found =>
      refine ⟨?_, fun name other => by cases other⟩
      cases known <;> decide
  · next unknown =>
      refine ⟨by simp [spelling], ?_⟩
      intro name same
      cases same
      simp only [isName, String.toList_ofList, starts, goesOn, unknown]
      rfl

theorem isRead_ofChar (c : Char) : (ofChar c).IsRead := by
  unfold ofChar
  split <;> exact ⟨by simp [spelling, Bracket.opening, Bracket.closing, Punctuation.spelling],
    fun name other => by cases other⟩

theorem isRead_of_read? {c : Char} {rest after : List Char} {lexeme : Lexeme}
    (found : read? c rest = some (lexeme, after)) : lexeme.IsRead := by
  unfold read? at found
  split at found
  · obtain ⟨_, _, same⟩ := Option.map_eq_some_iff.1 found
    cases same
    exact ⟨by simp [spelling], fun name other => by cases other⟩
  · split at found
    · obtain ⟨_, _, same⟩ := Option.map_eq_some_iff.1 found
      cases same
      exact ⟨by simp [spelling], fun name other => by cases other⟩
    · split at found
      · cases found
        exact ⟨by simp [spelling], fun name other => by cases other⟩
      · split at found
        · next starts =>
            cases found
            exact isRead_ofWord starts List.all_takeWhile
        · split at found <;> cases found
          · exact ⟨by simp [spelling, Punctuation.spelling], fun name other => by cases other⟩
          · exact ⟨by simp [spelling, Punctuation.spelling], fun name other => by cases other⟩
          · exact isRead_ofChar c

end Lexeme

/-- Tokens as the lexer gives them. -/
def Token.AreRead (tokens : List Token) : Prop :=
  ∀ token ∈ tokens, token.lexeme.IsRead

theorem Token.areRead_of_readFrom {start : Nat} {text : List Char} {tokens : List Token}
    (found : readFrom start text = .ok tokens) : AreRead tokens := by
  fun_induction readFrom start text generalizing tokens with
  | case1 =>
      cases found
      intro token mem
      cases mem
  | case2 => cases found
  | case3 => cases found
  | case4 start c rest plain lexeme after read gap next =>
      rename_i ih
      obtain ⟨later, further, rfl⟩ := Except.map_ok_iff.1 found
      exact List.forall_mem_cons.2 ⟨Lexeme.isRead_of_read? read, ih further⟩

theorem Token.opens_comment_of_ok {start : Nat} {text : List Char} {tokens : List Token}
    (found : readFrom start text = .ok tokens) :
    Text.startsWith Delimiter.comment.opening text = false := by
  cases text with
  | nil => rfl
  | cons c rest =>
      rw [readFrom] at found
      split at found
      · cases found
      · next plain => simpa using plain

theorem Lexed.areRead_of_ofText {text : List Char} {lexed : Lexed}
    (found : ofText text = .ok lexed) : Token.AreRead lexed.tokens := by
  obtain ⟨tokens, read, rfl⟩ := Except.map_ok_iff.1 found
  exact Token.areRead_of_readFrom read

end PxdStub
