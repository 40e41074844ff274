import PxdStub.Proofs.ItemLocality
import PxdStub.Proofs.Relexing

/-!
Texts one behind the other. A line feed separates tokens, so a text keeps its tokens when another
follows on a new line; as items are local, it keeps its declarations as well.
-/

namespace PxdStub

/-! ### Gaps and lexemes in front of more text -/

namespace Text

/-- A line ends within a text, or it runs on into the text behind. -/
theorem splitLine_append_cases (text : List Char) :
    (∀ behind, splitLine (text ++ behind) = ((splitLine text).1, (splitLine text).2 ++ behind)) ∨
      splitLine text = (text, []) ∧ ∀ behind,
        splitLine (text ++ behind) = (text ++ (splitLine behind).1, (splitLine behind).2) := by
  induction text with
  | nil => exact .inr ⟨rfl, fun _ => rfl⟩
  | cons c text ih =>
      by_cases feed : c = '\n'
      · left
        simp [splitLine, feed]
      · obtain there | ⟨here, there⟩ := ih
        · left
          simp [splitLine, feed, there]
        · right
          simp [splitLine, feed, here, there]

theorem splitComment?_append {text inside after : List Char}
    (found : splitComment? text = some (inside, after)) (more : List Char) :
    splitComment? (text ++ more) = some (inside, after ++ more) := by
  fun_induction splitComment? text generalizing inside with
  | case1 => cases found
  | case2 rest =>
      cases found
      rfl
  | case3 c rest other ih =>
      obtain ⟨⟨inner, rest'⟩, later, same⟩ := Option.map_eq_some_iff.1 found
      cases same
      rw [List.cons_append, splitComment?, ih later]
      · rfl
      · intro behind star slash
        cases rest with
        | nil => cases later
        | cons d rest =>
            simp only [List.cons_append, List.cons.injEq] at slash
            exact other rest star (by rw [slash.1])

/-- What comes of the gap in front of a text when more text follows. A text that is all gap runs on
into the gap or the line behind it, where nothing else is left of it the gap stays. -/
inductive GapGoesOn (text : List Char) : Prop
  | gap : (splitGap text).2 = [] →
      (∀ behind, splitGap (text ++ behind) = (text ++ (splitGap behind).1, (splitGap behind).2)) →
      GapGoesOn text
  | line : (splitGap text).2 = [] →
      (∀ behind, splitGap (text ++ behind) =
        (text ++ ((splitLine behind).1 ++ (splitGap (splitLine behind).2).1),
          (splitGap (splitLine behind).2).2)) →
      GapGoesOn text
  | code : (splitGap text).2 ≠ [] →
      (∀ behind, behind.head? ≠ some '/' → behind.head? ≠ some '*' →
        splitGap (text ++ behind) = ((splitGap text).1, (splitGap text).2 ++ behind)) →
      GapGoesOn text

theorem GapGoesOn.prepend {front text : List Char}
    (step : ∀ behind, splitGap (front ++ (text ++ behind)) =
      (front ++ (splitGap (text ++ behind)).1, (splitGap (text ++ behind)).2))
    (goesOn : GapGoesOn text) : GapGoesOn (front ++ text) := by
  have here := step []
  rw [List.append_nil] at here
  cases goesOn with
  | gap none goes =>
      refine .gap (by rw [here, none]) fun behind => ?_
      rw [List.append_assoc, step, goes, List.append_assoc]
  | line none goes =>
      refine .line (by rw [here, none]) fun behind => ?_
      rw [List.append_assoc, step, goes, List.append_assoc]
  | code some goes =>
      refine .code (by rw [here]; exact some) fun behind slash star => ?_
      rw [List.append_assoc, step, goes behind slash star, here]

theorem gapGoesOn_line {c : Char} {rest : List Char}
    (starts : ∀ behind, startsLine c (rest ++ behind))
    (goesOn : GapGoesOn (splitLine rest).2) : GapGoesOn (c :: rest) := by
  have starts' := starts []
  rw [List.append_nil] at starts'
  obtain there | ⟨here, there⟩ := splitLine_append_cases rest
  · have front : c :: rest = (c :: (splitLine rest).1) ++ (splitLine rest).2 := by
      rw [List.cons_append, splitLine_append]
    rw [front]
    refine .prepend (fun behind => ?_) goesOn
    rw [← List.append_assoc, ← front, List.cons_append, splitGap_line (starts behind), there]
  · refine .line ?_ fun behind => ?_
    · rw [splitGap_line starts', here, splitGap_nil]
    · rw [List.cons_append, splitGap_line (starts behind), there]
      simp

theorem gapGoesOn {text : List Char}
    (closed : startsWith Delimiter.comment.opening (splitGap text).2 = false) :
    GapGoesOn text := by
  fun_induction splitGap text with
  | case1 => exact .gap (by rw [splitGap_nil]) fun _ => rfl
  | case2 c rest blank ih =>
      exact @GapGoesOn.prepend [c] _ (fun behind => splitGap_blank blank (rest ++ behind)) (ih closed)
  | case3 rest _ ink ih => exact gapGoesOn_line (fun _ => rfl) (ih closed)
  | case4 c rest ink hash slashes _ ih =>
      have starts : startsLine c rest := by simp [startsLine, slashes]
      refine gapGoesOn_line (fun behind => ?_) (ih closed)
      cases rest with
      | nil => simp at slashes
      | cons d rest => exact starts
  | case5 c rest ink hash slashes opened inside after found ih =>
      cases rest with
      | nil => simp at opened
      | cons d rest =>
          simp only [List.head?_cons, Bool.and_eq_true, decide_eq_true_eq, Option.some.injEq]
            at opened
          obtain ⟨rfl, rfl⟩ := opened
          have whole := eq_of_splitComment? found
          rw [List.tail_cons] at found whole
          have front : '/' :: '*' :: rest = ('/' :: '*' :: inside) ++ after := by
            rw [whole]
            rfl
          rw [front]
          refine .prepend (fun behind => ?_) (ih closed)
          rw [← List.append_assoc, ← front]
          exact splitGap_comment (splitComment?_append found _)
  | case6 c rest ink hash slashes opened none =>
      cases rest with
      | nil => simp at opened
      | cons d rest =>
          simp only [List.head?_cons, Bool.and_eq_true, decide_eq_true_eq, Option.some.injEq]
            at opened
          rw [opened.1, opened.2] at closed
          cases closed
  | case7 c rest ink hash slashes opened =>
      have ink : isBlank c = false := by simpa using ink
      have slash : c = '/' → rest.head? ≠ some '/' ∧ rest.head? ≠ some '*' := by
        intro slash
        simpa [slash] using And.intro slashes opened
      have here := splitGap_other ink hash slash
      refine .code (by rw [here]; exact List.cons_ne_nil _ _) fun behind slash' star => ?_
      rw [here]
      refine splitGap_other ink hash fun same => ?_
      cases rest with
      | nil => exact ⟨slash', star⟩
      | cons d rest => exact slash same

/-- A line feed ends what a gap runs on into. -/
theorem GapGoesOn.feed {text : List Char} (goesOn : GapGoesOn text) (more : List Char) :
    (splitGap text).2 = [] ∧
        splitGap (text ++ '\n' :: more) = (text ++ '\n' :: (splitGap more).1, (splitGap more).2) ∨
      (splitGap text).2 ≠ [] ∧
        splitGap (text ++ '\n' :: more) = ((splitGap text).1, (splitGap text).2 ++ '\n' :: more) := by
  cases goesOn with
  | gap none goes => exact .inl ⟨none, by rw [goes, splitGap_blank (by decide)]⟩
  | line none goes => exact .inl ⟨none, goes _⟩
  | code some goes => exact .inr ⟨some, goes _ (by simp) (by simp)⟩

end Text

namespace Lexeme

theorem quoted?_append {quote : Char} (plain : quote ≠ '\\') {text inside after : List Char}
    (found : quoted? quote text = some (inside, after)) (more : List Char) :
    quoted? quote (text ++ more) = some (inside, after ++ more) := by
  fun_induction quoted? quote text generalizing inside with
  | case1 => cases found
  | case2 c rest ih =>
      obtain ⟨⟨inner, rest'⟩, later, same⟩ := Option.map_eq_some_iff.1 found
      cases same
      rw [List.cons_append, List.cons_append, quoted?, ih later]
      rfl
  | case3 rest other =>
      cases found
      rw [List.cons_append, quoted?, if_pos rfl]
      intro c behind backslash _
      exact plain backslash
  | case4 c rest other unquoted ih =>
      obtain ⟨⟨inner, rest'⟩, later, same⟩ := Option.map_eq_some_iff.1 found
      cases same
      rw [List.cons_append, quoted?, if_neg unquoted, ih later]
      · rfl
      · intro d behind backslash same
        cases rest with
        | nil => cases later
        | cons e rest =>
            simp only [List.cons_append, List.cons.injEq] at same
            exact other e rest backslash rfl

theorem read?_append_of_some {c : Char} {rest after behind : List Char} {lexeme : Lexeme}
    (found : read? c rest = some (lexeme, after)) (apart : standsApart behind) :
    read? c (rest ++ behind) = some (lexeme, after ++ behind) := by
  by_cases noQuote : c = '"'
  · rw [read?.eq_def, if_pos noQuote] at found ⊢
    obtain ⟨_, inner, same⟩ := Option.map_eq_some_iff.1 found
    cases same
    rw [quoted?_append (by rw [noQuote]; decide) inner]
    rfl
  · by_cases noApostrophe : c = '\''
    · rw [read?.eq_def, if_neg noQuote, if_pos noApostrophe] at found ⊢
      obtain ⟨_, inner, same⟩ := Option.map_eq_some_iff.1 found
      cases same
      rw [quoted?_append (by rw [noApostrophe]; decide) inner]
      rfl
    · rw [read?_append_of_standsApart noQuote noApostrophe apart, found]
      rfl

end Lexeme

/-! ### Tokens -/

namespace Token

/-- Tokens one behind the other, from a byte on. -/
def placed (start : Nat) : List Token → List Token
  | [] => []
  | token :: rest => ⟨token.lexeme, start, token.gap⟩ ::
      placed (start + Text.size token.lexeme.spelling + Text.size token.gap) rest

theorem fits_placed (start : Nat) (tokens : List Token) : Fits [] tokens (placed start tokens) := by
  induction tokens generalizing start with
  | nil => exact .nil
  | cons token rest ih => exact .cons rfl (fun _ => rfl) (ih _)

/-- The place where a text begins is in no way part of its tokens but for their places. -/
theorem readFrom_placed {start : Nat} {text : List Char} {tokens : List Token}
    (found : readFrom start text = .ok tokens) (start' : Nat) :
    readFrom start' text = .ok (placed start' tokens) := by
  fun_induction readFrom start text generalizing tokens start' with
  | case1 =>
      cases found
      rw [readFrom]
      rfl
  | case2 => cases found
  | case3 => cases found
  | case4 start c rest plain lexeme after read gap next =>
      rename_i ih
      obtain ⟨later, further, rfl⟩ := Except.map_ok_iff.1 found
      exact readFrom_cons (by simpa using plain) read rfl (ih further _)

theorem readFrom_fits {start : Nat} {text : List Char} {tokens : List Token}
    (found : readFrom start text = .ok tokens) (start' : Nat) :
    ∃ tokens', readFrom start' text = .ok tokens' ∧ Fits [] tokens tokens' :=
  ⟨_, readFrom_placed found start', fits_placed start' tokens⟩

/-- Tokens with more blanks behind the last one. -/
def extended (more : List Char) : List Token → List Token
  | [] => []
  | [token] => [{ token with gap := token.gap ++ more }]
  | token :: rest => token :: extended more rest

theorem extended_cons {more : List Char} {token : Token} {rest : List Token} (some : rest ≠ []) :
    extended more (token :: rest) = token :: extended more rest := by
  obtain ⟨next, rest, rfl⟩ := List.exists_cons_of_ne_nil some
  rfl

theorem fits_extended (start : Nat) (more : List Char) (tokens later : List Token) :
    ∃ later', Fits [] later later' ∧
      Fits later' tokens (placed start (extended more tokens ++ later)) := by
  induction tokens generalizing start with
  | nil => exact ⟨_, fits_placed start later, .nil⟩
  | cons token rest ih =>
      by_cases last : rest = []
      · subst last
        exact ⟨_, fits_placed _ later, .cons rfl (fun some => absurd rfl some) .nil⟩
      · rw [extended_cons last, List.cons_append, placed]
        obtain ⟨later', shifted, fits⟩ := ih _
        exact ⟨later', shifted, .cons rfl (fun _ => rfl) fits⟩

theorem opens_comment_append {c : Char} {rest behind : List Char}
    (plain : Text.startsWith Delimiter.comment.opening (c :: rest) = false)
    (star : behind.head? ≠ some '*') :
    Text.startsWith Delimiter.comment.opening (c :: (rest ++ behind)) = false := by
  by_cases slash : '/' = c
  · cases rest with
    | nil =>
        cases behind with
        | nil => exact plain
        | cons d behind =>
            have apart : ¬ '*' = d := fun same => star (by rw [← same]; rfl)
            simp [Text.startsWith, Text.after?, Delimiter.opening, apart]
    | cons d rest =>
        simpa [Text.startsWith, Text.after?, Delimiter.opening, slash] using plain
  · simp [Text.startsWith, Text.after?, Delimiter.opening, slash]

/-- Tokens of a text on the lines behind another one come behind the tokens of that one. -/
theorem readFrom_append_feed {start start' : Nat} {text more : List Char}
    {tokens later : List Token} (found : readFrom start text = .ok tokens) (some : text ≠ [])
    (behind : readFrom start' (Text.splitGap more).2 = .ok later) :
    readFrom start (text ++ '\n' :: more) =
      .ok (placed start (extended ('\n' :: (Text.splitGap more).1) tokens ++ later)) := by
  fun_induction readFrom start text generalizing tokens with
  | case1 => exact absurd rfl some
  | case2 => cases found
  | case3 => cases found
  | case4 start c rest plain lexeme after read gap next =>
      rename_i ih
      obtain ⟨inner, further, rfl⟩ := Except.map_ok_iff.1 found
      have plain' : Text.startsWith Delimiter.comment.opening (c :: (rest ++ '\n' :: more)) = false :=
        opens_comment_append (by simpa using plain) (by simp)
      have read' : Lexeme.read? c (rest ++ '\n' :: more) = .some (lexeme, after ++ '\n' :: more) :=
        Lexeme.read?_append_of_some read rfl
      obtain ⟨none, gap'⟩ | ⟨some, gap'⟩ := (Text.gapGoesOn (opens_comment_of_ok further)).feed more
      · rw [none, readFrom] at further
        cases further
        have all := Text.splitGap_append after
        rw [none, List.append_nil] at all
        have gap'' : Text.splitGap (after ++ '\n' :: more) =
            ((Text.splitGap after).1 ++ '\n' :: (Text.splitGap more).1, (Text.splitGap more).2) := by
          rw [gap', all]
        exact readFrom_cons plain' read' gap'' (readFrom_placed behind _)
      · have left : inner ≠ [] := by
          rintro rfl
          exact some (sourceOf_of_readFrom further).symm
        rw [extended_cons left]
        exact readFrom_cons plain' read' gap' (ih further some)

end Token

/-- Texts on lines one behind the other: the tokens of the second come behind those of the first. -/
theorem Lexed.ofText_feed {text more : List Char} {lexed lexedMore : Lexed}
    (found : ofText text = .ok lexed) (foundMore : ofText more = .ok lexedMore) :
    ∃ lead, (lexed.tokens ≠ [] → lead = lexed.lead) ∧
      ofText (text ++ '\n' :: more) = .ok ⟨lead, Token.placed (Text.size lead)
        (Token.extended ('\n' :: lexedMore.lead) lexed.tokens ++ lexedMore.tokens)⟩ := by
  obtain ⟨tokens, read, rfl⟩ := Except.map_ok_iff.1 found
  obtain ⟨later, behind, rfl⟩ := Except.map_ok_iff.1 foundMore
  rw [ofText]
  obtain ⟨none, gap⟩ | ⟨some, gap⟩ :=
    (Text.gapGoesOn (Token.opens_comment_of_ok read)).feed more
  · rw [none, Token.readFrom] at read
    cases read
    rw [gap]
    have placed := Token.readFrom_placed behind
      (Text.size (text ++ '\n' :: (Text.splitGap more).1))
    exact ⟨_, fun some => absurd rfl some, Except.map_ok_iff.2 ⟨_, placed, rfl⟩⟩
  · rw [gap]
    have placed := Token.readFrom_append_feed read some behind
    exact ⟨_, fun _ => rfl, Except.map_ok_iff.2 ⟨_, placed, rfl⟩⟩

theorem Lexed.ofText_append_feed {text more : List Char} {lexed lexedMore : Lexed}
    (found : ofText text = .ok lexed) (foundMore : ofText more = .ok lexedMore) :
    ∃ whole later, ofText (text ++ '\n' :: more) = .ok whole ∧
      Token.Fits [] lexedMore.tokens later ∧ Token.Fits later lexed.tokens whole.tokens := by
  obtain ⟨lead, _, whole⟩ := ofText_feed found foundMore
  obtain ⟨later, shifted, fits⟩ := Token.fits_extended (Text.size lead) ('\n' :: lexedMore.lead)
    lexed.tokens lexedMore.tokens
  exact ⟨_, later, whole, shifted, fits⟩

/-! ### Declarations -/

namespace Parser

/-- A text that closes its brackets and ends in a semicolon keeps its declarations and omissions, and
so does the text that follows it on the next line. -/
theorem declarationsOf_append {owner : Option String} {text more : List Char} {lexed : Lexed}
    {declarations laterDeclarations : List Declaration} {omissions laterOmissions : List Omission}
    (lexes : Lexed.ofText text = .ok lexed) (closed : Token.closes [] lexed.tokens)
    (ended : Token.endsInSemicolon lexed.tokens)
    (found : declarationsOf owner text = .ok (declarations, omissions))
    (foundMore : declarationsOf owner more = .ok (laterDeclarations, laterOmissions)) :
    declarationsOf owner (text ++ '\n' :: more) =
      .ok (declarations ++ laterDeclarations, omissions ++ laterOmissions) := by
  obtain ⟨_, lexes', reads⟩ := declarationsOf_eq_ok_iff.1 found
  cases lexes.symm.trans lexes'
  obtain ⟨lexedMore, lexesMore, readsMore⟩ := declarationsOf_eq_ok_iff.1 foundMore
  obtain ⟨whole, later, lexesWhole, shifted, fits⟩ := Lexed.ofText_append_feed lexes lexesMore
  refine declarationsOf_eq_ok_iff.2 ⟨whole, lexesWhole, ?_⟩
  have alike : (Scope.ofOwner owner).Alike (Scope.ofOwner owner) := ⟨rfl, rfl⟩
  have behind := Item.ReadsAll.append alike shifted (fun _ => Or.inl rfl) rfl readsMore .nil
  rw [List.append_nil, List.append_nil] at behind
  exact Item.ReadsAll.append alike fits (fun _ => Or.inr ⟨⟨[], closed⟩, ended⟩) rfl reads behind

theorem declarationsOf_two_lines : ∃ declared,
    declarationsOf none "int n;".toList = .ok ([.ofVariable declared], []) ∧
    declarationsOf none "P z;".toList = .ok ([], [⟨"z", "P"⟩]) ∧
    declarationsOf none ("int n;".toList ++ '\n' :: "P z;".toList) =
      .ok ([.ofVariable declared] ++ [], [] ++ [⟨"z", "P"⟩]) := by
  let declared : Variable := ⟨⟨.int, []⟩, "n", false⟩
  let tokens : List Token := [⟨.keyword .int, 0, [' ']⟩, ⟨.identifier "n", 4, []⟩,
    ⟨.punctuation .semicolon, 5, []⟩]
  let later : List Token := [⟨.identifier "P", 0, [' ']⟩, ⟨.identifier "z", 2, []⟩,
    ⟨.punctuation .semicolon, 3, []⟩]
  have lexes : Lexed.ofText "int n;".toList = .ok ⟨[], tokens⟩ := by
    cbv
  have lexesMore : Lexed.ofText "P z;".toList = .ok ⟨[], later⟩ := by
    cbv
  have here : Item.readPlain .top false .variableList tokens =
      .ok (.emitted (.ofVariable declared), []) := by rfl
  have behind : Item.readPlain .top false .variableList later =
      .ok (.omitted ⟨"z", "P"⟩, []) := by rfl
  have found : declarationsOf none "int n;".toList = .ok ([.ofVariable declared], []) :=
    declarationsOf_eq_ok_iff.2 ⟨_, lexes, .cons (.plain (by rfl) rfl here) .nil⟩
  have foundMore : declarationsOf none "P z;".toList = .ok ([], [⟨"z", "P"⟩]) :=
    declarationsOf_eq_ok_iff.2 ⟨_, lexesMore, .cons (.plain (by rfl) rfl behind) .nil⟩
  exact ⟨declared, found, foundMore,
    declarationsOf_append lexes (by decide) (by decide) found foundMore⟩

end Parser

end PxdStub
