import PxdStub.Proofs.Concatenation
import PxdStub.Proofs.ParameterLists

/-!
Texts with a blank or a semicolon between them. Where nothing stands behind the last token of a text,
more text behind it leaves the tokens as they are and adds its own.
-/

namespace PxdStub

namespace Lexeme

theorem standsApart_of_blank {c : Char} (blank : Text.isBlank c) (text : List Char) :
    standsApart (c :: text) :=
  standsApart_of_endsLexeme (endsLexeme_of_blank (by simpa using blank))

end Lexeme

namespace Token

variable {tokens tokens' later : List Token}

/-- Whether nothing stands behind the last token. -/
def endsBare (tokens : List Token) : Bool :=
  tokens.getLast?.any fun last => last.gap.isEmpty

theorem endsBare_cons {token : Token} {rest : List Token} (bare : endsBare (token :: rest)) :
    rest = [] ∧ token.gap = [] ∨ rest ≠ [] ∧ endsBare rest := by
  by_cases last : rest = []
  · rw [last] at bare
    exact .inl ⟨last, List.isEmpty_iff.1 bare⟩
  · rw [endsBare, List.getLast?_cons_of_ne_nil last] at bare
    exact .inr ⟨last, bare⟩

theorem endsBare_concat {front : List Token} {last : Token} (bare : last.gap = []) :
    endsBare (front ++ [last]) := by
  rw [endsBare, List.getLast?_concat, Option.any_some, bare, List.isEmpty_nil]

/-- Tokens with the same source have the same last gap too. -/
theorem Fits.moved (fits : Fits [] tokens tokens') (same : sourceOf tokens' = sourceOf tokens) :
    Moved tokens tokens' := by
  induction fits with
  | nil => rfl
  | @cons token token' rest rest' lexeme gap behind ih =>
      change token'.lexeme.spelling ++ token'.gap ++ sourceOf rest' =
        token.lexeme.spelling ++ token.gap ++ sourceOf rest at same
      rw [lexeme, List.append_assoc, List.append_assoc] at same
      have same := List.append_cancel_left same
      by_cases last : rest = []
      · subst last
        cases behind
        exact Moved.cons_iff.2 ⟨⟨lexeme, by simpa [sourceOf] using same⟩, rfl⟩
      · rw [gap last] at same
        exact Moved.cons_iff.2 ⟨⟨lexeme, gap last⟩, ih (List.append_cancel_left same)⟩

/-- The place where a text begins changes no more than the places of its tokens. -/
theorem readFrom_moved {start : Nat} {text : List Char} (found : readFrom start text = .ok tokens)
    (start' : Nat) : ∃ tokens', readFrom start' text = .ok tokens' ∧ Moved tokens tokens' := by
  obtain ⟨tokens', found', fits⟩ := readFrom_fits found start'
  have same : sourceOf tokens' = sourceOf tokens := by
    rw [sourceOf_of_readFrom found', sourceOf_of_readFrom found]
  exact ⟨tokens', found', fits.moved same⟩

/-- The tokens of a text stay the same in front of text that goes on with none of them. -/
theorem readFrom_append_bare {start start' : Nat} {text behind : List Char}
    (found : readFrom start text = .ok tokens) (bare : endsBare tokens)
    (apart : Lexeme.standsApart behind) (slash : behind.head? ≠ some '/')
    (star : behind.head? ≠ some '*') (more : readFrom start' (Text.splitGap behind).2 = .ok later) :
    ∃ tokens' later', readFrom start (text ++ behind) = .ok tokens' ∧
      Fits later' tokens tokens' ∧ Moved later later' := by
  fun_induction readFrom start text generalizing tokens with
  | case1 =>
      cases found
      cases bare
  | case2 => cases found
  | case3 => cases found
  | case4 start c rest plain lexeme after read gap next =>
      rename_i ih
      obtain ⟨inner, further, rfl⟩ := Except.map_ok_iff.1 found
      have plain' := opens_comment_append (by simpa using plain) star
      have read' := Lexeme.read?_append_of_some read apart
      obtain ⟨rfl, none⟩ | ⟨some, bare⟩ := endsBare_cons bare
      · -- the last token: nothing is left of the text
        have ended : after = [] := by
          rw [← Text.splitGap_append after, ← sourceOf_of_readFrom further]
          have gapless : (Text.splitGap after).1 = [] := none
          rw [gapless]
          rfl
        rw [ended, List.nil_append] at read'
        obtain ⟨later', more', moved⟩ := readFrom_moved more _
        exact ⟨_, later', readFrom_cons plain' read' rfl more',
          .cons rfl (fun some => absurd rfl some) .nil, moved⟩
      · have goesOn := Text.gapGoesOn (opens_comment_of_ok further)
        have left : (Text.splitGap after).2 ≠ [] := by
          intro ended
          rw [ended, readFrom] at further
          cases further
          exact some rfl
        obtain ⟨ended, _⟩ | ⟨ended, _⟩ | ⟨_, goes⟩ := goesOn
        · exact absurd ended left
        · exact absurd ended left
        · obtain ⟨tokens', later', found', fits, moved⟩ := ih further bare
          exact ⟨_, later', readFrom_cons plain' read' (goes behind slash star) found',
            .cons rfl (fun _ => rfl) fits, moved⟩

end Token

namespace Lexed

variable {text behind : List Char} {lexed lexedBehind : Lexed}

theorem ofText_append_bare (found : ofText text = .ok lexed) (bare : Token.endsBare lexed.tokens)
    (apart : Lexeme.standsApart behind) (slash : behind.head? ≠ some '/')
    (star : behind.head? ≠ some '*') (foundBehind : ofText behind = .ok lexedBehind) :
    ∃ tokens later, ofText (text ++ behind) = .ok ⟨lexed.lead, tokens⟩ ∧
      Token.Fits later lexed.tokens tokens ∧ Token.Moved lexedBehind.tokens later := by
  obtain ⟨tokens, read, rfl⟩ := Except.map_ok_iff.1 found
  obtain ⟨later, readBehind, rfl⟩ := Except.map_ok_iff.1 foundBehind
  have left : (Text.splitGap text).2 ≠ [] := by
    intro ended
    rw [ended, Token.readFrom] at read
    cases read
    cases bare
  obtain ⟨ended, _⟩ | ⟨ended, _⟩ | ⟨_, goes⟩ := Text.gapGoesOn (Token.opens_comment_of_ok read)
  · exact absurd ended left
  · exact absurd ended left
  · obtain ⟨tokens', later', read', fits, moved⟩ :=
      Token.readFrom_append_bare read bare apart slash star readBehind
    refine ⟨tokens', later', ?_, fits, moved⟩
    rw [ofText, goes behind slash star]
    exact Except.map_ok_iff.2 ⟨tokens', read', rfl⟩

/-- Two texts with a blank between them. -/
theorem ofText_append_blank (found : ofText text = .ok lexed)
    (bare : Token.endsBare lexed.tokens) (foundBehind : ofText behind = .ok lexedBehind) :
    ∃ tokens later, ofText (text ++ ' ' :: behind) = .ok ⟨lexed.lead, tokens⟩ ∧
      Token.Fits later lexed.tokens tokens ∧ Token.Moved lexedBehind.tokens later := by
  obtain ⟨later, readBehind, rfl⟩ := Except.map_ok_iff.1 foundBehind
  have split : Text.splitGap (' ' :: behind) = _ := Text.splitGap_blank (by decide) behind
  obtain ⟨later', readBehind', moved⟩ := Token.readFrom_moved readBehind
    (Text.size (Text.splitGap (' ' :: behind)).1)
  have foundBehind' : ofText (' ' :: behind) = .ok ⟨(Text.splitGap (' ' :: behind)).1, later'⟩ := by
    refine Except.map_ok_iff.2 ⟨later', ?_, rfl⟩
    rw [split] at readBehind' ⊢
    exact readBehind'
  obtain ⟨tokens, later'', whole, fits, moved'⟩ := ofText_append_bare found bare
    (Lexeme.standsApart_of_blank (by decide) behind) (by simp) (by simp) foundBehind'
  exact ⟨tokens, later'', whole, fits, moved'.trans moved⟩

/-- A text and the semicolon behind it. -/
theorem ofText_append_semicolon (found : ofText text = .ok lexed)
    (bare : Token.endsBare lexed.tokens) :
    ∃ tokens semicolon, ofText (text ++ [';']) = .ok ⟨lexed.lead, tokens⟩ ∧
      Token.Fits [semicolon] lexed.tokens tokens ∧
      semicolon.lexeme = .punctuation .semicolon := by
  have single : ofText [';'] = .ok ⟨[], [⟨.punctuation .semicolon, 0, []⟩]⟩ := by cbv
  obtain ⟨tokens, later, whole, fits, moved⟩ :=
    ofText_append_bare found bare (by decide) (by simp) (by simp) single
  obtain ⟨semicolon, rfl⟩ := List.length_eq_one_iff.1 moved.length
  exact ⟨tokens, semicolon, whole, fits, (Token.Moved.cons_iff.1 moved).1.1⟩

end Lexed

end PxdStub
