import PxdStub.Proofs.Concatenation
import PxdStub.Proofs.NormalForm
import PxdStub.Proofs.TwinItems

/-!
A literal among the tokens. Text with another payload in one literal gives the same lexemes but for
that literal, and names that run over it are the same but for its payload.
-/

namespace PxdStub

/-! ### Lexers side by side -/

namespace Token

variable {payloads : String → String → Prop}

/-- What the lexer gives for two texts: kin with the same between them, or the same trouble. -/
abbrev LexAlike (payloads : String → String → Prop) :
    Except ParseError (List Token) → Except ParseError (List Token) → Prop :=
  Mirrors (fun error error' => error.trouble = error'.trouble) (Akin payloads True)

theorem lexAlike_nil (start start' : Nat) :
    LexAlike payloads (readFrom start []) (readFrom start' []) := by
  rw [readFrom, readFrom]
  exact .ok (.nil False.elim)

theorem LexAlike.cons {start start' : Nat} {c c' : Char} {rest rest' after after' gap : List Char}
    {behind behind' : List Char} {lexeme lexeme' : Lexeme}
    (plain : Text.startsWith Delimiter.comment.opening (c :: rest) = false)
    (plain' : Text.startsWith Delimiter.comment.opening (c' :: rest') = false)
    (read : Lexeme.read? c rest = some (lexeme, after))
    (read' : Lexeme.read? c' rest' = some (lexeme', after'))
    (split : Text.splitGap after = (gap, behind)) (split' : Text.splitGap after' = (gap, behind'))
    (kin : Lexeme.Kin payloads lexeme lexeme')
    (later : ∀ start start', LexAlike payloads (readFrom start behind) (readFrom start' behind')) :
    LexAlike payloads (readFrom start (c :: rest)) (readFrom start' (c' :: rest')) := by
  rw [readFrom_of_read? plain read split, readFrom_of_read? plain' read' split']
  exact (later _ _).map fun _ _ akin => .cons kin (fun _ _ => rfl) False.elim akin

/-- Where a text begins has no say in its tokens but for their places. -/
theorem lexAlike_readFrom (start start' : Nat) (text : List Char) :
    LexAlike payloads (readFrom start text) (readFrom start' text) := by
  induction size : text.length using Nat.strong_induction_on generalizing start start' text with
  | _ size ih =>
      subst size
      cases text with
      | nil => exact lexAlike_nil start start'
      | cons c rest =>
          cases opens : Text.startsWith Delimiter.comment.opening (c :: rest) with
          | true =>
              rw [readFrom, readFrom, if_pos opens, if_pos opens]
              exact .error rfl
          | false =>
              cases read : Lexeme.read? c rest with
              | none =>
                  rw [readFrom, readFrom, if_neg (by simp [opens]), if_neg (by simp [opens])]
                  split
                  · exact .error rfl
                  · next found => cases read.symm.trans found
              | some found =>
                  obtain ⟨lexeme, after⟩ := found
                  refine .cons opens opens read read rfl rfl (.refl lexeme) fun _ _ => ?_
                  refine ih _ ?_ _ _ _ rfl
                  have shorter := Lexeme.length_read? read
                  have whole := congrArg List.length (Text.splitGap_append after)
                  rw [List.length_append] at whole
                  rw [List.length_cons]
                  omega

/-- Texts that begin with a literal, to be lexed behind any other text: they stay on its line, and
their tokens are kin. -/
structure Follows (payloads : String → String → Prop) (behind behind' : List Char) : Prop where
  quote : behind.head? = some '"'
  quote' : behind'.head? = some '"'
  line : '\n' ∉ behind
  line' : '\n' ∉ behind'
  tokens : ∀ start start', LexAlike payloads (readFrom start behind) (readFrom start' behind')

namespace Follows

theorem splitGap_quote {text : List Char} (quote : text.head? = some '"') :
    Text.splitGap text = ([], text) := by
  obtain _ | ⟨c, rest⟩ := text
  · cases quote
  · obtain rfl : c = '"' := by simpa using quote
    exact Text.splitGap_other rfl (by decide) (by simp)

theorem splitLine_eq {text : List Char} (line : '\n' ∉ text) : Text.splitLine text = (text, []) := by
  have none := Text.splitLine_of_not_mem line (show ∀ c ∈ ([] : List Char).head?, c = '\n' by simp)
  have whole := Text.splitLine_append text
  rw [List.append_nil] at none
  rw [none, List.tail_nil, List.append_nil] at whole
  exact Prod.ext whole none

variable {behind behind' : List Char}

/-- Behind a gap the texts begin anew, behind code they go on with it, and where a line is open they
are swallowed by it. -/
theorem cases_splitGap (follows : Follows payloads behind behind') {text : List Char}
    (closed : Text.startsWith Delimiter.comment.opening (Text.splitGap text).2 = false) :
    ((Text.splitGap text).2 = [] ∧ Text.splitGap (text ++ behind) = (text, behind) ∧
        Text.splitGap (text ++ behind') = (text, behind')) ∨
      (Text.splitGap (text ++ behind) = (text ++ behind, []) ∧
        Text.splitGap (text ++ behind') = (text ++ behind', [])) ∨
      ((Text.splitGap text).2 ≠ [] ∧
        Text.splitGap (text ++ behind) =
          ((Text.splitGap text).1, (Text.splitGap text).2 ++ behind) ∧
        Text.splitGap (text ++ behind') =
          ((Text.splitGap text).1, (Text.splitGap text).2 ++ behind')) := by
  cases Text.gapGoesOn closed with
  | gap none goes =>
      refine .inl ⟨none, ?_, ?_⟩
      · rw [goes, splitGap_quote follows.quote, List.append_nil]
      · rw [goes, splitGap_quote follows.quote', List.append_nil]
  | line none goes =>
      refine .inr (.inl ⟨?_, ?_⟩)
      · rw [goes, splitLine_eq follows.line, Text.splitGap_nil, List.append_nil]
      · rw [goes, splitLine_eq follows.line', Text.splitGap_nil, List.append_nil]
  | code some goes =>
      refine .inr (.inr ⟨some, goes _ ?_ ?_, goes _ ?_ ?_⟩)
      all_goals simp [follows.quote, follows.quote']

theorem standsApart {text : List Char} (quote : text.head? = some '"') :
    Lexeme.standsApart text := by
  rw [Lexeme.standsApart, quote]
  rfl

/-- The texts behind one that has tokens of its own. -/
theorem lexAlike (follows : Follows payloads behind behind') {start : Nat} {text : List Char}
    {tokens : List Token} (found : readFrom start text = .ok tokens) (start₁ start₂ : Nat) :
    LexAlike payloads (readFrom start₁ (text ++ behind)) (readFrom start₂ (text ++ behind')) := by
  fun_induction readFrom start text generalizing tokens start₁ start₂ with
  | case1 => exact follows.tokens start₁ start₂
  | case2 => cases found
  | case3 => cases found
  | case4 start c rest plain lexeme after read gap next =>
      rename_i ih
      obtain ⟨later, further, rfl⟩ := Except.map_ok_iff.1 found
      have plain₁ : Text.startsWith Delimiter.comment.opening (c :: (rest ++ behind)) = false :=
        opens_comment_append (by simpa using plain) (by simp [follows.quote])
      have plain₂ : Text.startsWith Delimiter.comment.opening (c :: (rest ++ behind')) = false :=
        opens_comment_append (by simpa using plain) (by simp [follows.quote'])
      have read₁ := Lexeme.read?_append_of_some read (standsApart follows.quote)
      have read₂ := Lexeme.read?_append_of_some read (standsApart follows.quote')
      obtain ⟨_, split₁, split₂⟩ | ⟨split₁, split₂⟩ | ⟨_, split₁, split₂⟩ :=
        follows.cases_splitGap (opens_comment_of_ok further)
      · exact .cons plain₁ plain₂ read₁ read₂ split₁ split₂ (.refl lexeme) follows.tokens
      · rw [List.cons_append, List.cons_append, readFrom_of_read? plain₁ read₁ split₁,
          readFrom_of_read? plain₂ read₂ split₂, readFrom, readFrom]
        exact .ok (.cons (.refl lexeme) (fun _ some => absurd rfl some) False.elim (.nil False.elim))
      · exact .cons plain₁ plain₂ read₁ read₂ split₁ split₂ (.refl lexeme) (ih further)

end Follows

end Token

/-- The texts behind one that can be lexed. -/
theorem Lexed.mirrors_ofText {payloads : String → String → Prop} {text behind behind' : List Char}
    {lexed : Lexed} (found : ofText text = .ok lexed)
    (follows : Token.Follows payloads behind behind') :
    Mirrors (fun error error' => error.trouble = error'.trouble)
      (fun lexed lexed' => Token.Akin payloads True lexed.tokens lexed'.tokens)
      (ofText (text ++ behind)) (ofText (text ++ behind')) := by
  obtain ⟨tokens, read, rfl⟩ := Except.map_ok_iff.1 found
  have lex : ∀ text text', Token.LexAlike payloads
      (Token.readFrom (Text.size (Text.splitGap text).1) (Text.splitGap text).2)
      (Token.readFrom (Text.size (Text.splitGap text').1) (Text.splitGap text').2) →
      Mirrors (fun error error' => error.trouble = error'.trouble)
        (fun lexed lexed' => Token.Akin payloads True lexed.tokens lexed'.tokens)
        (ofText text) (ofText text') :=
    fun _ _ alike => alike.map fun _ _ akin => akin
  refine lex _ _ ?_
  obtain ⟨_, split, split'⟩ | ⟨split, split'⟩ | ⟨_, split, split'⟩ :=
    follows.cases_splitGap (Token.opens_comment_of_ok read)
  · rw [split, split']
    exact follows.tokens _ _
  · rw [split, split']
    exact Token.lexAlike_nil _ _
  · rw [split, split']
    exact follows.lexAlike read _ _

/-! ### Payloads -/

theorem Lexeme.quoted?_of_plain {quote : Char} {payload : List Char} (unquoted : quote ∉ payload)
    (unescaped : '\\' ∉ payload) (plain : quote ≠ '\\') (after : List Char) :
    quoted? quote (payload ++ quote :: after) = some (payload, after) := by
  induction payload with
  | nil =>
      rw [List.nil_append, quoted?, if_pos rfl]
      exact fun _ _ backslash _ => plain backslash
  | cons c payload ih =>
      rw [List.mem_cons, not_or] at unquoted unescaped
      rw [List.cons_append, quoted?, if_neg (Ne.symm unquoted.1), ih unquoted.2 unescaped.2]
      · rfl
      · exact fun _ _ backslash _ => unescaped.1 backslash.symm

theorem Lexeme.read?_literal {payload : List Char} (unquoted : '"' ∉ payload)
    (unescaped : '\\' ∉ payload) (after : List Char) :
    read? '"' (payload ++ '"' :: after) = some (.string (String.ofList payload), after) := by
  rw [read?.eq_def, if_pos rfl, quoted?_of_plain unquoted unescaped (by decide)]
  rfl

/-- The one payload, and the other in its place. -/
def Replaces (payload payload' : List Char) (text text' : String) : Prop :=
  text = String.ofList payload ∧ text' = String.ofList payload'

variable {payload payload' : List Char}

theorem Token.follows_literal {after : List Char} (unquoted : '"' ∉ payload)
    (unquoted' : '"' ∉ payload') (unescaped : '\\' ∉ payload) (unescaped' : '\\' ∉ payload')
    (line : '\n' ∉ payload) (line' : '\n' ∉ payload') (ended : '\n' ∉ after) :
    Follows (Replaces payload payload') ('"' :: (payload ++ '"' :: after))
      ('"' :: (payload' ++ '"' :: after)) where
  quote := rfl
  quote' := rfl
  line := by simp [line, ended]
  line' := by simp [line', ended]
  tokens := fun _ _ => .cons rfl rfl (Lexeme.read?_literal unquoted unescaped after)
    (Lexeme.read?_literal unquoted' unescaped' after) rfl rfl (.string ⟨rfl, rfl⟩)
    fun start start' => lexAlike_readFrom start start' _

/-- Texts that are the same, but that the one payload stands in some literals for the other. -/
inductive Text.Requoted (payload payload' : List Char) : List Char → List Char → Prop
  | nil : Requoted payload payload' [] []
  | cons {text text'} (c : Char) : Requoted payload payload' text text' →
      Requoted payload payload' (c :: text) (c :: text')
  | literal {text text'} : Requoted payload payload' text text' →
      Requoted payload payload' ('"' :: (payload ++ '"' :: text)) ('"' :: (payload' ++ '"' :: text'))

namespace Text.Requoted

variable {text text' more more' : List Char}

theorem prepend (front : List Char) (requoted : Requoted payload payload' text text') :
    Requoted payload payload' (front ++ text) (front ++ text') := by
  induction front with
  | nil => exact requoted
  | cons c front ih => exact .cons c ih

theorem refl (text : List Char) : Requoted payload payload' text text := by
  have whole := prepend text (.nil : Requoted payload payload' [] [])
  rwa [List.append_nil] at whole

/-- Without the literal nothing is replaced. -/
theorem eq (requoted : Requoted payload payload' text text')
    (without : ¬ '"' :: (payload ++ ['"']) <:+: text) : text = text' := by
  induction requoted with
  | nil => rfl
  | @cons text _ c _ ih =>
      exact congrArg _ (ih fun within => without (within.trans (List.suffix_cons c text).isInfix))
  | @literal text _ _ _ =>
      refine absurd (List.IsPrefix.isInfix ⟨text, ?_⟩) without
      simp

theorem spelling {lexeme lexeme' : Lexeme}
    (kin : Lexeme.Kin (Replaces payload payload') lexeme lexeme')
    (requoted : Requoted payload payload' text text') :
    Requoted payload payload' (lexeme.spelling ++ text) (lexeme'.spelling ++ text') := by
  cases kin with
  | refl => exact requoted.prepend _
  | string replaces =>
      obtain ⟨rfl, rfl⟩ := replaces
      simpa [Lexeme.spelling] using Requoted.literal requoted

end Text.Requoted

namespace Token

theorem textOf_requoted {tokens tokens' : List Token}
    (akin : Akin (Replaces payload payload') True tokens tokens') :
    Text.Requoted payload payload' (textOf tokens) (textOf tokens') := by
  induction akin with
  | nil => exact .nil
  | @cons token token' rest rest' kin gap _ behind ih =>
      cases behind with
      | nil =>
          have alone := Text.Requoted.spelling kin .nil
          rwa [List.append_nil, List.append_nil] at alone
      | @cons next next' more more' _ _ _ _ =>
          change Text.Requoted _ _ (token.lexeme.spelling ++ token.gap ++ textOf (next :: more))
            (token'.lexeme.spelling ++ token'.gap ++ textOf (next' :: more'))
          rw [List.append_assoc, List.append_assoc, gap trivial (List.cons_ne_nil _ _)]
          exact .spelling kin (ih.prepend _)

/-- Names among kin are the same but for the payload. -/
theorem names_requoted (tokens tokens' : List Token) :
    Names (Replaces payload payload')
      (fun text text' => Text.Requoted payload payload' text.toList text'.toList) True
      tokens tokens' := by
  intro run run' _ _ akin
  rw [nameOf, nameOf, String.toList_ofList, String.toList_ofList]
  exact textOf_requoted akin

end Token

end PxdStub
