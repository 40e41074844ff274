import PxdStub.Proofs.Reading

/-!
Where items end. An item that is read to its end stops behind a semicolon or a closing brace, or at
the end of the tokens, so no operator's name can go on into the next item.
-/

namespace PxdStub

def Lexeme.endsItem (lexeme : Lexeme) : Bool :=
  lexeme.isSemicolon || lexeme = .closing .curly

/-- The token in front of `rest` ends an item, unless nothing is left. -/
def EndsItem (tokens rest : List Token) : Prop :=
  rest = [] ∨ ∃ front last, tokens = front ++ last :: rest ∧ last.lexeme.endsItem

namespace EndsItem

theorem mono {tokens more rest : List Token} (ends : EndsItem tokens rest)
    (suffix : tokens <:+ more) : EndsItem more rest := by
  obtain nothing | ⟨front, last, whole, closes⟩ := ends
  · exact Or.inl nothing
  · obtain ⟨earlier, whole'⟩ := suffix
    exact Or.inr ⟨earlier ++ front, last, by rw [← whole', whole, List.append_assoc], closes⟩

theorem suffix {tokens rest : List Token} (ends : EndsItem tokens rest) : rest <:+ tokens := by
  obtain nothing | ⟨front, last, whole, _⟩ := ends
  · rw [nothing]
    exact List.nil_suffix
  · rw [whole]
    exact (List.suffix_cons last rest).trans (List.suffix_append front _)

theorem length_lt {tokens rest : List Token} (ends : EndsItem tokens rest) (some : tokens ≠ []) :
    rest.length < tokens.length := by
  obtain nothing | ⟨front, last, whole, _⟩ := ends
  · rw [nothing]
    exact List.length_pos_iff.2 some
  · rw [whole]
    simp only [List.length_append, List.length_cons]
    omega

theorem namesOperator_before {tokens rest : List Token} (ends : EndsItem tokens rest)
    (more : rest ≠ []) (inName : Bool) :
    Token.namesOperator inName (Token.before tokens rest) = false := by
  obtain nothing | ⟨front, last, whole, closes⟩ := ends
  · exact absurd nothing more
  · have before : Token.before tokens rest = front ++ [last] := by
      rw [whole, Token.before]
      have size : (front ++ last :: rest).length - rest.length = (front ++ [last]).length := by
        simp only [List.length_append, List.length_cons, List.length_nil]
        omega
      rw [size, List.append_cons front last rest]
      exact List.take_left
    rw [before, Token.namesOperator, List.foldl_append]
    simp only [Lexeme.endsItem, Lexeme.isSemicolon, Bool.or_eq_true, decide_eq_true_eq] at closes
    obtain semicolon | brace := closes
    · change last.lexeme.namesOperator _ = false
      rw [semicolon]
      rfl
    · change last.lexeme.namesOperator _ = false
      rw [brace]
      rfl

theorem dropSemicolon {front rest : List Token} {last : Token} (closes : last.lexeme.endsItem) :
    EndsItem (front ++ last :: rest) (Token.dropSemicolon rest) := by
  cases rest with
  | nil => exact Or.inl rfl
  | cons token more =>
      rw [Token.dropSemicolon]
      split
      · next semicolon =>
          refine Or.inr ⟨front ++ [last], token, by simp, ?_⟩
          simp [Lexeme.endsItem, semicolon]
      · exact Or.inr ⟨front, last, rfl, closes⟩

end EndsItem

/-- A body in braces, with its semicolon if it has one, ends an item. -/
theorem Enclosure.endsItem_of_read {beyond : List Char} {place rest : List Token} {token : Token}
    {found : Enclosure} (opens : token.lexeme = .opening .curly)
    (enclosed : read beyond place (token :: rest) = .ok found) :
    EndsItem (token :: rest) (Token.dropSemicolon found.after) := by
  rw [eq_of_read enclosed]
  apply EndsItem.dropSemicolon
  simp [Lexeme.endsItem, (eq_of_close? (close?_of_read opens enclosed)).2]

/-- So does a semicolon found outside brackets. -/
theorem Token.endsItem_splitOutside (tokens : List Token) :
    EndsItem tokens (dropSemicolon (splitOutside Lexeme.isSemicolon 0 tokens).2) := by
  have whole := splitOutside_append Lexeme.isSemicolon 0 tokens
  cases behind : (splitOutside Lexeme.isSemicolon 0 tokens).2 with
  | nil => exact Or.inl rfl
  | cons token rest =>
      have semicolon := splitOutside_head behind
      rw [behind] at whole
      rw [dropSemicolon, if_pos semicolon]
      exact Or.inr ⟨_, token, whole.symm, by simp [Lexeme.endsItem, semicolon]⟩

theorem Variable.endsItem_of_read {scope : Scope} {tokens rest : List Token} {outcome : Outcome}
    (found : Variable.read scope tokens = .ok (outcome, rest)) : EndsItem tokens rest := by
  unfold Variable.read at found
  obtain ⟨⟨type, behind⟩, typeFound, found⟩ := Except.bind_ok_iff.1 found
  have suffix : behind <:+ tokens := by
    have ends := CType.endsIn_read scope.beyond tokens
    rw [typeFound] at ends
    exact ends
  have ends := (Token.endsItem_splitOutside behind).mono suffix
  dsimp only at found
  split at found
  · cases found
    exact ends
  · split at found
    · cases found
    · obtain ⟨declarators, _, found⟩ := Except.bind_ok_iff.1 found
      obtain ⟨declared, _, found⟩ := Except.bind_ok_iff.1 found
      cases found
      exact ends

namespace Function

theorem endsItem_of_dropEnding {beyond : List Char} {name : String} {tokens rest : List Token}
    (found : dropEnding beyond name tokens = .ok rest) : EndsItem tokens rest := by
  fun_induction dropEnding beyond name tokens with
  | case1 => cases found
  | case2 token more semicolon =>
      cases found
      exact Or.inr ⟨[], token, rfl, by simp [Lexeme.endsItem, Lexeme.isSemicolon, semicolon]⟩
  | case3 token more opening =>
      obtain ⟨enclosed, body, same⟩ := Except.map_ok_iff.1 found
      rw [← same]
      exact Enclosure.endsItem_of_read opening body
  | case4 token more opening enclosed inner ih =>
      exact (ih found).mono (Enclosure.after_suffix_of_read inner)
  | case5 token more opening error inner => cases found
  | case6 token more _ _ _ ih => exact (ih found).mono (List.suffix_cons token more)

theorem suffix_of_signature {beyond : List Char} {inName : Bool} {tokens rest : List Token}
    {signature : Signature} (found : Signature.read beyond inName tokens = .ok (signature, rest)) :
    rest <:+ tokens := by
  have ends := Signature.endsIn_read beyond inName tokens
  rw [found] at ends
  exact ends

theorem endsItem_of_read {scope : Scope} {inName : Bool} {tokens rest : List Token}
    {outcome : Outcome} (found : read scope inName tokens = .ok (outcome, rest)) :
    EndsItem tokens rest := by
  unfold read at found
  obtain ⟨⟨type, behind⟩, typeFound, found⟩ := Except.bind_ok_iff.1 found
  obtain ⟨⟨signature, body⟩, signed, found⟩ := Except.bind_ok_iff.1 found
  obtain ⟨after, ended, found⟩ := Except.bind_ok_iff.1 found
  cases found
  have suffix := CType.endsIn_read scope.beyond tokens
  rw [typeFound] at suffix
  exact ((endsItem_of_dropEnding ended).mono (suffix_of_signature signed)).mono suffix

theorem endsItem_of_readConstructor {scope : Scope} {tokens rest : List Token} {outcome : Outcome}
    (found : readConstructor scope tokens = .ok (outcome, rest)) : EndsItem tokens rest := by
  unfold readConstructor at found
  obtain ⟨⟨signature, body⟩, signed, found⟩ := Except.bind_ok_iff.1 found
  dsimp only at found
  split at found
  · cases found
  · obtain ⟨after, ended, found⟩ := Except.bind_ok_iff.1 found
    cases found
    exact ((endsItem_of_dropEnding ended).mono (suffix_of_signature signed)).mono
      (dropFunctionSpecifiers_suffix tokens)

theorem endsItem_of_readDestructor {scope : Scope} {tokens rest : List Token} {outcome : Outcome}
    (found : readDestructor scope tokens = .ok (outcome, rest)) : EndsItem tokens rest := by
  have suffix := dropFunctionSpecifiers_suffix tokens
  unfold readDestructor at found
  split at found
  · cases found
  · next token more split =>
      rw [split] at suffix
      split at found
      · obtain ⟨⟨signature, body⟩, signed, found⟩ := Except.bind_ok_iff.1 found
        obtain ⟨after, ended, found⟩ := Except.bind_ok_iff.1 found
        cases found
        exact ((endsItem_of_dropEnding ended).mono (suffix_of_signature signed)).mono
          ((List.suffix_cons token more).trans suffix)
      · cases found

end Function

theorem Typedef.endsItem_of_read {tokens rest : List Token} {outcome : Outcome}
    (found : Typedef.read tokens = .ok (outcome, rest)) : EndsItem tokens rest := by
  have ends := Token.endsItem_splitOutside tokens
  unfold Typedef.read at found
  split at found
  · cases found
  · next token more split =>
      cases found
      rw [split, Token.dropSemicolon, if_pos (Token.splitOutside_head split)] at ends
      exact ends

theorem ClassItem.endsItem_of_read {beyond : List Char} {tokens rest : List Token}
    {item : ClassItem} (found : ClassItem.read beyond tokens = .ok (item, rest)) :
    EndsItem tokens rest := by
  unfold ClassItem.read at found
  split at found
  · next word name behind =>
      have suffix : behind <:+ word :: name :: behind := ⟨[word, name], rfl⟩
      split at found
      · split at found
        · unfold readBody at found
          dsimp only at found
          have whole := Token.splitOutside_suffix
            (fun lexeme => lexeme.isSemicolon || lexeme = .opening .curly) 0 behind
          split at found
          · cases found
          · next token more split =>
              rw [split] at whole
              have place := whole.trans suffix
              split at found
              · next semicolon =>
                  cases found
                  refine EndsItem.mono (Or.inr ⟨[], token, rfl, ?_⟩) place
                  simp [Lexeme.endsItem, semicolon]
              · next other =>
                  obtain ⟨body, enclosed, same⟩ := Except.map_ok_iff.1 found
                  cases same
                  have opens := opens_of_bases split other
                  exact (Enclosure.endsItem_of_read opens enclosed).mono place
        · cases found
      · cases found
  · split at found <;> cases found
  · cases found

theorem Item.endsItem_of_readPlain {scope : Scope} {inName : Bool} {kind : Kind}
    {tokens rest : List Token} {outcome : Outcome}
    (found : readPlain scope inName kind tokens = .ok (outcome, rest)) : EndsItem tokens rest := by
  unfold readPlain at found
  split at found
  · exact Function.endsItem_of_read found
  · exact Function.endsItem_of_readConstructor found
  · exact Function.endsItem_of_readDestructor found
  · exact Typedef.endsItem_of_read found
  · exact Variable.endsItem_of_read found

end PxdStub
