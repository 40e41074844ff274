import PxdStub.Proofs.Locality

/-!
Items are local: functions, kinds and classes give the same on tokens with more tokens behind them, and
so does a whole run of items.
-/

namespace PxdStub

variable {later tokens tokens' : List Token} {beyond beyond' : List Char} {scope scope' : Scope}

/-! ### Functions -/

namespace Token

theorem sum_groupsAt (depth : Nat) (tokens : List Token) :
    ((groupsAt depth tokens).map fun group => group.length + 1).sum = tokens.length + 1 := by
  induction tokens generalizing depth with
  | nil => rfl
  | cons token rest ih =>
      rw [groupsAt]
      split
      · rw [List.map_cons, List.sum_cons, ih]
        simp only [List.length_nil, List.length_cons]
        omega
      · have size := ih (angledNesting depth token)
        split
        · next group more groups =>
            rw [groups, List.map_cons, List.sum_cons] at size
            rw [List.map_cons, List.sum_cons]
            simp only [List.length_cons]
            omega
        · next groups =>
            rw [groups] at size
            cases size

/-- Groups and the tokens behind them reach one token behind the whole. -/
theorem sum_groups_le (tokens : List Token) :
    ((groups tokens).map fun group => group.length + 1).sum ≤ tokens.length + 1 := by
  rw [groups]
  split
  · exact Nat.zero_le _
  · exact Nat.le_of_eq (sum_groupsAt 0 tokens)

end Token

namespace Parameter

theorem agree_read {group group' : List Token} (fits : Token.Fits later tokens tokens')
    (isSealed : Token.Sealed later tokens) (inside : Token.Fits [] group group')
    (short : group.length ≤ tokens.length) :
    Matches Eq (read beyond tokens group) (read beyond' tokens' group') := by
  have size := fits.length
  have size' := inside.length
  unfold read
  refine (CType.agree_read fits isSealed).bind ?_
  rintro ⟨type, rest⟩ ⟨type', rest'⟩ found ⟨value, behind, _⟩
  have size'' := behind.length
  dsimp only at value behind size'' ⊢
  subst value
  rw [List.length_nil] at size'
  split
  · exact .error _ _
  · next further =>
      have count : rest'.length - (tokens'.length - group'.length) =
          rest.length - (tokens.length - group.length) := by omega
      rw [if_neg (by omega), count]
      have declared := (behind.take (Nat.sub_le _ (tokens.length - group.length))).beforeInitializer
      have dimensions := declared.countP fun lexeme => lexeme = .opening .square
      rw [declared.firstName?, dimensions]
      exact .ok rfl

/-- The places that are come to from group to group are sealed. -/
theorem agree_readGroups {groups groups' : List (List Token)}
    (inside : List.Forall₂ (Token.Fits []) groups groups') (fits : Token.Fits later tokens tokens')
    (short : (groups.map fun group => group.length + 1).sum ≤ tokens.length)
    (isSealed : ∀ count ≤ (groups.map fun group => group.length + 1).sum,
      Token.Sealed later (tokens.drop count)) :
    Matches Eq (readGroups beyond tokens groups) (readGroups beyond' tokens' groups') := by
  induction inside generalizing tokens tokens' with
  | nil => exact .ok rfl
  | @cons group group' more more' first _ ih =>
      rw [List.map_cons, List.sum_cons] at short isSealed
      have size : group'.length = group.length := first.length
      have rest : Matches Eq (readGroups beyond (tokens.drop (group.length + 1)) more)
          (readGroups beyond' (tokens'.drop (group'.length + 1)) more') := by
        rw [size]
        refine ih (fits.drop (by omega)) ?_ ?_
        · rw [List.length_drop]
          omega
        · intro count bound
          rw [List.drop_drop]
          exact isSealed _ (by omega)
      have here : Token.Sealed later tokens := isSealed 0 (Nat.zero_le _)
      have whole := first
      unfold readGroups
      cases first with
      | nil => exact rest
      | cons lexeme _ _ =>
          dsimp only
          rw [lexeme]
          split
          · refine rest.bind ?_
            rintro ⟨parameters, variadic⟩ _ _ rfl
            exact .ok rfl
          · refine (@agree_read _ _ _ beyond beyond' _ _ fits here whole (by omega)).bind ?_
            rintro parameter _ _ rfl
            refine rest.bind ?_
            rintro ⟨parameters, variadic⟩ _ _ rfl
            exact .ok rfl

theorem agree_readAll {enclosed enclosed' : Enclosure} (fits : Token.Fits later tokens tokens')
    (isSealed : Token.Sealed later tokens)
    (whole : tokens = enclosed.inside ++ enclosed.close :: enclosed.after)
    (closing : enclosed.close.lexeme.isSemicolon = false)
    (agree : Enclosure.Agree later enclosed enclosed') :
    Matches Eq (readAll beyond tokens enclosed.inside) (readAll beyond' tokens' enclosed'.inside) := by
  rw [readAll, readAll, agree.inside.map_lexeme]
  split
  · exact .ok rfl
  · have short := Token.sum_groups_le enclosed.inside
    have size := congrArg List.length whole
    rw [List.length_append, List.length_cons] at size
    refine agree_readGroups (Token.fits_groups agree.inside) fits (by omega) ?_
    intro count bound
    have suffix := List.drop_suffix count tokens
    by_cases last : count = enclosed.inside.length + 1
    · have after : tokens.drop count = enclosed.after := by
        rw [whole, last, List.append_cons]
        exact List.drop_left' (by simp)
      rw [after]
      exact @Token.Sealed.behind _ _ _ enclosed.close isSealed ⟨_, whole.symm⟩ closing
    · refine isSealed.suffix suffix ?_
      intro none
      rw [List.drop_eq_nil_iff] at none
      omega

end Parameter

namespace Signature

theorem head_of_splitName {angles : Nat} {inName : Bool} {tokens name call : List Token}
    (split : splitName angles inName tokens = some (name, call)) :
    ∃ token rest, call = token :: rest ∧ token.lexeme = .opening .round := by
  induction tokens generalizing angles inName name with
  | nil => cases split
  | cons token rest ih =>
      have later : ∀ angles, (splitName angles (token.lexeme.namesOperator inName) rest).map
          (fun found => (token :: found.1, found.2)) = some (name, call) →
          ∃ token rest, call = token :: rest ∧ token.lexeme = .opening .round := by
        intro angles found
        obtain ⟨⟨front, behind⟩, inner, same⟩ := Option.map_eq_some_iff.1 found
        cases same
        exact ih inner
      unfold splitName at split
      split at split
      · exact later _ split
      · exact later _ split
      · next opens =>
          split at split
          · cases split
            exact ⟨token, rest, rfl, opens⟩
          · exact later _ split
      · cases split
      · cases split
      · exact later _ split

theorem agree_splitName {angles : Nat} {inName : Bool} {name call : List Token}
    (fits : Token.Fits later tokens tokens')
    (split : splitName angles inName tokens = some (name, call)) :
    ∃ name' call', splitName angles inName tokens' = some (name', call') ∧
      Token.Fits [] name name' ∧ Token.Fits later call call' := by
  induction fits generalizing angles inName name with
  | nil => cases split
  | @cons token token' rest rest' lexeme gap behind ih =>
      have later : ∀ angles, (splitName angles (token.lexeme.namesOperator inName) rest).map
          (fun found => (token :: found.1, found.2)) = some (name, call) →
          ∃ name' call', (splitName angles (token.lexeme.namesOperator inName) rest').map
            (fun found => (token' :: found.1, found.2)) = some (name', call') ∧
              Token.Fits [] name name' ∧ Token.Fits later call call' := by
        intro angles found
        obtain ⟨⟨front, back⟩, inner, same⟩ := Option.map_eq_some_iff.1 found
        cases same
        obtain ⟨front', back', inner', fitsFront, fitsBack⟩ := ih inner
        refine ⟨token' :: front', back', Option.map_eq_some_iff.2 ⟨_, inner', rfl⟩,
          .cons lexeme (fun more => gap ?_) fitsFront, fitsBack⟩
        intro none
        rw [none] at inner
        cases inner
      unfold splitName at split ⊢
      rw [lexeme]
      split at split
      · exact later _ split
      · exact later _ split
      · split at split
        · next outermost =>
            cases split
            rw [if_pos outermost]
            exact ⟨[], _, rfl, .nil, .cons lexeme gap behind⟩
        · next within =>
            rw [if_neg within]
            exact later _ split
      · cases split
      · cases split
      · exact later _ split

theorem agree_read {inName : Bool} (fits : Token.Fits later tokens tokens')
    (isSealed : Token.Sealed later tokens) :
    Matches (Token.Agree later) (read beyond inName tokens) (read beyond' inName tokens') := by
  cases split : splitName 0 inName tokens with
  | none =>
      rw [read, split]
      exact .error _ _
  | some parts =>
      obtain ⟨name, call⟩ := parts
      obtain ⟨name', call', split', front, back⟩ := agree_splitName fits split
      obtain ⟨token, rest, rfl, opens⟩ := head_of_splitName split
      have within := isSealed.suffix ⟨name, (eq_of_splitName split).symm⟩ (List.cons_ne_nil _ _)
      have inner := within.tail (by rw [opens]; rfl)
      cases back with
      | @cons _ token' _ rest' lexeme gap behind =>
          rw [read, read, split, split']
          dsimp only
          rw [front.isEmpty]
          split
          · exact .error _ _
          · intro found done
            obtain ⟨enclosed, here, done⟩ := Except.bind_ok_iff.1 done
            obtain ⟨⟨parameters, variadic⟩, given, done⟩ := Except.bind_ok_iff.1 done
            cases done
            have closed := Enclosure.eq_of_close? (Enclosure.close?_of_read opens here)
            obtain ⟨enclosed', here', agree⟩ :=
              Enclosure.agree_read beyond' tokens' (.cons lexeme gap behind) here
            obtain ⟨_, given', rfl⟩ := @Parameter.agree_readAll _ _ _ beyond beyond' _ _ behind inner
              closed.1 (by rw [closed.2]; rfl) agree _ given
            refine ⟨_, Except.bind_ok_iff.2 ⟨enclosed', here',
              Except.bind_ok_iff.2 ⟨_, given', rfl⟩⟩, ?_, agree.after,
              Enclosure.isSealed_of_read within here⟩
            dsimp only
            rw [front.nameOf]

theorem outcome_alike (alike : scope.Alike scope') (kind : FunctionKind) (signature : Signature) :
    signature.outcome scope' kind = signature.outcome scope kind := by
  rw [outcome, outcome, alike.isNested]

end Signature

namespace Function

theorem agree_dropEnding {name : String} (fits : Token.Fits later tokens tokens')
    (isSealed : Token.Sealed later tokens) :
    Matches (Token.Fits later) (dropEnding beyond name tokens)
      (dropEnding beyond' name tokens') := by
  fun_induction dropEnding beyond name tokens generalizing tokens' with
  | case1 => exact .error _ _
  | case2 token rest semicolon =>
      obtain _ | ⟨lexeme, gap, behind⟩ := fits
      rw [dropEnding_semicolon (lexeme.trans semicolon)]
      exact .ok behind
  | case3 token rest opening =>
      obtain _ | ⟨lexeme, gap, behind⟩ := fits
      intro after done
      obtain ⟨enclosed, here, rfl⟩ := Except.map_ok_iff.1 done
      obtain ⟨enclosed', here', agree⟩ :=
        Enclosure.agree_read beyond' _ (.cons lexeme gap behind) here
      rw [dropEnding_curly (lexeme.trans opening)]
      refine ⟨_, Except.map_ok_iff.2 ⟨enclosed', here', rfl⟩, ?_⟩
      exact Token.fits_dropSemicolon agree.after (Enclosure.isSealed_of_read isSealed here)
  | case4 token rest opening enclosed here ih =>
      obtain _ | ⟨lexeme, gap, behind⟩ := fits
      obtain ⟨enclosed', here', agree⟩ :=
        Enclosure.agree_read beyond' _ (.cons lexeme gap behind) here
      rw [dropEnding_round (lexeme.trans opening), here']
      exact ih agree.after (Enclosure.isSealed_of_read isSealed here)
  | case5 => exact .error _ _
  | case6 token rest notSemicolon notCurly notRound ih =>
      obtain _ | ⟨lexeme, gap, behind⟩ := fits
      rw [dropEnding_other (lexeme ▸ notSemicolon) (lexeme ▸ notCurly) (lexeme ▸ notRound)]
      exact ih behind (isSealed.tail (by simpa [Lexeme.isSemicolon] using notSemicolon))

theorem agree_read {inName : Bool} (alike : scope.Alike scope')
    (fits : Token.Fits later tokens tokens') (isSealed : Token.Sealed later tokens) :
    Matches (Outcome.Agree later) (read scope inName tokens) (read scope' inName tokens') := by
  have suffix := CType.endsIn_read scope.beyond tokens
  unfold read
  refine (CType.agree_read fits isSealed).bind ?_
  rintro ⟨type, rest⟩ ⟨type', rest'⟩ found ⟨value, behind, within⟩
  rw [found] at suffix
  dsimp only at value behind within ⊢
  subst value
  rw [(fits.before behind suffix).namesOperator]
  refine (Signature.agree_read behind within).bind ?_
  rintro ⟨signature, call⟩ ⟨signature', call'⟩ _ ⟨value, behind, within⟩
  dsimp only at value behind within ⊢
  subst value
  refine (agree_dropEnding behind within).bind ?_
  intro after after' _ fits
  rw [Signature.outcome_alike alike]
  exact .ok ⟨rfl, rfl, fits⟩

theorem agree_dropFunctionSpecifiers (fits : Token.Fits later tokens tokens')
    (isSealed : Token.Sealed later tokens) :
    Token.Fits later (Token.dropFunctionSpecifiers tokens) (Token.dropFunctionSpecifiers tokens') ∧
      Token.Sealed later (Token.dropFunctionSpecifiers tokens) := by
  unfold Token.dropFunctionSpecifiers
  induction fits with
  | nil =>
      rw [isSealed.of_nil]
      exact ⟨.nil, Or.inl rfl⟩
  | @cons token token' rest rest' lexeme gap behind ih =>
      rw [List.dropWhile_cons, List.dropWhile_cons, lexeme]
      split
      · next specifier =>
          refine ih (isSealed.tail ?_)
          cases same : token.lexeme with
          | punctuation mark =>
              rw [same] at specifier
              cases specifier
          | _ => rfl
      · exact ⟨.cons lexeme gap behind, isSealed⟩

theorem agree_readConstructor (alike : scope.Alike scope')
    (fits : Token.Fits later tokens tokens') (isSealed : Token.Sealed later tokens) :
    Matches (Outcome.Agree later) (readConstructor scope tokens) (readConstructor scope' tokens') := by
  obtain ⟨behind, within⟩ := agree_dropFunctionSpecifiers fits isSealed
  unfold readConstructor
  rw [alike.owner]
  refine (Signature.agree_read behind within).bind ?_
  rintro ⟨signature, call⟩ ⟨signature', call'⟩ _ ⟨value, behind, within⟩
  dsimp only at value behind within ⊢
  subst value
  split
  · exact .error _ _
  · refine (agree_dropEnding behind within).bind ?_
    intro after after' _ fits
    rw [Signature.outcome_alike alike]
    exact .ok ⟨rfl, rfl, fits⟩

theorem agree_readDestructor (fits : Token.Fits later tokens tokens')
    (isSealed : Token.Sealed later tokens) :
    Matches (Outcome.Agree later) (readDestructor scope tokens) (readDestructor scope' tokens') := by
  obtain ⟨behind, within⟩ := agree_dropFunctionSpecifiers fits isSealed
  unfold readDestructor
  generalize Token.dropFunctionSpecifiers tokens = start at behind within ⊢
  generalize Token.dropFunctionSpecifiers tokens' = start' at behind ⊢
  cases behind with
  | nil => exact .error _ _
  | cons lexeme gap behind =>
      dsimp only
      rw [lexeme]
      split
      · next tilde =>
          refine (Signature.agree_read behind (within.tail (by rw [tilde]; rfl))).bind ?_
          rintro ⟨signature, call⟩ ⟨signature', call'⟩ _ ⟨value, behind, within⟩
          dsimp only at value behind within ⊢
          subst value
          refine (agree_dropEnding behind within).bind ?_
          intro after after' _ fits
          exact .ok ⟨rfl, rfl, fits⟩
      · exact .error _ _

end Function

theorem Typedef.agree_read (fits : Token.Fits later tokens tokens')
    (isSealed : Token.Sealed later tokens) :
    Matches (Outcome.Agree later) (read tokens) (read tokens') := by
  have back := (Token.agree_splitOutside_of_sealed (fun _ semicolon => semicolon) fits isSealed).2.1
  unfold read
  generalize (Token.splitOutside Lexeme.isSemicolon 0 tokens).2 = rest at back ⊢
  generalize (Token.splitOutside Lexeme.isSemicolon 0 tokens').2 = rest' at back ⊢
  cases back with
  | nil => exact .error _ _
  | cons _ _ behind => exact .ok ⟨rfl, rfl, behind⟩

/-! ### Kinds -/

namespace Kind

theorem reachesParenthesis_eq (fits : Token.Fits later tokens tokens')
    (isSealed : Token.Sealed later tokens) :
    reachesParenthesis tokens' = reachesParenthesis tokens := by
  induction fits with
  | nil => rw [isSealed.of_nil]
  | @cons token token' rest rest' lexeme gap behind ih =>
      rw [reachesParenthesis, reachesParenthesis, lexeme]
      split
      · rfl
      · rfl
      · rfl
      · next notSemicolon =>
          exact ih (isSealed.tail (by simpa [Lexeme.isSemicolon] using notSemicolon))

theorem ofOwner?_eq {owner : String} (fits : Token.Fits later tokens tokens')
    (isSealed : Token.Sealed later tokens) : ofOwner? owner tokens' = ofOwner? owner tokens := by
  obtain ⟨behind, within⟩ := Function.agree_dropFunctionSpecifiers fits isSealed
  unfold ofOwner?
  generalize Token.dropFunctionSpecifiers tokens = start at behind within ⊢
  generalize Token.dropFunctionSpecifiers tokens' = start' at behind ⊢
  cases behind with
  | nil =>
      rw [within.of_nil]
  | @cons token token' rest rest' lexeme gap behind =>
      have named : (token.lexeme = .identifier owner && reachesParenthesis rest') =
          (token.lexeme = .identifier owner && reachesParenthesis rest) := by
        by_cases name : token.lexeme = .identifier owner
        · rw [reachesParenthesis_eq behind (within.tail (by rw [name]; rfl))]
        · simp [name]
      have next : (token.lexeme = .punctuation .tilde &&
            rest'.head?.any fun next => next.lexeme = .identifier owner) =
          (token.lexeme = .punctuation .tilde &&
            rest.head?.any fun next => next.lexeme = .identifier owner) := by
        by_cases tilde : token.lexeme = .punctuation .tilde
        · have within := within.tail (by rw [tilde]; rfl)
          cases behind with
          | nil =>
              rw [within.of_nil]
          | cons lexeme' _ _ =>
              dsimp only [List.head?_cons, Option.any_some]
              rw [lexeme']
        · simp [tilde]
      dsimp only
      rw [lexeme, named, next]

/-- How many braces are open behind a lexeme. -/
def bracesBehind (braces : Nat) : Lexeme → Nat
  | .opening .curly => braces + 1
  | .closing .curly => braces - 1
  | _ => braces

theorem bracesBehind_le {stack stack' : List Bracket} {token : Token} {braces : Nat}
    (opened : Token.openBehind? stack token = some stack') (bound : braces ≤ stack.count .curly) :
    bracesBehind braces token.lexeme ≤ stack'.count .curly := by
  unfold Token.openBehind? at opened
  cases lexeme : token.lexeme with
  | opening bracket =>
      rw [lexeme] at opened
      cases bracket with
      | angle =>
          cases opened
          exact bound
      | round | square | curly =>
          cases opened
          simp only [bracesBehind, List.count_cons]
          simpa using bound
  | closing bracket =>
      rw [lexeme] at opened
      cases bracket with
      | angle =>
          cases opened
          exact bound
      | round | square | curly =>
          rw [Token.shut?_eq_some_iff.1 opened, List.count_cons] at bound
          simp only [bracesBehind]
          simp at bound
          omega
  | _ =>
      rw [lexeme] at opened
      cases opened
      exact bound

/-- At the last semicolon no brace is open, so that it decides. -/
theorem isCallable_eq {braces angles : Nat} {inName : Bool} (fits : Token.Fits later tokens tokens')
    (closed : later = [] ∨ ∃ stack, Token.closes stack tokens ∧ braces ≤ stack.count .curly ∧
      Token.endsInSemicolon tokens) :
    isCallable braces angles inName tokens' = isCallable braces angles inName tokens := by
  induction fits generalizing braces angles inName with
  | nil =>
      obtain none | ⟨_, _, _, ends⟩ := closed
      · rw [none]
      · cases ends
  | @cons token token' rest rest' lexeme gap behind ih =>
      have further : ∀ angles, (token.lexeme.isSemicolon → braces ≠ 0) →
          isCallable (bracesBehind braces token.lexeme) angles (token.lexeme.namesOperator inName)
              rest' =
            isCallable (bracesBehind braces token.lexeme) angles
              (token.lexeme.namesOperator inName) rest := by
        intro angles undecided
        refine ih ?_
        obtain none | ⟨stack, closed, bound, ends⟩ := closed
        · exact Or.inl none
        · obtain ⟨stack', opened, closed'⟩ := Token.closes_cons.1 closed
          obtain ⟨last, semicolon⟩ | ends' := Token.endsInSemicolon_cons ends
          · rw [last] at closed
            rw [Token.eq_nil_of_closes_semicolon closed semicolon] at bound
            exact absurd (by simpa using bound) (undecided semicolon)
          · exact Or.inr ⟨stack', closed', bracesBehind_le opened bound, ends'⟩
      unfold isCallable
      rw [lexeme]
      cases same : token.lexeme with
      | opening bracket =>
          rw [same] at further
          cases bracket with
          | round =>
              dsimp only
              split
              · rfl
              · exact further _ (fun none => by cases none)
          | square | curly | angle => exact further _ (fun none => by cases none)
      | closing bracket =>
          rw [same] at further
          cases bracket with
          | round | square | curly | angle => exact further _ (fun none => by cases none)
      | punctuation mark =>
          rw [same] at further
          cases mark with
          | semicolon =>
              dsimp only
              split
              · rfl
              · next within => exact further _ (fun _ => within)
          | equals =>
              dsimp only
              split
              · rfl
              · exact further _ (fun none => by cases none)
          | _ => exact further _ (fun none => by cases none)
      | _ =>
          rw [same] at further
          exact further _ (fun none => by cases none)

theorem ofTokens_eq {owner : Option String} {inName : Bool} (fits : Token.Fits later tokens tokens')
    (isSealed : Token.Sealed later tokens) :
    ofTokens owner inName tokens' = ofTokens owner inName tokens := by
  have named : (owner.bind fun owner => ofOwner? owner tokens') =
      owner.bind fun owner => ofOwner? owner tokens := by
    cases owner with
    | none => rfl
    | some owner => exact ofOwner?_eq fits isSealed
  have keyword : ofKeyword? tokens' = ofKeyword? tokens := by
    cases fits with
    | nil => rw [isSealed.of_nil]
    | cons lexeme _ _ => rw [ofKeyword?, ofKeyword?, lexeme]
  have callable : isCallable 0 0 inName tokens' = isCallable 0 0 inName tokens := by
    refine isCallable_eq fits ?_
    obtain none | ⟨⟨stack, closed⟩, ends⟩ := isSealed
    · exact Or.inl none
    · exact Or.inr ⟨stack, closed, Nat.zero_le _, ends⟩
  rw [ofTokens, ofTokens, named, keyword, callable]

end Kind

/-! ### Classes -/

theorem Token.Fits.startsLabel (fits : Token.Fits [] tokens tokens') :
    Token.startsLabel tokens' = Token.startsLabel tokens := by
  obtain _ | ⟨lexeme, _, _ | ⟨lexeme', _, _⟩⟩ := fits
  · rfl
  · rfl
  · rw [Token.startsLabel, Token.startsLabel, lexeme, lexeme']

namespace Section

/-- Sections that differ in the text behind them only. -/
def Alike (part part' : Section) : Prop :=
  Token.Fits [] part.tokens part'.tokens

theorem fits_splitLabel {depth : Nat} (fits : Token.Fits [] tokens tokens') :
    Token.Fits [] (splitLabel depth tokens).1 (splitLabel depth tokens').1 ∧
      Token.Fits [] (splitLabel depth tokens).2 (splitLabel depth tokens').2 := by
  induction fits generalizing depth with
  | nil => exact ⟨.nil, .nil⟩
  | @cons token token' rest rest' lexeme gap behind ih =>
      have whole := Token.Fits.cons lexeme gap behind
      have same : Token.nesting depth token' = Token.nesting depth token := by
        rw [Token.nesting, Token.nesting, lexeme]
      rw [splitLabel, splitLabel, whole.startsLabel, same]
      split
      · exact ⟨.nil, whole⟩
      · obtain ⟨front, back⟩ := @ih (Token.nesting depth token)
        refine ⟨.cons lexeme (fun some => gap ?_) front, back⟩
        intro none
        rw [none] at some
        exact some rfl

theorem alike_publicFrom (fits : Token.Fits [] tokens tokens') :
    List.Forall₂ Alike (publicFrom beyond tokens) (publicFrom beyond' tokens') := by
  induction size : tokens.length using Nat.strong_induction_on generalizing tokens tokens' with
  | _ size ih =>
      subst size
      obtain _ | ⟨lexeme, _, _ | @⟨colon, colon', rest, rest', _, _, behind⟩⟩ := fits
      · rw [publicFrom, publicFrom]
        · exact .nil
        · exact fun _ _ _ none => by cases none
        · exact fun _ _ _ none => by cases none
      · rw [publicFrom, publicFrom]
        · exact .nil
        · exact fun _ _ _ none => by cases none
        · exact fun _ _ _ none => by cases none
      · obtain ⟨front, back⟩ := @fits_splitLabel _ _ 0 behind
        have whole := congrArg List.length (splitLabel_append 0 rest)
        rw [List.length_append] at whole
        have later := ih _ (by simp only [List.length_cons]; omega) back rfl
        rw [publicFrom, publicFrom, lexeme, front.isEmpty]
        split
        · exact .cons front later
        · exact later

theorem alike_publicOf (fits : Token.Fits [] tokens tokens') :
    List.Forall₂ Alike (publicOf beyond tokens) (publicOf beyond' tokens') :=
  alike_publicFrom (fits_splitLabel fits).2

end Section

namespace ClassItem

/-- The same class item, up to the text behind its sections. -/
inductive Agree (later : List Token) : ClassItem × List Token → ClassItem × List Token → Prop
  | forward {name rest rest'} : Token.Fits later rest rest' →
      Agree later (.forward name, rest) (.forward name, rest')
  | definition {name sections sections' rest rest'} : List.Forall₂ Section.Alike sections sections' →
      Token.Fits later rest rest' →
      Agree later (.definition name sections, rest) (.definition name sections', rest')

theorem agree_readBody {name : String} (fits : Token.Fits later tokens tokens')
    (isSealed : Token.Sealed later tokens) :
    Matches (Agree later) (readBody beyond name tokens) (readBody beyond' name tokens') := by
  have stops : ∀ lexeme : Lexeme, lexeme.isSemicolon →
      (lexeme.isSemicolon || lexeme = .opening .curly) := by
    intro lexeme semicolon
    rw [semicolon]
    rfl
  obtain ⟨_, back, within⟩ := Token.agree_splitOutside_of_sealed stops fits isSealed
  unfold readBody
  dsimp only
  generalize (Token.splitOutside _ 0 tokens).2 = start at back within ⊢
  generalize (Token.splitOutside _ 0 tokens').2 = start' at back ⊢
  cases back with
  | nil => exact .error _ _
  | cons lexeme gap behind =>
      dsimp only
      rw [lexeme]
      split
      · exact .ok (.forward behind)
      · intro found done
        obtain ⟨body, here, rfl⟩ := Except.map_ok_iff.1 done
        obtain ⟨body', here', agree⟩ :=
          Enclosure.agree_read beyond' tokens' (.cons lexeme gap behind) here
        refine ⟨_, Except.map_ok_iff.2 ⟨body', here', rfl⟩, ?_⟩
        refine .definition (Section.alike_publicOf agree.inside) ?_
        exact Token.fits_dropSemicolon agree.after (Enclosure.isSealed_of_read within here)

theorem agree_read (fits : Token.Fits later tokens tokens')
    (isSealed : Token.Sealed later tokens) :
    Matches (Agree later) (read beyond tokens) (read beyond' tokens') := by
  unfold read
  obtain _ | ⟨lexeme, _, _ | @⟨name, name', rest, rest', lexeme', _, behind⟩⟩ := fits
  · exact .error _ _
  · dsimp only
    split <;> exact .error _ _
  · dsimp only
    rw [lexeme, lexeme']
    split
    · next word =>
        have within := isSealed.tail (by rw [word]; rfl)
        split
        · next className named =>
            exact agree_readBody behind (within.tail (by rw [named]; rfl))
        · exact .error _ _
    · exact .error _ _

end ClassItem

/-! ### Items -/

namespace Item

theorem kind?_eq {owner : Option String} {inName : Bool} (fits : Token.Fits later tokens tokens')
    (isSealed : Token.Sealed later tokens) :
    kind? owner inName tokens' = kind? owner inName tokens := by
  have whole := fits
  cases fits with
  | nil => rw [isSealed.of_nil]
  | cons lexeme _ _ => rw [kind?, kind?, lexeme, Kind.ofTokens_eq whole isSealed]

theorem agree_dropTemplate (fits : Token.Fits later tokens tokens')
    (isSealed : Token.Sealed later tokens) {inner : List Token}
    (dropped : dropTemplate beyond tokens = .ok inner) :
    ∃ inner', dropTemplate beyond' tokens' = .ok inner' ∧ Token.Fits later inner inner' ∧
      Token.Sealed later inner := by
  obtain _ | ⟨_, _, _ | @⟨opening, opening', rest, rest', lexeme, gap, behind⟩⟩ := fits
  · cases dropped
  · cases dropped
  · unfold dropTemplate at dropped ⊢
    dsimp only [List.tail_cons] at dropped ⊢
    rw [lexeme]
    split at dropped
    · next opens =>
        rw [if_pos opens]
        obtain ⟨enclosed, here, rfl⟩ := Except.map_ok_iff.1 dropped
        obtain ⟨enclosed', here', agree⟩ :=
          Enclosure.agree_read beyond' (opening' :: rest') (.cons lexeme gap behind) here
        refine ⟨_, Except.map_ok_iff.2 ⟨enclosed', here', rfl⟩, agree.after, ?_⟩
        exact Enclosure.isSealed_of_read
          (isSealed.suffix (List.suffix_cons _ _) (List.cons_ne_nil _ _)) here
    · cases dropped

theorem agree_readPlain {inName : Bool} {kind : Kind} (alike : scope.Alike scope')
    (fits : Token.Fits later tokens tokens') (isSealed : Token.Sealed later tokens)
    (some : tokens ≠ []) :
    Matches (Outcome.Agree later) (readPlain scope inName kind tokens)
      (readPlain scope' inName kind tokens') := by
  unfold readPlain
  split
  · exact Function.agree_read alike fits isSealed
  · exact Function.agree_readConstructor alike fits isSealed
  · exact Function.agree_readDestructor fits isSealed
  · exact Typedef.agree_read fits isSealed
  · exact Variable.agree_read alike fits isSealed some

mutual

/-- An item is read in the same way whatever comes behind the tokens. -/
theorem Reads.agree {scope scope' : Scope} {inName : Bool} {later tokens tokens' rest : List Token}
    {declaration? : Option Declaration} {omissions : List Omission} (alike : scope.Alike scope')
    (fits : Token.Fits later tokens tokens') (isSealed : Token.Sealed later tokens)
    (reads : Reads scope inName tokens declaration? omissions rest) :
    ∃ rest', Reads scope' inName tokens' declaration? omissions rest' ∧
      Token.Fits later rest rest' := by
  match reads with
  | .semicolon here =>
      obtain _ | ⟨lexeme, _, behind⟩ := fits
      exact ⟨_, .semicolon (by rw [lexeme]; exact here), behind⟩
  | @Reads.template _ _ _ inner _ _ _ starts dropped reads =>
      rw [← kind?_eq fits isSealed, ← alike.owner] at starts
      obtain ⟨inner', dropped', behind, within⟩ := agree_dropTemplate fits isSealed dropped
      have suffix := endsIn_dropTemplate scope.beyond tokens
      rw [dropped] at suffix
      obtain ⟨rest', reads', fits'⟩ := Reads.agree alike behind within reads
      rw [← (fits.before behind suffix).namesOperator] at reads'
      exact ⟨rest', .template starts dropped' reads', fits'⟩
  | @Reads.inline _ _ token _ _ _ _ starts reads =>
      have other : token.lexeme.isSemicolon = false := by
        obtain ⟨_, _, same, other, _⟩ := kind?_eq_some_iff.1 starts
        cases same
        exact other
      rw [← kind?_eq fits isSealed, ← alike.owner] at starts
      obtain _ | ⟨lexeme, _, behind⟩ := fits
      obtain ⟨rest', reads', fits'⟩ := Reads.agree alike behind (isSealed.tail other) reads
      rw [← lexeme] at reads'
      exact ⟨rest', .inline starts reads', fits'⟩
  | .forward starts found =>
      rw [← kind?_eq fits isSealed, ← alike.owner] at starts
      obtain ⟨_, found', agree⟩ := ClassItem.agree_read fits isSealed _ found
      cases agree with
      | forward behind => exact ⟨_, .forward starts found', behind⟩
  | .definition starts found bodies =>
      rw [← kind?_eq fits isSealed, ← alike.owner] at starts
      obtain ⟨_, found', agree⟩ := ClassItem.agree_read fits isSealed _ found
      cases agree with
      | definition sections behind =>
          have bodies' := ReadsSections.agree sections bodies
          rw [← alike.depth] at bodies'
          exact ⟨_, .definition starts found' bodies', behind⟩
  | .plain starts isPlain found =>
      have some := (Reads.plain starts isPlain found).tokens_ne_nil
      rw [← kind?_eq fits isSealed, ← alike.owner] at starts
      obtain ⟨⟨outcome', rest'⟩, found', agree⟩ :=
        agree_readPlain alike fits isSealed some _ found
      have reads' := Reads.plain starts isPlain found'
      rw [agree.declaration, agree.omissions] at reads'
      exact ⟨rest', reads', agree.fits⟩

theorem ReadsSections.agree {name : String} {depth : Nat} {sections sections' : List Section}
    {declarations : List Declaration} {omissions : List Omission}
    (alike : List.Forall₂ Section.Alike sections sections')
    (reads : ReadsSections name depth sections declarations omissions) :
    ReadsSections name depth sections' declarations omissions := by
  match reads with
  | .nil =>
      rw [List.forall₂_nil_left_iff.1 alike]
      exact .nil
  | @ReadsSections.cons _ _ part _ _ _ _ _ first others =>
      obtain ⟨part', parts', fits, alike', same⟩ := List.forall₂_cons_left_iff.1 alike
      have here : Scope.Alike ⟨some name, depth, part.beyond⟩ ⟨some name, depth, part'.beyond⟩ :=
        ⟨rfl, rfl⟩
      rw [same]
      refine .cons ?_ (ReadsSections.agree alike' others)
      have ended := ReadsAll.append here fits (fun _ => Or.inl rfl) rfl first .nil
      rwa [List.append_nil, List.append_nil] at ended

/-- Items up to the end of some tokens stay as they are in front of further items. -/
theorem ReadsAll.append {scope scope' : Scope} {inName : Bool}
    {later tokens tokens' : List Token} {declarations more : List Declaration}
    {omissions moreOmissions : List Omission} (alike : scope.Alike scope')
    (fits : Token.Fits later tokens tokens') (isSealed : tokens ≠ [] → Token.Sealed later tokens)
    (outside : inName = false) (reads : ReadsAll scope inName tokens declarations omissions)
    (behind : ReadsAll scope' false later more moreOmissions) :
    ReadsAll scope' inName tokens' (declarations ++ more) (omissions ++ moreOmissions) := by
  match reads with
  | .nil =>
      cases fits
      rw [outside]
      exact behind
  | .cons first others =>
      have isSealed' := isSealed first.tokens_ne_nil
      obtain ⟨rest', first', fits'⟩ := Reads.agree alike fits isSealed' first
      rw [List.append_assoc, List.append_assoc]
      refine .cons first' (ReadsAll.append alike fits' ?_ rfl others behind)
      exact isSealed'.suffix first.endsItem.suffix

end

end Item

end PxdStub
