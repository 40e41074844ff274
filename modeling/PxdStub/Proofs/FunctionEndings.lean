import PxdStub.Proofs.MemberInitializers
import PxdStub.Proofs.Wrappers

/-!
What stands behind the parameters of a function has no say in it. A function, a constructor or a
destructor is the same item with any qualifiers and any end, and it leaves what stands behind them.
-/

namespace PxdStub

variable {later tokens tokens' : List Token}

/-! ### Tokens in parts -/

namespace Token

/-- Tokens that fit are cut where the first ones are. -/
theorem Fits.cut {front back : List Token} (fits : Fits later (front ++ back) tokens) :
    ∃ behind, Fits behind front tokens ∧ Fits later back behind := by
  induction front generalizing tokens with
  | nil => exact ⟨tokens, .nil, fits⟩
  | cons token front ih =>
      obtain _ | ⟨lexeme, gap, more⟩ := fits
      obtain ⟨behind, first, second⟩ := ih more
      refine ⟨behind, .cons lexeme (fun some => gap ?_) first, second⟩
      exact List.append_ne_nil_of_left_ne_nil some back

/-- Two runs of tokens that fit the same ones fit each other. -/
theorem Fits.of_fits {start : List Token} (fits : Fits [] start tokens)
    (fits' : Fits later start tokens') : Fits later tokens tokens' := by
  induction fits generalizing tokens' with
  | nil =>
      cases fits'
      exact .nil
  | @cons token token' rest rest' lexeme gap behind ih =>
      obtain _ | ⟨lexeme', gap', behind'⟩ := fits'
      refine .cons (lexeme'.trans lexeme.symm) (fun some => ?_) (ih behind')
      have more : rest ≠ [] := by
        rintro rfl
        cases behind
        exact some rfl
      rw [gap more, gap' more]

theorem Fits.exists_moved (fits : Fits later tokens tokens') {moved : List Token}
    (places : Moved tokens' moved) : ∃ later', Fits later' tokens moved ∧ Moved later later' := by
  induction fits generalizing moved with
  | nil => exact ⟨moved, .nil, places⟩
  | cons lexeme gap _ ih =>
      obtain ⟨token, rest, rfl, _, _⟩ := List.map_eq_cons_iff.1 places
      obtain ⟨⟨lexeme', gap'⟩, behind⟩ := Moved.cons_iff.1 places
      obtain ⟨later', fits, same⟩ := ih behind
      exact ⟨later', .cons (lexeme'.trans lexeme) (fun some => gap'.trans (gap some)) fits, same⟩

theorem before_append {front rest last : List Token} :
    before (front ++ last) (rest ++ last) = before front rest := by
  rw [before, before, List.length_append, List.length_append, Nat.add_sub_add_right]
  exact List.take_append_of_le_length (Nat.sub_le _ _)

/-- A suffix of some tokens and a last one has this one as its last, unless it is empty. -/
theorem exists_concat_of_suffix {front rest : List Token} {last : Token}
    (suffix : rest <:+ front ++ [last]) (some : rest ≠ []) :
    ∃ more, rest = more ++ [last] ∧ more <:+ front := by
  obtain none | ⟨more, rfl, within⟩ := List.suffix_concat_iff.1 suffix
  · exact absurd none some
  · exact ⟨more, rfl, within⟩

/-- Whether the last token, if there is one, closes parentheses. -/
def EndsInRound (tokens : List Token) : Prop :=
  ∀ last ∈ tokens.getLast?, last.lexeme = .closing .round

theorem EndsInRound.of_suffix {rest : List Token} (ends : EndsInRound tokens)
    (suffix : rest <:+ tokens) : EndsInRound rest := by
  obtain ⟨front, rfl⟩ := suffix
  exact fun last mem => ends last (List.mem_getLast?_append_of_mem_getLast? mem)

theorem endsInRound_concat {last : Token} : EndsInRound (tokens ++ [last]) ↔
    last.lexeme = .closing .round := by
  simp [EndsInRound]

theorem EndsInRound.exists_last (ends : EndsInRound tokens) (some : tokens ≠ []) :
    ∃ front last, tokens = front ++ [last] ∧ last.lexeme = .closing .round := by
  obtain none | ⟨front, last, rfl⟩ := List.eq_nil_or_concat tokens
  · exact absurd none some
  · exact ⟨front, last, List.concat_eq_append, endsInRound_concat.1 (by simpa using ends)⟩

theorem EndsInRound.stops (ends : EndsInRound tokens) (some : tokens ≠ []) : Stops tokens := by
  obtain ⟨front, last, rfl, round⟩ := ends.exists_last some
  exact Stops.concat (by simp [round])

/-! ### Brackets of one kind -/

variable {bracket : Bracket}

theorem foldlM_deepen?_of_close? {depth : Nat} {enclosed : Enclosure}
    (closed : Enclosure.close? bracket depth tokens = some enclosed) :
    enclosed.inside.foldlM (deepen? bracket) depth = some 0 := by
  induction tokens generalizing depth enclosed with
  | nil => cases closed
  | cons token rest ih =>
      have deeper : ∀ depth', deepen? bracket depth token = some depth' →
          (Enclosure.close? bracket depth' rest).map (fun found =>
            { found with inside := token :: found.inside }) = some enclosed →
          enclosed.inside.foldlM (deepen? bracket) depth = some 0 := by
        intro depth' step shown
        obtain ⟨inner, here, rfl⟩ := Option.map_eq_some_iff.1 shown
        rw [List.foldlM_cons, step]
        exact ih here
      unfold Enclosure.close? at closed
      dsimp only at closed
      split at closed
      · next opens => exact deeper _ (deepen?_of_opening opens) closed
      · next notOpening =>
          split at closed
          · next closes =>
              cases depth with
              | zero =>
                  cases closed
                  rfl
              | succ outer => exact deeper _ (deepen?_of_closing closes) closed
          · next notClosing => exact deeper _ (deepen?_of_other notOpening notClosing) closed

/-- Tokens that close one bracket more than they open have a first one that closes it. -/
theorem exists_close_of_deepen? {depth : Nat}
    (balanced : tokens.foldlM (deepen? bracket) (depth + 1) = some 0) :
    ∃ inside closing after, tokens = inside ++ closing :: after ∧
      inside.foldlM (deepen? bracket) depth = some 0 ∧ closing.lexeme = .closing bracket ∧
        Balances bracket after := by
  induction tokens generalizing depth with
  | nil => cases balanced
  | cons token rest ih =>
      have deeper : ∀ depth', deepen? bracket depth token = some depth' →
          rest.foldlM (deepen? bracket) (depth' + 1) = some 0 →
          ∃ inside closing after, token :: rest = inside ++ closing :: after ∧
            inside.foldlM (deepen? bracket) depth = some 0 ∧ closing.lexeme = .closing bracket ∧
              Balances bracket after := by
        intro depth' step later
        obtain ⟨inside, closing, after, rfl, inner, closes, outer⟩ := ih later
        refine ⟨token :: inside, closing, after, rfl, ?_, closes, outer⟩
        rw [List.foldlM_cons, step]
        exact inner
      rw [List.foldlM_cons] at balanced
      by_cases opens : token.lexeme = .opening bracket
      · rw [deepen?_of_opening opens] at balanced
        exact deeper _ (deepen?_of_opening opens) balanced
      · by_cases closes : token.lexeme = .closing bracket
        · rw [deepen?_of_closing closes] at balanced
          cases depth with
          | zero => exact ⟨[], token, rest, rfl, rfl, closes, balanced⟩
          | succ outer => exact deeper _ (deepen?_of_closing closes) balanced
        · rw [deepen?_of_other opens closes] at balanced
          exact deeper _ (deepen?_of_other opens closes) balanced

end Token

/-! ### Signatures -/

namespace Signature

variable {beyond beyond' : List Char} {inName : Bool} {signature : Signature}

/-- The search for the opening parenthesis looks at nothing behind it. -/
theorem splitName_cut {angles : Nat} {name more : List Token} {opening : Token}
    (split : splitName angles inName (name ++ opening :: more) = some (name, opening :: more)) :
    splitName angles inName (name ++ [opening]) = some (name, [opening]) := by
  induction name generalizing angles inName with
  | nil =>
      have named : ∀ angles inName, (splitName angles inName more).map
          (fun found => (opening :: found.1, found.2)) ≠ some ([], opening :: more) := by
        intro angles inName found
        obtain ⟨_, _, same⟩ := Option.map_eq_some_iff.1 found
        cases same
      rw [List.nil_append] at split ⊢
      unfold splitName at split ⊢
      dsimp only at split ⊢
      split at split
      · exact absurd split (named _ _)
      · exact absurd split (named _ _)
      · split at split
        · next outermost => rw [if_pos outermost]
        · exact absurd split (named _ _)
      · cases split
      · cases split
      · exact absurd split (named _ _)
  | cons token name ih =>
      have later : ∀ angles inName, (splitName angles inName (name ++ opening :: more)).map
          (fun found => (token :: found.1, found.2)) = some (token :: name, opening :: more) →
          (splitName angles inName (name ++ [opening])).map
            (fun found => (token :: found.1, found.2)) = some (token :: name, [opening]) := by
        intro angles inName found
        obtain ⟨⟨_, _⟩, inner, same⟩ := Option.map_eq_some_iff.1 found
        cases same
        rw [ih inner]
        rfl
      rw [List.cons_append] at split ⊢
      unfold splitName at split ⊢
      dsimp only at split ⊢
      split at split
      · exact later _ _ split
      · exact later _ _ split
      · split at split
        · cases split
        · next within =>
            rw [if_neg within]
            exact later _ _ split
      · cases split
      · cases split
      · exact later _ _ split

/-- A signature is a name with an opening parenthesis, and parameters up to the closing one. -/
theorem exists_parts {behind : List Token}
    (found : read beyond inName tokens = .ok (signature, behind)) :
    ∃ front inside closing, tokens = front ++ ((inside ++ [closing]) ++ behind) ∧
      OpensCall inName front ∧ Token.Balances .round inside ∧
        closing.lexeme = .closing .round := by
  rw [read] at found
  split at found
  · cases found
  · next name call split =>
      obtain ⟨opening, more, rfl, round⟩ := head_of_splitName split
      have whole := eq_of_splitName split
      subst whole
      dsimp only at found
      split at found
      · cases found
      · obtain ⟨enclosed, here, found⟩ := Except.bind_ok_iff.1 found
        obtain ⟨_, _, done⟩ := Except.bind_ok_iff.1 found
        cases done
        have closed := Enclosure.close?_of_read round here
        obtain ⟨inner, closes⟩ := Enclosure.eq_of_close? closed
        refine ⟨name ++ [opening], enclosed.inside, enclosed.close, ?_,
          ⟨name, opening, rfl, splitName_cut split⟩, Token.foldlM_deepen?_of_close? closed, closes⟩
        rw [List.append_assoc, List.append_assoc]
        exact congrArg (fun rest => name ++ opening :: rest) inner

theorem exists_round {behind : List Token}
    (found : read beyond inName tokens = .ok (signature, behind)) :
    ∃ token ∈ tokens, token.lexeme = .opening .round := by
  obtain ⟨front, _, _, rfl, opens, _, _⟩ := exists_parts found
  obtain ⟨token, mem, round⟩ := opens.exists_round (List.suffix_refl front)
  exact ⟨token, List.mem_append_left _ mem, round⟩

/-- A signature is the same whatever stands behind its parenthesis. -/
theorem read_within {left rest behind : List Token} (fits : Token.Fits later left tokens)
    (found : read beyond inName (left ++ rest) = .ok (signature, behind ++ rest)) :
    ∃ behind', read beyond' inName tokens = .ok (signature, behind') ∧
      Token.Fits later behind behind' := by
  obtain ⟨front, inside, closing, whole, opens, balanced, closes⟩ := exists_parts found
  rw [← List.append_assoc, ← List.append_assoc] at whole
  have parts := List.append_cancel_right whole
  rw [List.append_assoc] at parts
  subst parts
  obtain ⟨call, fits, more⟩ := fits.cut
  obtain ⟨behind', listed, after⟩ := more.cut
  obtain ⟨inside', closing', rfl, moved, same⟩ := listed.exists_concat
  have calls : Calls (fun _ next => next = behind') (inside ++ closing :: (behind ++ rest))
      (inside' ++ closing' :: behind') :=
    .intro (Parameter.Defaults.of_moved moved) balanced closes (same.trans closes) rfl
  have start : Token.Fits (inside ++ closing :: (behind ++ rest)) front
      (front ++ (inside ++ closing :: (behind ++ rest))) := Token.Moved.fits rfl _
  rw [List.append_assoc, List.append_assoc, List.append_assoc] at found
  obtain ⟨_, found', rfl⟩ := read_calls calls opens start fits found
  exact ⟨_, found', after⟩

end Signature

/-! ### Ends -/

theorem Token.of_dropSemicolon_eq_nil (none : dropSemicolon tokens = []) :
    tokens = [] ∨ ∃ token, tokens = [token] := by
  cases tokens with
  | nil => exact .inl rfl
  | cons token rest =>
      rw [dropSemicolon] at none
      split at none
      · rw [none]
        exact .inr ⟨token, rfl⟩
      · cases none

namespace Function

variable {beyond beyond' : List Char} {name name' : String} {left : List Token} {last : Token}

theorem ne_nil_of_dropEnding (ended : dropEnding beyond name tokens = .ok left) : tokens ≠ [] := by
  rintro rfl
  rw [dropEnding.eq_def] at ended
  cases ended

/-- A body does not reach over a parenthesis to the last semicolon. -/
theorem dropEnding_curly_ne {opening : Token} (curly : opening.lexeme = .opening .curly)
    (semicolon : last.lexeme = .punctuation .semicolon) (round : Token.EndsInRound tokens) :
    dropEnding beyond name (opening :: (tokens ++ [last])) ≠ .ok [] := by
  intro ended
  rw [dropEnding_curly curly] at ended
  obtain ⟨enclosed, here, left⟩ := Except.map_ok_iff.1 ended
  obtain ⟨whole, closes⟩ := Enclosure.eq_of_close? (Enclosure.close?_of_read curly here)
  obtain none | ⟨final, one⟩ := Token.of_dropSemicolon_eq_nil left
  · rw [none] at whole
    have same := (List.append_inj' whole rfl).2
    rw [← List.head_eq_of_cons_eq same, semicolon] at closes
    cases closes
  · rw [one, List.append_cons enclosed.inside] at whole
    have same := (List.append_inj' whole rfl).1
    rw [same, Token.endsInRound_concat, closes] at round
    cases round

/-- Up to a last parenthesis, what stands behind it decides alone about the end. -/
theorem dropEnding_concat {behind : List Token} (semicolon : last.lexeme = .punctuation .semicolon)
    (round : Token.EndsInRound tokens) (fits : Token.Fits later tokens behind)
    (ended : dropEnding beyond name (tokens ++ [last]) = .ok []) :
    dropEnding beyond' name' behind = dropEnding beyond' name' later := by
  -- Parentheses are passed as a whole, so this goes by the length.
  induction size : tokens.length using Nat.strong_induction_on generalizing tokens behind with
  | _ size ih =>
      subst size
      cases fits with
      | nil => rfl
      | @cons token token' rest rest' lexeme gap fits =>
          have round' : Token.EndsInRound rest := round.of_suffix (List.suffix_cons token rest)
          rw [List.cons_append] at ended
          by_cases isSemicolon : token.lexeme = .punctuation .semicolon
          · rw [dropEnding_semicolon isSemicolon] at ended
            cases List.append_ne_nil_of_right_ne_nil rest (List.cons_ne_nil last [])
              (Except.ok.inj ended)
          · by_cases curly : token.lexeme = .opening .curly
            · exact absurd ended (dropEnding_curly_ne curly semicolon round')
            · by_cases opens : token.lexeme = .opening .round
              · rw [dropEnding_round opens] at ended
                split at ended
                · next enclosed here =>
                    obtain ⟨inside, close, after⟩ := enclosed
                    have whole : rest ++ [last] = inside ++ close :: after :=
                      (Enclosure.eq_of_close? (Enclosure.close?_of_read opens here)).1
                    have behind : after <:+ rest ++ [last] :=
                      ⟨inside ++ [close], by rw [whole, ← List.append_cons]⟩
                    obtain ⟨more, rfl, suffix⟩ :=
                      Token.exists_concat_of_suffix behind (ne_nil_of_dropEnding ended)
                    obtain ⟨_, _, _, here', _, within⟩ :=
                      Enclosure.read_within beyond' (token' :: rest') fits lexeme here
                    rw [dropEnding_round (lexeme.trans opens), here']
                    exact ih more.length (Nat.lt_succ_of_le suffix.length_le)
                      (round'.of_suffix suffix) within ended rfl
                · cases ended
              · rw [dropEnding_other isSemicolon curly opens] at ended
                rw [dropEnding_other (lexeme ▸ isSemicolon) (lexeme ▸ curly) (lexeme ▸ opens)]
                exact ih rest.length (Nat.lt_succ_self _) round' fits ended rfl

/-- What may stand between the parameters of a function and its end: no semicolon and no braces, and
parentheses that match. -/
structure AreQualifiers (tokens : List Token) : Prop where
  plain : ∀ token ∈ tokens, token.lexeme ≠ .punctuation .semicolon ∧
    token.lexeme ≠ .opening .curly ∧ token.lexeme ≠ .closing .curly
  balanced : Token.Balances .round tokens

theorem AreQualifiers.fits (qualifiers : AreQualifiers tokens)
    (fits : Token.Fits [] tokens tokens') : AreQualifiers tokens' := by
  refine ⟨fun token' mem => ?_, (Token.foldlM_deepen?_eq fits.map_lexeme).trans qualifiers.balanced⟩
  have same : token'.lexeme ∈ tokens.map Token.lexeme := by
    rw [← fits.map_lexeme]
    exact List.mem_map_of_mem mem
  obtain ⟨token, mem, lexeme⟩ := List.mem_map.1 same
  rw [← lexeme]
  exact qualifiers.plain token mem

/-- Qualifiers are passed, whatever they are. -/
theorem AreQualifiers.dropEnding (qualifiers : AreQualifiers tokens) :
    Function.dropEnding beyond name (tokens ++ later) = Function.dropEnding beyond name later := by
  induction size : tokens.length using Nat.strong_induction_on generalizing tokens with
  | _ size ih =>
      subst size
      obtain ⟨plain, balanced⟩ := qualifiers
      cases tokens with
      | nil => rfl
      | cons token rest =>
          obtain ⟨semicolon, curly, _⟩ := plain token List.mem_cons_self
          rw [Token.Balances, List.foldlM_cons] at balanced
          by_cases opens : token.lexeme = .opening .round
          · rw [Token.deepen?_of_opening opens] at balanced
            obtain ⟨inside, closing, after, rfl, inner, closes, outer⟩ :=
              Token.exists_close_of_deepen? balanced
            have behind : AreQualifiers after :=
              ⟨fun token mem => plain token (by simp [mem]), outer⟩
            rw [List.cons_append, List.append_assoc, List.cons_append,
              dropEnding_parentheses opens inner closes]
            refine ih after.length ?_ behind rfl
            rw [List.length_cons, List.length_append, List.length_cons]
            omega
          · by_cases closes : token.lexeme = .closing .round
            · rw [Token.deepen?, if_neg opens, if_pos closes] at balanced
              cases balanced
            · rw [Token.deepen?_of_other opens closes] at balanced
              rw [List.cons_append, dropEnding_other semicolon curly opens]
              exact ih rest.length (Nat.lt_succ_self _)
                ⟨fun token mem => plain token (List.mem_cons_of_mem _ mem), balanced⟩ rfl

/-- The end of a function: a semicolon, or a body with or without one. -/
inductive IsEnding : List Token → Prop
  | semicolon {token : Token} : token.lexeme = .punctuation .semicolon → IsEnding [token]
  | body {opening closing : Token} {inside optional : List Token} :
      opening.lexeme = .opening .curly → Token.Balances .curly inside →
      closing.lexeme = .closing .curly →
      optional = [] ∨ (∃ token, optional = [token] ∧ token.lexeme = .punctuation .semicolon) →
      IsEnding (opening :: (inside ++ closing :: optional))

theorem IsEnding.fits (ending : IsEnding tokens) (fits : Token.Fits [] tokens tokens') :
    IsEnding tokens' := by
  cases ending with
  | semicolon semicolon =>
      obtain _ | ⟨lexeme, _, _ | _⟩ := fits
      exact .semicolon (lexeme.trans semicolon)
  | body opens balanced closes optional =>
      obtain _ | ⟨lexeme, _, behind⟩ := fits
      obtain ⟨inside', _, rfl, inner, _ | ⟨lexeme', _, outer⟩⟩ := behind.exists_split
      have balanced' : Token.Balances .curly inside' :=
        (Token.foldlM_deepen?_eq inner.map_lexeme).trans balanced
      refine .body (lexeme.trans opens) balanced' (lexeme'.trans closes) ?_
      obtain rfl | ⟨token, rfl, semicolon⟩ := optional
      · cases outer
        exact .inl rfl
      · obtain _ | ⟨lexeme'', _, _ | _⟩ := outer
        exact .inr ⟨_, rfl, lexeme''.trans semicolon⟩

/-- A function leaves what stands behind its end. -/
theorem IsEnding.dropEnding (ending : IsEnding tokens)
    (noSemicolon : ∀ token ∈ later.head?, token.lexeme.isSemicolon = false) :
    Function.dropEnding beyond name (tokens ++ later) = .ok later := by
  cases ending with
  | semicolon semicolon => exact dropEnding_semicolon semicolon
  | body opens balanced closes optional =>
      rw [List.cons_append, List.append_assoc, List.cons_append,
        dropEnding_braces opens balanced closes]
      obtain rfl | ⟨token, rfl, semicolon⟩ := optional
      · rw [List.nil_append, Token.dropSemicolon_of_other noSemicolon]
      · rw [List.singleton_append, Token.dropSemicolon]
        exact congrArg Except.ok (if_pos (by simp [semicolon, Lexeme.isSemicolon]))

end Function

/-! ### Items up to a parenthesis -/

theorem Token.sourceOf?_eq_none_iff : sourceOf? tokens = none ↔ tokens = [] := by
  rw [sourceOf?]
  cases tokens <;> simp

theorem Kind.isCallable_concat_semicolon {braces angles : Nat} {inName : Bool} {last : Token}
    (semicolon : last.lexeme = .punctuation .semicolon)
    (callable : isCallable braces angles inName (tokens ++ [last])) :
    isCallable braces angles inName tokens := by
  induction tokens generalizing braces angles inName with
  | nil =>
      rw [List.nil_append, isCallable, semicolon] at callable
      dsimp only at callable
      split at callable <;> cases callable
  | cons token rest ih =>
      rw [List.cons_append] at callable
      unfold isCallable at callable ⊢
      dsimp only at callable ⊢
      split at callable
      · exact ih callable
      · exact ih callable
      · exact ih callable
      · exact ih callable
      · split at callable
        · cases callable
        · next further =>
            rw [if_neg further]
            exact ih callable
      · split at callable
        · next outermost => rw [if_pos outermost]
        · next within =>
            rw [if_neg within]
            exact ih callable
      · split at callable
        · cases callable
        · next within =>
            rw [if_neg within]
            exact ih callable
      · exact ih callable

theorem Kind.ofTokens_concat_semicolon {owner : Option String} {inName : Bool} {kind : Kind}
    {last : Token} (semicolon : last.lexeme = .punctuation .semicolon)
    (opens : ∃ token ∈ tokens, token.lexeme = .opening .round)
    (decided : ofTokens owner inName (tokens ++ [last]) = kind) (other : kind ≠ .variableList) :
    ofTokens owner inName tokens = kind := by
  have fits : Token.Fits [last] tokens (tokens ++ [last]) := Token.Moved.fits rfl _
  have named : (owner.bind fun owner => ofOwner? owner (tokens ++ [last])) =
      owner.bind fun owner => ofOwner? owner tokens := by
    cases owner with
    | none => rfl
    | some owner => exact ofOwner?_fits fits opens
  have keyword : ofKeyword? (tokens ++ [last]) = ofKeyword? tokens := by
    cases tokens with
    | nil => simp at opens
    | cons => rfl
  rw [ofTokens, named, keyword] at decided
  rw [ofTokens]
  split at decided
  · exact decided
  · split at decided
    · exact decided
    · split at decided
      · next callable =>
          rw [if_pos (isCallable_concat_semicolon semicolon callable)]
          exact decided
      · exact absurd decided.symm other

theorem Item.kind?_concat_semicolon {owner : Option String} {inName : Bool} {kind : Kind}
    {last : Token} (semicolon : last.lexeme = .punctuation .semicolon)
    (opens : ∃ token ∈ tokens, token.lexeme = .opening .round)
    (starts : kind? owner inName (tokens ++ [last]) = some kind) (other : kind ≠ .variableList) :
    kind? owner inName tokens = some kind := by
  obtain ⟨token, rest, whole, noSemicolon, decided⟩ := kind?_eq_some_iff.1 starts
  rw [← whole] at decided
  have decided := Kind.ofTokens_concat_semicolon semicolon opens decided other
  cases tokens with
  | nil => simp at opens
  | cons first more =>
      obtain ⟨rfl, _⟩ := List.cons.inj whole
      exact kind?_eq_some_iff.2 ⟨first, more, rfl, noSemicolon, decided⟩

namespace Function

variable {scope : Scope} {inName : Bool} {outcome : Outcome} {front left rest : List Token}
  {last : Token}

theorem readDestructor_ok_iff : readDestructor scope tokens = .ok (outcome, rest) ↔
    ∃ tilde more signature behind, Token.dropFunctionSpecifiers tokens = tilde :: more ∧
      tilde.lexeme = .punctuation .tilde ∧
      Signature.read scope.beyond false more = .ok (signature, behind) ∧
      dropEnding scope.beyond ("~" ++ signature.name) behind = .ok rest ∧ outcome = .passed [] := by
  rw [readDestructor]
  constructor
  · intro found
    split at found
    · cases found
    · next tilde more start =>
        split at found
        · next isTilde =>
            obtain ⟨⟨signature, behind⟩, named, found⟩ := Except.bind_ok_iff.1 found
            obtain ⟨after, ended, done⟩ := Except.bind_ok_iff.1 found
            cases done
            exact ⟨tilde, more, signature, behind, start, isTilde, named, ended, rfl⟩
        · cases found
  · rintro ⟨tilde, more, signature, behind, start, isTilde, named, ended, rfl⟩
    rw [start]
    dsimp only
    rw [if_pos isTilde]
    exact Except.bind_ok_iff.2 ⟨_, named, Except.bind_ok_iff.2 ⟨_, ended, rfl⟩⟩

/-- A signature up to the last parenthesis, and any end behind it. -/
theorem readSignature_ended {name : String} {behind : List Token} {signature : Signature}
    (semicolon : last.lexeme = .punctuation .semicolon) (round : Token.EndsInRound front)
    (fits : Token.Fits later front tokens)
    (ends : ∀ name, dropEnding scope.beyond name later = .ok left)
    (named : Signature.read scope.beyond inName (front ++ [last]) = .ok (signature, behind))
    (ended : dropEnding scope.beyond name behind = .ok []) :
    ∃ behind', Signature.read scope.beyond inName tokens = .ok (signature, behind') ∧
      dropEnding scope.beyond name behind' = .ok left := by
  have suffix := Signature.endsIn_read scope.beyond inName (front ++ [last])
  rw [named] at suffix
  obtain ⟨more, rfl, within⟩ := Token.exists_concat_of_suffix suffix (ne_nil_of_dropEnding ended)
  obtain ⟨behind', named', fits'⟩ :=
    @Signature.read_within _ _ _ scope.beyond _ _ _ _ _ fits named
  refine ⟨behind', named', ?_⟩
  rw [dropEnding_concat semicolon (round.of_suffix within) fits' ended, ends]

theorem read_ended (semicolon : last.lexeme = .punctuation .semicolon)
    (round : Token.EndsInRound front) (fits : Token.Fits later front tokens)
    (ends : ∀ name, dropEnding scope.beyond name later = .ok left)
    (found : read scope inName (front ++ [last]) = .ok (outcome, [])) :
    read scope inName tokens = .ok (outcome, left) := by
  obtain ⟨type, call, signature, behind, typed, named, ended, rfl⟩ := read_ok_iff.1 found
  have suffix := CType.endsIn_read scope.beyond (front ++ [last])
  rw [typed] at suffix
  obtain ⟨_, mem, _⟩ := Signature.exists_round named
  obtain ⟨call, rfl, within⟩ := Token.exists_concat_of_suffix suffix (List.ne_nil_of_mem mem)
  have stops : Token.Stops call := by
    refine (round.of_suffix within).stops ?_
    rintro rfl
    obtain ⟨_, mem, opens⟩ := Signature.exists_round named
    rw [List.nil_append, List.mem_singleton] at mem
    rw [mem, semicolon] at opens
    cases opens
  obtain ⟨call', typed', behind'⟩ :=
    @CType.read_within _ _ _ _ _ _ scope.beyond _ fits stops typed
  have passed := fits.before behind' within
  rw [Token.before_append, ← passed.namesOperator] at named
  obtain ⟨_, named', ended'⟩ :=
    readSignature_ended semicolon (round.of_suffix within) behind' ends named ended
  exact read_ok_iff.2 ⟨type, call', signature, _, typed', named', ended', rfl⟩

theorem dropFunctionSpecifiers_concat (round : Token.EndsInRound front) (some : front ≠ []) :
    Token.dropFunctionSpecifiers (front ++ [last]) = Token.dropFunctionSpecifiers front ++ [last] ∧
      Token.dropFunctionSpecifiers front ≠ [] := by
  obtain ⟨more, closing, rfl, closes⟩ := round.exists_last some
  have kept : Token.dropFunctionSpecifiers (more ++ [closing]) ≠ [] := by
    intro none
    have specifier := List.dropWhile_eq_nil_iff.1 none closing (by simp)
    rw [closes] at specifier
    cases specifier
  refine ⟨?_, kept⟩
  rw [Token.dropFunctionSpecifiers, List.dropWhile_append, if_neg]
  · rfl
  · exact mt List.isEmpty_iff.1 kept

theorem readConstructor_ended (semicolon : last.lexeme = .punctuation .semicolon)
    (round : Token.EndsInRound front) (some : front ≠ []) (fits : Token.Fits later front tokens)
    (ends : ∀ name, dropEnding scope.beyond name later = .ok left)
    (found : readConstructor scope (front ++ [last]) = .ok (outcome, [])) :
    readConstructor scope tokens = .ok (outcome, left) := by
  obtain ⟨signature, behind, named, same, ended, rfl⟩ := readConstructor_ok_iff.1 found
  obtain ⟨dropped, kept⟩ := @dropFunctionSpecifiers_concat _ last round some
  rw [dropped] at named
  have start := dropFunctionSpecifiers_suffix front
  obtain ⟨_, named', ended'⟩ := readSignature_ended semicolon (round.of_suffix start)
    (Token.dropFunctionSpecifiers_fits fits kept) ends named ended
  exact readConstructor_ok_iff.2 ⟨signature, _, named', same, ended', rfl⟩

theorem readDestructor_ended (semicolon : last.lexeme = .punctuation .semicolon)
    (round : Token.EndsInRound front) (some : front ≠ []) (fits : Token.Fits later front tokens)
    (ends : ∀ name, dropEnding scope.beyond name later = .ok left)
    (found : readDestructor scope (front ++ [last]) = .ok (outcome, [])) :
    readDestructor scope tokens = .ok (outcome, left) := by
  obtain ⟨tilde, more, signature, behind, start, isTilde, named, ended, rfl⟩ :=
    readDestructor_ok_iff.1 found
  obtain ⟨dropped, kept⟩ := @dropFunctionSpecifiers_concat _ last round some
  have fits := Token.dropFunctionSpecifiers_fits fits kept
  have suffix := dropFunctionSpecifiers_suffix front
  rw [dropped] at start
  generalize Token.dropFunctionSpecifiers front = run at start kept fits suffix
  generalize begins : Token.dropFunctionSpecifiers tokens = run' at fits
  cases fits with
  | nil => exact absurd rfl kept
  | @cons token token' rest rest' lexeme gap behind =>
      obtain ⟨rfl, rfl⟩ := List.cons.inj start
      have within := (List.suffix_cons token rest).trans suffix
      obtain ⟨_, named', ended'⟩ := readSignature_ended semicolon (round.of_suffix within) behind
        ends named ended
      exact readDestructor_ok_iff.2
        ⟨token', rest', signature, _, begins, lexeme.trans isTilde, named', ended', rfl⟩

end Function

/-- Whether items of a kind have parameters. -/
def Kind.hasParameters : Kind → Bool
  | function | constructor | destructor => true
  | _ => false

theorem Kind.isPlain_of_hasParameters {kind : Kind} (has : kind.hasParameters) : kind.isPlain := by
  cases kind <;> first | rfl | cases has

namespace Item

variable {scope : Scope} {inName : Bool} {kind : Kind} {outcome : Outcome}
  {front left rest : List Token} {last : Token}

theorem exists_round_of_readPlain (has : kind.hasParameters)
    (found : readPlain scope inName kind tokens = .ok (outcome, rest)) :
    ∃ token ∈ tokens, token.lexeme = .opening .round := by
  have within : ∀ {more : List Token}, more <:+ tokens →
      (∃ token ∈ more, token.lexeme = .opening .round) →
      ∃ token ∈ tokens, token.lexeme = .opening .round := by
    rintro more suffix ⟨token, mem, round⟩
    exact ⟨token, suffix.subset mem, round⟩
  have specifiers := Function.dropFunctionSpecifiers_suffix tokens
  cases kind with
  | function =>
      obtain ⟨_, _, _, _, typed, named, _, _⟩ := Function.read_ok_iff.1 found
      have suffix := CType.endsIn_read scope.beyond tokens
      rw [typed] at suffix
      exact within suffix (Signature.exists_round named)
  | constructor =>
      obtain ⟨_, _, named, _, _, _⟩ := Function.readConstructor_ok_iff.1 found
      exact within specifiers (Signature.exists_round named)
  | destructor =>
      obtain ⟨_, _, _, _, start, _, named, _, _⟩ := Function.readDestructor_ok_iff.1 found
      rw [start] at specifiers
      exact within ((List.suffix_cons _ _).trans specifiers) (Signature.exists_round named)
  | _ => cases has

theorem readPlain_ended (has : kind.hasParameters)
    (semicolon : last.lexeme = .punctuation .semicolon) (round : Token.EndsInRound front)
    (some : front ≠ []) (fits : Token.Fits later front tokens)
    (ends : ∀ name, Function.dropEnding scope.beyond name later = .ok left)
    (found : readPlain scope inName kind (front ++ [last]) = .ok (outcome, [])) :
    readPlain scope inName kind tokens = .ok (outcome, left) := by
  cases kind with
  | function => exact Function.read_ended semicolon round fits ends found
  | constructor => exact Function.readConstructor_ended semicolon round some fits ends found
  | destructor => exact Function.readDestructor_ended semicolon round some fits ends found
  | _ => cases has

/-- An item up to its last parenthesis tells the same with a semicolon behind it as with any end. -/
theorem answer_ended {declaration? : Option Declaration} {omissions : List Omission}
    (has : kind.hasParameters) (starts : kind? scope.owner inName (front ++ [last]) = some kind)
    (semicolon : last.lexeme = .punctuation .semicolon) (round : Token.EndsInRound front)
    (fits : Token.Fits later front tokens)
    (ends : ∀ name, Function.dropEnding scope.beyond name later = .ok left)
    (told : answer scope inName (front ++ [last]) = .ok ⟨declaration?, omissions, none⟩) :
    answer scope inName tokens = .ok ⟨declaration?, omissions, Token.sourceOf? left⟩ := by
  have isPlain := Kind.isPlain_of_hasParameters has
  obtain ⟨outcome, rest, found, same⟩ := (answer_eq_ok_iff_of_isPlain starts isPlain).1 told
  obtain ⟨rfl, rfl, nothing⟩ := Answer.mk.inj same
  have none := Token.sourceOf?_eq_none_iff.1 nothing.symm
  subst none
  obtain ⟨token, mem, opens⟩ := exists_round_of_readPlain has found
  have mem : token ∈ front := by
    obtain mem | mem := List.mem_append.1 mem
    · exact mem
    · rw [List.mem_singleton.1 mem, semicolon] at opens
      cases opens
  have other : kind ≠ .variableList := by
    rintro rfl
    cases has
  -- The kind is decided in front of the end.
  have cut := kind?_concat_semicolon semicolon ⟨token, mem, opens⟩ starts other
  have starts' := kind?_fits fits ⟨token, mem, opens⟩ cut other
  have found' := readPlain_ended has semicolon round (List.ne_nil_of_mem mem) fits ends found
  exact (answer_eq_ok_iff_of_isPlain starts' isPlain).2 ⟨outcome, left, found', rfl⟩

/-- The same with wrappers in front of the item. -/
theorem answer_wrapped_ended {wrappers inner whole all : List Token} {closing : Token}
    {declaration? : Option Declaration} {omissions : List Omission} (wraps : Wraps wrappers)
    (has : kind.hasParameters) (starts : kind? scope.owner false inner = some kind)
    (round : closing.lexeme = .closing .round) (semicolon : last.lexeme = .punctuation .semicolon)
    (fitsWhole : Token.Fits [last] (front ++ [closing]) whole) (split : whole = wrappers ++ inner)
    (fitsAll : Token.Fits later (front ++ [closing]) all)
    (ends : ∀ name, Function.dropEnding scope.beyond name later = .ok left)
    (told : answer scope false whole = .ok ⟨declaration?, omissions, none⟩) :
    answer scope false all = .ok ⟨declaration?, omissions, Token.sourceOf? left⟩ := by
  obtain ⟨start, closing', rfl, _, same⟩ := fitsWhole.exists_concat
  obtain ⟨whole, append, fits⟩ := fitsWhole.exists_append
  rw [List.append_cons] at append
  have append := List.append_cancel_right append
  subst append
  have some : inner ≠ [] := by
    rintro rfl
    cases starts
  rw [List.append_cons] at split
  obtain ⟨item, rfl, _⟩ := Token.exists_concat_of_suffix ⟨wrappers, split.symm⟩ some
  rw [← List.append_assoc] at split
  have parts := List.append_cancel_right split
  have isRound : Token.EndsInRound item := by
    have whole : Token.EndsInRound (start ++ [closing']) :=
      Token.endsInRound_concat.2 (same.trans round)
    exact whole.of_suffix ⟨wrappers, parts.symm⟩
  rw [List.append_cons, split, List.append_assoc, answer_wraps wraps] at told
  have fits := fits.of_fits fitsAll
  rw [parts] at fits
  obtain ⟨behind, fitsWrappers, fitsItem⟩ := fits.cut
  obtain ⟨wrappers', rfl, alike⟩ := fitsWrappers.exists_append
  rw [answer_wraps (wraps.fits alike)]
  exact answer_ended has starts semicolon isRound fitsItem ends told

end Item

theorem Function.dropEnding_tail {beyond : List Char} {name : String}
    {qualifiers ending tail rest rest' : List Token} (areQualifiers : AreQualifiers qualifiers)
    (isEnding : IsEnding ending) (fits : Token.Fits rest' (qualifiers ++ ending) tail)
    (moved : Token.Moved rest rest')
    (noSemicolon : ∀ token ∈ rest.head?, token.lexeme.isSemicolon = false) :
    dropEnding beyond name tail = .ok rest' := by
  obtain ⟨behind, first, second⟩ := fits.cut
  obtain ⟨qualifiers', rfl, alike⟩ := first.exists_append
  obtain ⟨ending', rfl, alike'⟩ := second.exists_append
  rw [(areQualifiers.fits alike).dropEnding]
  refine (isEnding.fits alike').dropEnding fun token mem => ?_
  cases rest' with
  | nil => cases mem
  | cons next more =>
      cases mem
      obtain ⟨first, _, rfl, _, _⟩ := List.map_eq_cons_iff.1 moved.symm
      rw [(Token.Moved.cons_iff.1 moved).1.1]
      exact noSemicolon first rfl

namespace Parser

variable {owner : Option String} {text tail rest : List Char}
  {lexed whole lexedTail lexedRest : Lexed}
  {front wrappers inner qualifiers ending : List Token} {closing : Token} {kind : Kind}
  {declaration? : Option Declaration} {omissions : List Omission}

/-- A function, constructor or destructor up to its last parenthesis tells the same with a semicolon
behind it as with any qualifiers and any end, and it leaves what stands behind them. -/
theorem answer_qualified (lexes : Lexed.ofText text = .ok lexed)
    (closes : lexed.tokens = front ++ [closing]) (round : closing.lexeme = .closing .round)
    (bare : closing.gap = []) (lexesWhole : Lexed.ofText (text ++ [';']) = .ok whole)
    (split : whole.tokens = wrappers ++ inner) (wraps : Item.Wraps wrappers)
    (starts : Item.kind? owner false inner = some kind) (has : kind.hasParameters)
    (told : answer owner (text ++ [';']) = .ok ⟨declaration?, omissions, none⟩)
    (lexesTail : Lexed.ofText tail = .ok lexedTail)
    (splitTail : lexedTail.tokens = qualifiers ++ ending)
    (bareTail : Token.endsBare lexedTail.tokens)
    (areQualifiers : Function.AreQualifiers qualifiers) (isEnding : Function.IsEnding ending)
    (lexesRest : Lexed.ofText rest = .ok lexedRest)
    (noSemicolon : ∀ token ∈ lexedRest.tokens.head?, token.lexeme.isSemicolon = false) :
    answer owner (text ++ ' ' :: (tail ++ ' ' :: rest)) =
      .ok ⟨declaration?, omissions, Token.sourceOf? lexedRest.tokens⟩ := by
  have bareText : Token.endsBare lexed.tokens := by
    rw [closes]
    exact Token.endsBare_concat bare
  obtain ⟨_, semicolon, lexesWhole', fitsWhole, isSemicolon⟩ :=
    Lexed.ofText_append_semicolon lexes bareText
  cases lexesWhole'.symm.trans lexesWhole
  obtain ⟨_, _, lexesBehind, fitsTail, movedRest⟩ :=
    Lexed.ofText_append_blank lexesTail bareTail lexesRest
  obtain ⟨_, behind, lexesAll, fitsText, movedBehind⟩ :=
    Lexed.ofText_append_blank lexes bareText lexesBehind
  obtain ⟨left, fitsBehind, movedLeft⟩ := fitsTail.exists_moved movedBehind
  have moved : Token.Moved lexedRest.tokens left := movedLeft.trans movedRest
  rw [splitTail] at fitsBehind
  rw [closes] at fitsWhole fitsText
  rw [answer_of_ofText lexesWhole] at told
  have owned : (Scope.ofOwner owner).owner = owner := by
    cases owner <;> rfl
  rw [← owned] at starts
  rw [answer_of_ofText lexesAll, ← moved.sourceOf?_eq]
  have ends : ∀ name, Function.dropEnding (Scope.ofOwner owner).beyond name behind = .ok left :=
    fun name => Function.dropEnding_tail areQualifiers isEnding fitsBehind moved noSemicolon
  exact Item.answer_wrapped_ended wraps has starts round isSemicolon fitsWhole split fitsText ends
    told

theorem answer_two_initializers :
    answer (some "P") "P(int a)  : x(a), y((2)) { if (a) { ; } }; int z;".toList =
      .ok ⟨some (.ofFunction ⟨.constructor, "P", [⟨⟨.int, []⟩, "a"⟩], true⟩), [],
        some "int z;".toList⟩ := by
  let front : List Token := [⟨.identifier "P", 0, []⟩, ⟨.opening .round, 1, []⟩,
    ⟨.keyword .int, 2, [' ']⟩, ⟨.identifier "a", 6, []⟩]
  let closing : Token := ⟨.closing .round, 7, []⟩
  let inner : List Token := front ++ [closing, ⟨.punctuation .semicolon, 8, []⟩]
  let qualifiers : List Token := [⟨.punctuation .colon, 1, [' ']⟩, ⟨.identifier "x", 3, []⟩,
    ⟨.opening .round, 4, []⟩, ⟨.identifier "a", 5, []⟩, ⟨.closing .round, 6, []⟩,
    ⟨.punctuation .comma, 7, [' ']⟩, ⟨.identifier "y", 9, []⟩, ⟨.opening .round, 10, []⟩,
    ⟨.opening .round, 11, []⟩, ⟨.number "2", 12, []⟩, ⟨.closing .round, 13, []⟩,
    ⟨.closing .round, 14, [' ']⟩]
  let body : List Token := [⟨.identifier "if", 18, [' ']⟩, ⟨.opening .round, 21, []⟩,
    ⟨.identifier "a", 22, []⟩, ⟨.closing .round, 23, [' ']⟩, ⟨.opening .curly, 25, [' ']⟩,
    ⟨.punctuation .semicolon, 27, [' ']⟩, ⟨.closing .curly, 29, [' ']⟩]
  let semicolon : Token := ⟨.punctuation .semicolon, 32, []⟩
  let ending : List Token :=
    ⟨.opening .curly, 16, [' ']⟩ :: (body ++ ⟨.closing .curly, 31, []⟩ :: [semicolon])
  let rest : List Token := [⟨.keyword .int, 0, [' ']⟩, ⟨.identifier "z", 4, []⟩,
    ⟨.punctuation .semicolon, 5, []⟩]
  have lexes : Lexed.ofText "P(int a)".toList = .ok ⟨[], front ++ [closing]⟩ := by cbv
  have lexesWhole : Lexed.ofText ("P(int a)".toList ++ [';']) = .ok ⟨[], inner⟩ := by cbv
  have lexesTail : Lexed.ofText " : x(a), y((2)) { if (a) { ; } };".toList =
      .ok ⟨[' '], qualifiers ++ ending⟩ := by cbv
  have lexesRest : Lexed.ofText "int z;".toList = .ok ⟨[], rest⟩ := by cbv
  have areQualifiers : Function.AreQualifiers qualifiers := ⟨by decide, by decide⟩
  have balanced : Token.Balances .curly body := by decide
  have isEnding : Function.IsEnding ending := .body rfl balanced rfl (.inr ⟨semicolon, rfl, rfl⟩)
  let signature : Signature := ⟨"P", [⟨⟨.int, []⟩, "a"⟩], false⟩
  let scope : Scope := .ofOwner (some "P")
  have named : Signature.read [] false inner = .ok (signature, inner.drop 5) := by rfl
  have ends : Function.dropEnding [] "P" (inner.drop 5) = .ok [] :=
    Function.dropEnding_semicolon rfl
  have found : Item.readPlain scope false .constructor inner =
      .ok (signature.outcome scope .constructor, []) :=
    Function.readConstructor_ok_iff.2 ⟨signature, _, named, rfl, ends, rfl⟩
  have starts : Item.kind? (some "P") false inner = some .constructor := by rfl
  have told : answer (some "P") ("P(int a)".toList ++ [';']) =
      .ok ⟨(signature.outcome scope .constructor).declaration?, [], none⟩ := by
    rw [answer_of_ofText lexesWhole]
    exact (Item.answer_eq_ok_iff_of_isPlain starts rfl).2 ⟨_, _, found, rfl⟩
  have split : inner = [] ++ inner := rfl
  exact answer_qualified lexes rfl rfl rfl lexesWhole split .nil starts rfl told lexesTail rfl rfl
    areQualifiers isEnding lexesRest (by decide)

end Parser

end PxdStub
