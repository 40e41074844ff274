import PxdStub.Proofs.Derivation

/-!
Reading is local. Readers give the same on tokens with more tokens behind them, as long as the tokens
close their brackets and end in a semicolon: no look-ahead and no scan goes on behind it.
-/

namespace PxdStub

namespace Token

/-- The brackets that stay open when one is closed. -/
def shut? (bracket : Bracket) : List Bracket → Option (List Bracket)
  | [] => none
  | inner :: outer => if inner = bracket then some outer else none

theorem shut?_eq_some_iff {bracket : Bracket} {stack outer : List Bracket} :
    shut? bracket stack = some outer ↔ stack = bracket :: outer := by
  cases stack with
  | nil => simp [shut?]
  | cons inner rest =>
      rw [shut?]
      split
      · next same => simp [same]
      · next other => simp [other]

/-- The brackets that are open behind a token, the innermost first, when those in `stack` are open in
front of it; `none` when the token closes another one. Angle brackets do not count. -/
def openBehind? (stack : List Bracket) (token : Token) : Option (List Bracket) :=
  match token.lexeme with
  | .opening .angle | .closing .angle => some stack
  | .opening bracket => some (bracket :: stack)
  | .closing bracket => shut? bracket stack
  | _ => some stack

/-- Whether tokens close the brackets in `stack` and all that they open. -/
def closes (stack : List Bracket) : List Token → Bool
  | [] => stack.isEmpty
  | token :: rest =>
      match openBehind? stack token with
      | some stack => closes stack rest
      | none => false

theorem closes_cons {stack : List Bracket} {token : Token} {rest : List Token} :
    closes stack (token :: rest) ↔
      ∃ stack', openBehind? stack token = some stack' ∧ closes stack' rest := by
  rw [closes]
  cases openBehind? stack token <;> simp

/-- A count of open brackets that starts below the open ones stays below them. -/
theorem nesting_le {stack stack' : List Bracket} {token : Token} {depth : Nat}
    (opened : openBehind? stack token = some stack') (bound : depth ≤ stack.length) :
    nesting depth token ≤ stack'.length := by
  unfold openBehind? at opened
  unfold nesting
  cases lexeme : token.lexeme with
  | opening bracket =>
      rw [lexeme] at opened
      cases bracket with
      | angle =>
          cases opened
          exact bound
      | round | square | curly =>
          cases opened
          exact Nat.succ_le_succ bound
  | closing bracket =>
      rw [lexeme] at opened
      cases bracket with
      | angle =>
          cases opened
          exact bound
      | round | square | curly =>
          rw [shut?_eq_some_iff.1 opened, List.length_cons] at bound
          dsimp only
          omega
  | _ =>
      rw [lexeme] at opened
      cases opened
      exact bound

/-- The second tokens are the first ones with `later` behind them: they may start elsewhere, and the
last gap may be another. -/
inductive Fits (later : List Token) : List Token → List Token → Prop
  | nil : Fits later [] later
  | cons {token token' rest rest'} : token'.lexeme = token.lexeme →
      (rest ≠ [] → token'.gap = token.gap) → Fits later rest rest' →
      Fits later (token :: rest) (token' :: rest')

def endsInSemicolon (tokens : List Token) : Bool :=
  tokens.getLast?.any fun last => last.lexeme.isSemicolon

/-- Tokens with nothing behind them, or behind which no reader goes on. -/
def Sealed (later tokens : List Token) : Prop :=
  later = [] ∨ (∃ stack, closes stack tokens) ∧ endsInSemicolon tokens

theorem closes_suffix {stack : List Bracket} {front rest : List Token}
    (closed : closes stack (front ++ rest)) : ∃ stack, closes stack rest := by
  induction front generalizing stack with
  | nil => exact ⟨stack, closed⟩
  | cons token front ih =>
      obtain ⟨_, _, behind⟩ := closes_cons.1 closed
      exact ih behind

theorem endsInSemicolon_append {front rest : List Token} (some : rest ≠ []) :
    endsInSemicolon (front ++ rest) = endsInSemicolon rest := by
  rw [endsInSemicolon, endsInSemicolon, List.getLast?_append, List.getLast?_eq_some_getLast some,
    Option.some_or]

theorem endsInSemicolon_cons {token : Token} {rest : List Token}
    (ends : endsInSemicolon (token :: rest)) :
    rest = [] ∧ token.lexeme.isSemicolon ∨ endsInSemicolon rest := by
  by_cases last : rest = []
  · rw [last] at ends
    exact Or.inl ⟨last, ends⟩
  · rw [← List.singleton_append, endsInSemicolon_append last] at ends
    exact Or.inr ends

/-- Nothing is open in front of the last semicolon. -/
theorem eq_nil_of_closes_semicolon {stack : List Bracket} {token : Token}
    (closed : closes stack [token]) (semicolon : token.lexeme.isSemicolon) : stack = [] := by
  simp only [Lexeme.isSemicolon, decide_eq_true_eq] at semicolon
  obtain ⟨stack', opened, closed'⟩ := closes_cons.1 closed
  rw [openBehind?, semicolon] at opened
  cases opened
  exact List.isEmpty_iff.1 closed'

namespace Fits

variable {later tokens tokens' : List Token}

theorem length (fits : Fits later tokens tokens') :
    tokens'.length = tokens.length + later.length := by
  induction fits with
  | nil => simp
  | cons _ _ _ ih =>
      simp only [List.length_cons, ih]
      omega

theorem drop (fits : Fits later tokens tokens') {count : Nat} (bound : count ≤ tokens.length) :
    Fits later (tokens.drop count) (tokens'.drop count) := by
  induction fits generalizing count with
  | nil =>
      have none : count = 0 := by simpa using bound
      rw [none]
      exact .nil
  | cons lexeme gap rest ih =>
      cases count with
      | zero => exact .cons lexeme gap rest
      | succ count =>
          simp only [List.length_cons] at bound
          exact ih (by omega)

theorem take (fits : Fits later tokens tokens') {count : Nat} (bound : count ≤ tokens.length) :
    Fits [] (tokens.take count) (tokens'.take count) := by
  induction fits generalizing count with
  | nil =>
      have none : count = 0 := by simpa using bound
      rw [none]
      exact .nil
  | cons lexeme gap rest ih =>
      cases count with
      | zero => exact .nil
      | succ count =>
          simp only [List.length_cons] at bound
          refine .cons lexeme (fun some => gap ?_) (ih (by omega))
          intro none
          rw [none] at some
          simp at some

/-- The tokens in front of a suffix are the same. -/
theorem before {rest rest' : List Token} (fits : Fits later tokens tokens')
    (behind : Fits later rest rest') (suffix : rest <:+ tokens) :
    Fits [] (before tokens rest) (Token.before tokens' rest') := by
  have size := fits.length
  have size' := behind.length
  have shorter := suffix.length_le
  have same : tokens'.length - rest'.length = tokens.length - rest.length := by omega
  rw [Token.before, Token.before, same]
  exact fits.take (by omega)

theorem isEmpty (fits : Fits [] tokens tokens') : tokens'.isEmpty = tokens.isEmpty := by
  cases fits <;> rfl

theorem map_lexeme (fits : Fits [] tokens tokens') :
    tokens'.map Token.lexeme = tokens.map Token.lexeme := by
  induction fits with
  | nil => rfl
  | cons lexeme _ _ ih => rw [List.map_cons, List.map_cons, lexeme, ih]

theorem textOf (fits : Fits [] tokens tokens') : textOf tokens' = Token.textOf tokens := by
  induction fits with
  | nil => rfl
  | @cons token token' rest rest' lexeme gap behind ih =>
      cases behind with
      | nil => exact congrArg Lexeme.spelling lexeme
      | @cons next next' more more' _ _ _ =>
          change token'.lexeme.spelling ++ token'.gap ++ Token.textOf (next' :: more') =
            token.lexeme.spelling ++ token.gap ++ Token.textOf (next :: more)
          rw [lexeme, gap (List.cons_ne_nil _ _), ih]

theorem nameOf (fits : Fits [] tokens tokens') : nameOf tokens' = Token.nameOf tokens :=
  congrArg String.ofList fits.textOf

theorem namesOperator (fits : Fits [] tokens tokens') (inName : Bool) :
    namesOperator inName tokens' = Token.namesOperator inName tokens := by
  induction fits generalizing inName with
  | nil => rfl
  | @cons token token' rest rest' lexeme _ _ ih =>
      change Token.namesOperator (token'.lexeme.namesOperator inName) rest' =
        Token.namesOperator (token.lexeme.namesOperator inName) rest
      rw [lexeme]
      exact ih _

end Fits

namespace Sealed

variable {later tokens : List Token}

theorem of_nil (sealed : Sealed later []) : later = [] := by
  obtain none | ⟨_, ends⟩ := sealed
  · exact none
  · cases ends

theorem suffix {rest : List Token} (sealed : Sealed later tokens) (suffix : rest <:+ tokens)
    (some : rest ≠ []) : Sealed later rest := by
  obtain none | ⟨⟨stack, closed⟩, ends⟩ := sealed
  · exact Or.inl none
  · obtain ⟨front, rfl⟩ := suffix
    rw [endsInSemicolon_append some] at ends
    exact Or.inr ⟨closes_suffix closed, ends⟩

/-- A token that is no semicolon is not the last one. -/
theorem behind {rest : List Token} {token : Token} (sealed : Sealed later tokens)
    (within : token :: rest <:+ tokens) (other : token.lexeme.isSemicolon = false) :
    Sealed later rest := by
  by_cases some : rest = []
  · obtain none | ⟨_, ends⟩ := sealed.suffix within (List.cons_ne_nil token rest)
    · exact Or.inl none
    · rw [some, endsInSemicolon, List.getLast?_singleton] at ends
      change token.lexeme.isSemicolon = true at ends
      rw [other] at ends
      cases ends
  · exact sealed.suffix ((List.suffix_cons token rest).trans within) some

theorem tail {token : Token} {rest : List Token} (sealed : Sealed later (token :: rest))
    (other : token.lexeme.isSemicolon = false) : Sealed later rest :=
  sealed.behind (List.suffix_refl _) other

end Sealed

/-! ### Brackets and commas -/

/-- What two readers find: the same value, with tokens left that still fit. -/
structure Agree (later : List Token) (found found' : α × List Token) : Prop where
  value : found'.1 = found.1
  fits : Fits later found.2 found'.2
  isSealed : Sealed later found.2

end Token

namespace Enclosure

structure Agree (later : List Token) (found found' : Enclosure) : Prop where
  inside : Token.Fits [] found.inside found'.inside
  close : found'.close.lexeme = found.close.lexeme
  after : Token.Fits later found.after found'.after

theorem agree_close? {later tokens tokens' : List Token} {bracket : Bracket} {depth : Nat}
    {found : Enclosure} (fits : Token.Fits later tokens tokens')
    (closed : close? bracket depth tokens = some found) :
    ∃ found', close? bracket depth tokens' = some found' ∧ Agree later found found' := by
  induction fits generalizing depth found with
  | nil => cases closed
  | @cons token token' rest rest' lexeme gap behind ih =>
      have deeper : ∀ depth, (close? bracket depth rest).map (fun found =>
          { found with inside := token :: found.inside }) = some found →
          ∃ found', (close? bracket depth rest').map (fun found =>
            { found with inside := token' :: found.inside }) = some found' ∧
              Agree later found found' := by
        intro depth shown
        obtain ⟨inner, here, same⟩ := Option.map_eq_some_iff.1 shown
        subst same
        obtain ⟨inner', here', agree⟩ := ih here
        refine ⟨{ inner' with inside := token' :: inner'.inside },
          Option.map_eq_some_iff.2 ⟨inner', here', rfl⟩, .cons lexeme (fun some => gap ?_)
            agree.inside, agree.close, agree.after⟩
        intro none
        rw [none] at here
        cases here
      unfold close? at closed ⊢
      rw [lexeme]
      dsimp only at closed ⊢
      by_cases opens : token.lexeme = .opening bracket
      · rw [if_pos opens] at closed ⊢
        exact deeper _ closed
      · rw [if_neg opens] at closed ⊢
        by_cases shuts : token.lexeme = .closing bracket
        · rw [if_pos shuts] at closed ⊢
          cases depth with
          | zero =>
              cases closed
              exact ⟨_, rfl, .nil, lexeme, behind⟩
          | succ outer => exact deeper _ closed
        · rw [if_neg shuts] at closed ⊢
          exact deeper _ closed

theorem agree_read {later tokens tokens' place : List Token} {beyond : List Char}
    {found : Enclosure} (beyond' : List Char) (place' : List Token)
    (fits : Token.Fits later tokens tokens') (enclosed : read beyond place tokens = .ok found) :
    ∃ found', read beyond' place' tokens' = .ok found' ∧ Agree later found found' := by
  obtain ⟨token, rest, bracket, rfl, opens, closed⟩ := exists_close?_of_read enclosed
  cases fits with
  | cons lexeme _ behind =>
      obtain ⟨found', closed', agree⟩ := agree_close? behind closed
      exact ⟨found', read_of_close? (lexeme.trans opens) closed', agree⟩

/-- The closing bracket is not the last token. -/
theorem isSealed_of_read {later tokens place : List Token} {beyond : List Char} {found : Enclosure}
    (isSealed : Token.Sealed later tokens) (enclosed : read beyond place tokens = .ok found) :
    Token.Sealed later found.after := by
  obtain ⟨token, rest, bracket, rfl, -, closed⟩ := exists_close?_of_read enclosed
  obtain ⟨whole, closes⟩ := eq_of_close? closed
  refine @Token.Sealed.behind _ _ _ found.close isSealed ?_ ?_
  · exact List.IsSuffix.trans ⟨found.inside, whole.symm⟩ (List.suffix_cons token rest)
  · rw [closes]
    rfl

end Enclosure

namespace Token

theorem agree_splitOutside {later tokens tokens' : List Token} {stop : Lexeme → Bool}
    {depth : Nat} (stops : ∀ lexeme, lexeme.isSemicolon → stop lexeme)
    (fits : Fits later tokens tokens')
    (closed : later = [] ∨ ∃ stack, closes stack tokens ∧ depth ≤ stack.length ∧
      endsInSemicolon tokens) :
    Fits [] (splitOutside stop depth tokens).1 (splitOutside stop depth tokens').1 ∧
      Fits later (splitOutside stop depth tokens).2 (splitOutside stop depth tokens').2 ∧
      (later = [] ∨ (splitOutside stop depth tokens).2 ≠ []) := by
  induction fits generalizing depth with
  | nil =>
      obtain none | ⟨_, _, _, ends⟩ := closed
      · rw [none]
        exact ⟨.nil, .nil, Or.inl rfl⟩
      · cases ends
  | @cons token token' rest rest' lexeme gap behind ih =>
      have same : nesting depth token' = nesting depth token := by
        rw [nesting, nesting, lexeme]
      rw [splitOutside, splitOutside, lexeme, same]
      split
      · exact ⟨.nil, .cons lexeme gap behind, Or.inr (List.cons_ne_nil _ _)⟩
      · next further =>
          have closed' : later = [] ∨ ∃ stack, closes stack rest ∧
              nesting depth token ≤ stack.length ∧ endsInSemicolon rest := by
            obtain none | ⟨stack, closed, bound, ends⟩ := closed
            · exact Or.inl none
            · obtain ⟨stack', opened, closed'⟩ := closes_cons.1 closed
              obtain ⟨last, semicolon⟩ | ends' := endsInSemicolon_cons ends
              · rw [last] at closed
                rw [eq_nil_of_closes_semicolon closed semicolon] at bound
                have outermost : depth = 0 := by simpa using bound
                exact absurd (by simp [outermost, stops _ semicolon]) further
              · exact Or.inr ⟨stack', closed', nesting_le opened bound, ends'⟩
          obtain ⟨front, back, found⟩ := ih closed'
          refine ⟨.cons lexeme (fun some => gap ?_) front, back, found⟩
          intro none
          rw [none] at some
          exact some rfl

/-- Outside brackets a stop is found before the tokens end. -/
theorem agree_splitOutside_of_sealed {later tokens tokens' : List Token} {stop : Lexeme → Bool}
    (stops : ∀ lexeme, lexeme.isSemicolon → stop lexeme) (fits : Fits later tokens tokens')
    (isSealed : Sealed later tokens) :
    Fits [] (splitOutside stop 0 tokens).1 (splitOutside stop 0 tokens').1 ∧
      Fits later (splitOutside stop 0 tokens).2 (splitOutside stop 0 tokens').2 ∧
      Sealed later (splitOutside stop 0 tokens).2 := by
  have closed : later = [] ∨ ∃ stack, closes stack tokens ∧ 0 ≤ stack.length ∧
      endsInSemicolon tokens := by
    obtain none | ⟨⟨stack, closed⟩, ends⟩ := isSealed
    · exact Or.inl none
    · exact Or.inr ⟨stack, closed, Nat.zero_le _, ends⟩
  obtain ⟨front, back, none | some⟩ := agree_splitOutside stops fits closed
  · exact ⟨front, back, Or.inl none⟩
  · exact ⟨front, back, isSealed.suffix ⟨_, splitOutside_append stop 0 tokens⟩ some⟩

theorem fits_dropSemicolon {later tokens tokens' : List Token} (fits : Fits later tokens tokens')
    (isSealed : Sealed later tokens) : Fits later (dropSemicolon tokens) (dropSemicolon tokens') := by
  cases fits with
  | nil =>
      rw [isSealed.of_nil]
      exact .nil
  | cons lexeme gap behind =>
      rw [dropSemicolon, dropSemicolon, lexeme]
      split
      · exact behind
      · exact .cons lexeme gap behind

theorem fits_groupsAt {depth : Nat} {tokens tokens' : List Token} (fits : Fits [] tokens tokens') :
    List.Forall₂ (Fits []) (groupsAt depth tokens) (groupsAt depth tokens') := by
  induction fits generalizing depth with
  | nil => exact .cons .nil .nil
  | @cons token token' rest rest' lexeme gap behind ih =>
      have same : angledNesting depth token' = angledNesting depth token := by
        rw [angledNesting, angledNesting, lexeme]
      rw [groupsAt, groupsAt, lexeme, same]
      split
      · exact .cons .nil ih
      · have later := @ih (angledNesting depth token)
        cases groups : groupsAt (angledNesting depth token) rest with
        | nil =>
            rw [groups] at later
            rw [List.forall₂_nil_left_iff.1 later]
            exact .cons (.cons lexeme (fun some => absurd rfl some) .nil) .nil
        | cons group more =>
            rw [groups] at later
            obtain ⟨group', more', first, others, groups'⟩ := List.forall₂_cons_left_iff.1 later
            rw [groups']
            refine .cons (.cons lexeme (fun some => gap ?_) first) others
            intro none
            rw [none, groupsAt] at groups
            cases groups
            exact some rfl

theorem fits_groups {tokens tokens' : List Token} (fits : Fits [] tokens tokens') :
    List.Forall₂ (Fits []) (groups tokens) (groups tokens') := by
  cases fits with
  | nil => exact .nil
  | cons lexeme gap behind => exact fits_groupsAt (.cons lexeme gap behind)

end Token

/-! ### Types -/

/-- Two results of which the second is found whenever the first one is. -/
def Matches (relation : α → β → Prop) (result : Except ε α) (result' : Except ε' β) : Prop :=
  ∀ value, result = .ok value → ∃ value', result' = .ok value' ∧ relation value value'

namespace Matches

theorem ok {relation : α → β → Prop} {value : α} {value' : β} (related : relation value value') :
    Matches relation (.ok value : Except ε α) (.ok value' : Except ε' β) := by
  intro value found
  cases found
  exact ⟨value', rfl, related⟩

theorem error {relation : α → β → Prop} (error : ε) (result' : Except ε' β) :
    Matches relation (.error error) result' := by
  intro value found
  cases found

theorem bind {relation : α → β → Prop} {relation' : γ → δ → Prop} {result : Except ε α}
    {result' : Except ε' β} {next : α → Except ε γ} {next' : β → Except ε' δ}
    (found : Matches relation result result')
    (later : ∀ value value', result = .ok value → relation value value' →
      Matches relation' (next value) (next' value')) :
    Matches relation' (result >>= next) (result' >>= next') := by
  intro last done
  obtain ⟨value, here, done⟩ := Except.bind_ok_iff.1 done
  obtain ⟨value', here', related⟩ := found value here
  obtain ⟨last', done', related'⟩ := later value value' here related last done
  exact ⟨last', Except.bind_ok_iff.2 ⟨value', here', done'⟩, related'⟩

theorem map {relation : α → β → Prop} {relation' : γ → δ → Prop} {result : Except ε α}
    {result' : Except ε' β} {change : α → γ} {change' : β → δ}
    (found : Matches relation result result')
    (kept : ∀ value value', relation value value' → relation' (change value) (change' value')) :
    Matches relation' (result.map change) (result'.map change') := by
  intro last done
  obtain ⟨value, here, rfl⟩ := Except.map_ok_iff.1 done
  obtain ⟨value', here', related⟩ := found value here
  exact ⟨_, Except.map_ok_iff.2 ⟨value', here', rfl⟩, kept value value' related⟩

end Matches

namespace Token

variable {later tokens tokens' : List Token}

theorem agree_dropSpecifiers {behindExtern : Bool} (fits : Fits later tokens tokens')
    (isSealed : Sealed later tokens) :
    Fits later (dropSpecifiers behindExtern tokens) (dropSpecifiers behindExtern tokens') ∧
      Sealed later (dropSpecifiers behindExtern tokens) := by
  induction fits generalizing behindExtern with
  | nil =>
      rw [isSealed.of_nil]
      exact ⟨.nil, Or.inl rfl⟩
  | @cons token token' rest rest' lexeme gap behind ih =>
      rw [dropSpecifiers, dropSpecifiers, lexeme]
      have notLast : token.lexeme.isString ∨ token.lexeme.isSpecifier → Sealed later rest := by
        intro passed
        refine isSealed.tail ?_
        cases same : token.lexeme <;> rw [same] at passed <;>
          simp_all [Lexeme.isString, Lexeme.isSpecifier, Lexeme.isSemicolon]
      split
      · next string =>
          simp only [Bool.and_eq_true] at string
          exact ih (notLast (Or.inl string.2))
      · split
        · next specifier => exact ih (notLast (Or.inr specifier))
        · exact ⟨.cons lexeme gap behind, isSealed⟩

theorem agree_scopedNames (fits : Fits later tokens tokens') (isSealed : Sealed later tokens) :
    Agree later (scopedNames tokens) (scopedNames tokens') := by
  fun_induction scopedNames tokens generalizing tokens' with
  | case1 =>
      rename_i rest name identifier scope found ih
      obtain _ | ⟨lexeme, _, _ | ⟨lexeme', _, behind⟩⟩ := fits
      rw [scope] at lexeme
      rw [identifier] at lexeme'
      rw [scopedNames_of_name lexeme lexeme']
      have within := isSealed.tail (by rw [scope]; rfl)
      obtain ⟨value, fits, isSealed⟩ := ih behind (within.tail (by rw [identifier]; rfl))
      exact ⟨congrArg ("::" ++ name ++ ·) value, fits, isSealed⟩
  | case2 =>
      rename_i other
      obtain _ | ⟨lexeme, gap, _ | ⟨lexeme', gap', behind⟩⟩ := fits
      rw [scopedNames_of_other]
      · exact ⟨rfl, .cons lexeme gap (.cons lexeme' gap' behind), isSealed⟩
      · intro colons token rest name same scope identifier
        cases same
        rw [lexeme] at scope
        rw [lexeme'] at identifier
        exact other name scope identifier
  | case3 =>
      rename_i short
      obtain _ | ⟨lexeme, gap, _ | ⟨lexeme', gap', behind⟩⟩ := fits
      · rw [isSealed.of_nil]
        exact ⟨rfl, .nil, Or.inl rfl⟩
      · rw [scopedNames_of_other]
        · exact ⟨rfl, .cons lexeme gap .nil, isSealed⟩
        · intro colons token rest name same scope identifier
          cases same
          rw [lexeme] at scope
          have none := (isSealed.tail (by rw [scope]; rfl)).of_nil
          cases none
      · exact absurd rfl (short _ _ _)

theorem agree_unscopedName (fits : Fits later tokens tokens') (isSealed : Sealed later tokens) :
    Matches (Agree later) (unscopedName tokens) (unscopedName tokens') := by
  cases fits with
  | nil => exact .error _ _
  | cons lexeme gap behind =>
      rw [unscopedName, unscopedName, lexeme]
      split
      · next name identifier =>
          obtain ⟨value, fits, isSealed⟩ :=
            agree_scopedNames behind (isSealed.tail (by rw [identifier]; rfl))
          exact .ok ⟨congrArg (name ++ ·) value, fits, isSealed⟩
      · exact .error _ _

theorem agree_qualifiedName (fits : Fits later tokens tokens') (isSealed : Sealed later tokens) :
    Matches (Agree later) (qualifiedName tokens) (qualifiedName tokens') := by
  cases fits with
  | nil => exact .error _ _
  | @cons token token' rest rest' lexeme gap behind =>
      rw [qualifiedName, qualifiedName, lexeme]
      split
      · next scope =>
          refine (agree_unscopedName behind (isSealed.tail (by rw [scope]; rfl))).map ?_
          intro found found' agree
          exact ⟨congrArg ("::" ++ ·) agree.value, agree.fits, agree.isSealed⟩
      · exact agree_unscopedName (.cons lexeme gap behind) isSealed

theorem agree_builtinWords (fits : Fits later tokens tokens') (isSealed : Sealed later tokens) :
    Agree later (builtinWords tokens) (builtinWords tokens') := by
  induction fits with
  | nil =>
      rw [isSealed.of_nil]
      exact ⟨rfl, .nil, Or.inl rfl⟩
  | @cons token token' rest rest' lexeme gap behind ih =>
      rw [builtinWords, builtinWords, lexeme]
      split
      · next word found =>
          have notLast : token.lexeme.isSemicolon = false := by
            cases same : token.lexeme with
            | punctuation mark =>
                rw [same] at found
                cases found
            | _ => rfl
          obtain ⟨value, fits, isSealed⟩ := ih (isSealed.tail notLast)
          exact ⟨congrArg (word :: ·) value, fits, isSealed⟩
      · exact ⟨rfl, .cons lexeme gap behind, isSealed⟩

end Token

variable {later tokens tokens' : List Token} {beyond beyond' : List Char}

namespace BaseType

theorem namesOf_eq {groups groups' : List (List Token)}
    (fits : List.Forall₂ (Token.Fits []) groups groups') :
    (groups'.filter fun group => !group.isEmpty).map Token.nameOf =
      (groups.filter fun group => !group.isEmpty).map Token.nameOf := by
  induction fits with
  | nil => rfl
  | cons first _ ih =>
      have name := first.nameOf
      cases first with
      | nil => exact ih
      | cons _ _ _ =>
          rw [List.filter_cons_of_pos rfl, List.filter_cons_of_pos rfl, List.map_cons,
            List.map_cons, name, ih]

theorem agree_readNamed (fits : Token.Fits later tokens tokens')
    (isSealed : Token.Sealed later tokens) :
    Matches (Token.Agree later) (readNamed beyond tokens) (readNamed beyond' tokens') := by
  unfold readNamed
  refine (Token.agree_qualifiedName fits isSealed).bind ?_
  rintro ⟨name, rest⟩ ⟨name', rest'⟩ _ ⟨value, behind, isSealed⟩
  dsimp only at value behind isSealed ⊢
  subst value
  cases behind with
  | nil =>
      cases isSealed.of_nil
      exact .ok ⟨rfl, .nil, isSealed⟩
  | @cons token token' more more' lexeme gap behind =>
      dsimp only
      rw [lexeme]
      split
      · intro found done
        obtain ⟨enclosed, here, done⟩ := Except.bind_ok_iff.1 done
        obtain ⟨enclosed', here', agree⟩ := Enclosure.agree_read beyond' (token' :: more')
          (.cons lexeme gap behind) here
        cases done
        have same : argumentsOf enclosed'.inside = argumentsOf enclosed.inside :=
          namesOf_eq (Token.fits_groups agree.inside)
        refine ⟨_, Except.bind_ok_iff.2 ⟨enclosed', here', rfl⟩, ?_⟩
        rw [same]
        exact ⟨rfl, agree.after, Enclosure.isSealed_of_read isSealed here⟩
      · exact .ok ⟨rfl, .cons lexeme gap behind, isSealed⟩

theorem agree_read (fits : Token.Fits later tokens tokens')
    (isSealed : Token.Sealed later tokens) :
    Matches (Token.Agree later) (read beyond tokens) (read beyond' tokens') := by
  have whole := fits
  cases fits with
  | nil => exact .error _ _
  | @cons token token' rest rest' lexeme gap behind =>
      rw [read, read, lexeme]
      split
      · next word => exact .ok ⟨rfl, behind, isSealed.tail (by rw [word]; rfl)⟩
      · next word => exact .ok ⟨rfl, behind, isSealed.tail (by rw [word]; rfl)⟩
      · next word => exact .ok ⟨rfl, behind, isSealed.tail (by rw [word]; rfl)⟩
      · next word =>
          refine (Token.agree_qualifiedName behind (isSealed.tail (by rw [word]; rfl))).map ?_
          intro found found' agree
          exact ⟨congrArg tagged agree.value, agree.fits, agree.isSealed⟩
      · next word =>
          refine (Token.agree_qualifiedName behind (isSealed.tail (by rw [word]; rfl))).map ?_
          intro found found' agree
          exact ⟨congrArg tagged agree.value, agree.fits, agree.isSealed⟩
      · split
        · obtain ⟨words, behind, isSealed⟩ := Token.agree_builtinWords whole isSealed
          dsimp only
          rw [words]
          exact .ok ⟨rfl, behind, isSealed⟩
        · exact agree_readNamed whole isSealed
      · exact agree_readNamed whole isSealed
      · exact .error _ _

end BaseType

theorem Wrap.agree_read {behindAmpersand : Bool} (fits : Token.Fits later tokens tokens')
    (isSealed : Token.Sealed later tokens) :
    Token.Agree later (read behindAmpersand tokens) (read behindAmpersand tokens') := by
  induction fits generalizing behindAmpersand with
  | nil =>
      rw [isSealed.of_nil]
      exact ⟨rfl, .nil, Or.inl rfl⟩
  | @cons token token' rest rest' lexeme gap behind ih =>
      rw [read, read, lexeme]
      split
      · next star =>
          have later := @ih false (isSealed.tail (by rw [star]; rfl))
          exact ⟨congrArg (Wrap.star :: ·) later.value, later.fits, later.isSealed⟩
      · next ampersand =>
          have within := isSealed.tail (by rw [ampersand]; rfl)
          split
          · exact ih within
          · have later := @ih true within
            exact ⟨congrArg (Wrap.reference :: ·) later.value, later.fits, later.isSealed⟩
      · next const => exact ih (isSealed.tail (by rw [const]; rfl))
      · exact ⟨rfl, .cons lexeme gap behind, isSealed⟩

theorem CType.agree_read (fits : Token.Fits later tokens tokens')
    (isSealed : Token.Sealed later tokens) :
    Matches (Token.Agree later) (read beyond tokens) (read beyond' tokens') := by
  obtain ⟨behind, within⟩ := @Token.agree_dropSpecifiers _ _ _ false fits isSealed
  unfold read
  refine (BaseType.agree_read behind within).bind ?_
  rintro ⟨base', rest⟩ ⟨base, rest'⟩ _ ⟨value, behind, within⟩
  dsimp only at value behind within ⊢
  subst value
  have wraps := @Wrap.agree_read _ _ _ false behind within
  refine .ok ⟨?_, wraps.fits, wraps.isSealed⟩
  exact congrArg (CType.mk base) wraps.value

/-! ### Variables -/

theorem Token.Fits.beforeInitializer (fits : Token.Fits [] tokens tokens') :
    Token.Fits [] (Token.beforeInitializer tokens) (Token.beforeInitializer tokens') := by
  unfold Token.beforeInitializer
  induction fits with
  | nil => exact .nil
  | @cons token token' rest rest' lexeme gap behind ih =>
      rw [List.takeWhile_cons, List.takeWhile_cons, lexeme]
      split
      · refine .cons lexeme (fun some => gap ?_) ih
        intro none
        rw [none] at some
        exact some rfl
      · exact .nil

theorem Token.Fits.firstName? (fits : Token.Fits [] tokens tokens') :
    Token.firstName? tokens' = Token.firstName? tokens := by
  rw [Token.firstName?_eq, Token.firstName?_eq, fits.map_lexeme]

theorem Token.Fits.countP (fits : Token.Fits [] tokens tokens') (counts : Lexeme → Bool) :
    tokens'.countP (fun token => counts token.lexeme) =
      tokens.countP fun token => counts token.lexeme := by
  rw [Token.countP_eq, Token.countP_eq, fits.map_lexeme]

namespace Declarator

theorem ofGroup?_eq (fits : Token.Fits [] tokens tokens') :
    ofGroup? tokens' = ofGroup? tokens := by
  have declared := fits.beforeInitializer
  have count := declared.countP fun lexeme => lexeme = .closing .square
  rw [ofGroup?, ofGroup?, declared.firstName?, count]

theorem matches_readGroups {groups groups' : List (List Token)}
    (fits : List.Forall₂ (Token.Fits []) groups groups') :
    Matches Eq (readGroups tokens groups) (readGroups tokens' groups') := by
  induction fits generalizing tokens tokens' with
  | nil => exact .ok rfl
  | cons first _ ih =>
      rw [readGroups, readGroups, ofGroup?_eq first]
      split
      · exact ih.map fun _ _ same => congrArg _ same
      · exact .error _ _

end Declarator

/-- Outcomes with the same declaration and the same omissions. -/
structure Outcome.Agree (later : List Token) (found found' : Outcome × List Token) : Prop where
  declaration : found'.1.declaration? = found.1.declaration?
  omissions : Note.omissions found'.1.notes = Note.omissions found.1.notes
  fits : Token.Fits later found.2 found'.2

/-- Scopes that differ in the text behind them only. -/
structure Scope.Alike (scope scope' : Scope) : Prop where
  owner : scope'.owner = scope.owner
  depth : scope'.depth = scope.depth

variable {scope scope' : Scope}

theorem Scope.Alike.isNested (alike : scope.Alike scope') : scope'.isNested = scope.isNested := by
  rw [Scope.isNested, Scope.isNested, alike.depth]

namespace Variable

theorem isPlaceholder_eq {declared declared' : List Token} {type : CType}
    (fits : Token.Fits later tokens tokens') (some : tokens ≠ [])
    (behind : Token.Fits [] declared declared') :
    isPlaceholder tokens' declared' type = isPlaceholder tokens declared type := by
  cases fits with
  | nil => exact absurd rfl some
  | cons lexeme _ _ =>
      rw [isPlaceholder, isPlaceholder]
      dsimp only [List.head?_cons, Option.any_some]
      rw [lexeme]
      cases behind with
      | nil => rfl
      | cons lexeme' _ _ =>
          dsimp only [List.head?_cons, Option.all_some]
          rw [lexeme']

theorem matches_ofDeclarators {type : CType} {text text' : String} (alike : scope.Alike scope')
    (declarators : List Declarator) :
    Matches Eq (ofDeclarators scope type text declarators)
      (ofDeclarators scope' type text' declarators) := by
  cases declarators with
  | nil => exact .error _ _
  | cons first more =>
      rw [ofDeclarators, ofDeclarators]
      split
      · rw [alike.isNested]
        exact .ok rfl
      · exact .error _ _

theorem agree_read (alike : scope.Alike scope') (fits : Token.Fits later tokens tokens')
    (isSealed : Token.Sealed later tokens) (some : tokens ≠ []) :
    Matches (Outcome.Agree later) (read scope tokens) (read scope' tokens') := by
  unfold read
  refine (CType.agree_read fits isSealed).bind ?_
  rintro ⟨type, rest⟩ ⟨type', rest'⟩ _ ⟨value, behind, within⟩
  dsimp only at value behind within ⊢
  subst value
  obtain ⟨front, back, closed⟩ :=
    Token.agree_splitOutside_of_sealed (fun _ semicolon => semicolon) behind within
  rw [isPlaceholder_eq fits some front]
  have after := Token.fits_dropSemicolon back closed
  split
  · exact .ok ⟨rfl, rfl, after⟩
  · rw [front.isEmpty]
    split
    · exact .error _ _
    · refine (Declarator.matches_readGroups (Token.fits_groups front)).bind ?_
      rintro declarators _ _ rfl
      intro found done
      obtain ⟨declared, agree, done⟩ := Except.bind_ok_iff.1 done
      obtain ⟨_, agree', rfl⟩ := @matches_ofDeclarators _ _ _ _
        (Token.nameOf (Token.splitOutside Lexeme.isSemicolon 0 rest').1) alike declarators declared
        (Failure.standing_ok_iff.1 agree)
      cases done
      exact ⟨_, Except.bind_ok_iff.2 ⟨declared, Failure.standing_ok_iff.2 agree', rfl⟩,
        rfl, rfl, after⟩

end Variable

end PxdStub
