import PxdStub.Proofs.DefaultValues

/-!
Constructors defined inline. Behind the parameters of a constructor stand member initializers and a
body, and the item ends behind the body. The first brace behind the parameters opens what is taken
for the body, also when it is that of a member initializer.
-/

namespace PxdStub

/-! ### Initializers -/

/-- A member and the brackets with its initial value. -/
structure MemberInitializer where
  member : Token
  bracket : Bracket
  opening : Token
  inside : List Token
  closing : Token
  shape : bracket = .round ∨ bracket = .curly
  named : ∃ name, member.lexeme = .identifier name
  opens : opening.lexeme = .opening bracket
  balanced : Token.Balances bracket inside
  closes : closing.lexeme = .closing bracket

namespace MemberInitializer

def tokens (initializer : MemberInitializer) : List Token :=
  initializer.member :: initializer.opening :: (initializer.inside ++ [initializer.closing])

/-- The tokens of initializers with commas between them. -/
inductive Listed : List MemberInitializer → List Token → Prop
  | last (initializer : MemberInitializer) : Listed [initializer] initializer.tokens
  | cons (initializer : MemberInitializer) {more : List MemberInitializer} {comma : Token}
      {tokens : List Token} :
      comma.lexeme = .punctuation .comma → Listed more tokens →
      Listed (initializer :: more) (initializer.tokens ++ comma :: tokens)

end MemberInitializer

/-- Tokens that begin with no semicolon are left as they are. -/
theorem Token.dropSemicolon_of_other {tokens : List Token}
    (other : ∀ token ∈ tokens.head?, token.lexeme.isSemicolon = false) :
    dropSemicolon tokens = tokens := by
  cases tokens with
  | nil => rfl
  | cons token rest => rw [dropSemicolon, other token rfl, if_neg Bool.false_ne_true]

namespace Function

variable {beyond : List Char} {name : String} {rest tokens inside : List Token}
  {opening closing : Token}

/-- A group of braces ends a function. -/
theorem dropEnding_braces (opens : opening.lexeme = .opening .curly)
    (balanced : Token.Balances .curly inside) (closes : closing.lexeme = .closing .curly) :
    dropEnding beyond name (opening :: (inside ++ closing :: rest)) =
      .ok (Token.dropSemicolon rest) := by
  rw [dropEnding_curly opens,
    Enclosure.read_of_close? opens (Enclosure.close?_of_deepen? closes balanced rest)]
  rfl

/-- A group of parentheses is passed. -/
theorem dropEnding_parentheses (opens : opening.lexeme = .opening .round)
    (balanced : Token.Balances .round inside) (closes : closing.lexeme = .closing .round) :
    dropEnding beyond name (opening :: (inside ++ closing :: rest)) =
      dropEnding beyond name rest := by
  rw [dropEnding_round opens,
    Enclosure.read_of_close? opens (Enclosure.close?_of_deepen? closes balanced rest)]

theorem dropEnding_member (initializer : MemberInitializer) :
    dropEnding beyond name (initializer.tokens ++ rest) = dropEnding beyond name
      (initializer.opening :: (initializer.inside ++ initializer.closing :: rest)) := by
  obtain ⟨word, named⟩ := initializer.named
  rw [MemberInitializer.tokens, List.cons_append, List.cons_append, List.append_assoc,
    dropEnding_other (by simp [named]) (by simp [named]) (by simp [named])]
  rfl

theorem dropEnding_round_initializer {initializer : MemberInitializer}
    (round : initializer.bracket = .round) :
    dropEnding beyond name (initializer.tokens ++ rest) = dropEnding beyond name rest := by
  have opens := initializer.opens
  have balanced := initializer.balanced
  have closes := initializer.closes
  rw [round] at opens balanced closes
  rw [dropEnding_member, dropEnding_parentheses opens balanced closes]

theorem dropEnding_curly_initializer {initializer : MemberInitializer}
    (curly : initializer.bracket = .curly) :
    dropEnding beyond name (initializer.tokens ++ rest) = .ok (Token.dropSemicolon rest) := by
  have opens := initializer.opens
  have balanced := initializer.balanced
  have closes := initializer.closes
  rw [curly] at opens balanced closes
  rw [dropEnding_member, dropEnding_braces opens balanced closes]

theorem dropEnding_mark {token : Token} {mark : Punctuation}
    (isMark : token.lexeme = .punctuation mark) (other : mark ≠ .semicolon) :
    dropEnding beyond name (token :: rest) = dropEnding beyond name rest := by
  apply dropEnding_other
  · rw [isMark]
    exact fun same => other (Lexeme.punctuation.inj same)
  · rw [isMark]
    exact Lexeme.noConfusion
  · rw [isMark]
    exact Lexeme.noConfusion

variable {initializers : List MemberInitializer} {ending : List Token}

/-- Initializers with parentheses are passed, however many there are. -/
theorem dropEnding_initializers (listed : MemberInitializer.Listed initializers tokens)
    (round : ∀ initializer ∈ initializers, initializer.bracket = .round) :
    dropEnding beyond name (tokens ++ rest) = dropEnding beyond name rest := by
  induction listed with
  | last initializer => exact dropEnding_round_initializer (round initializer List.mem_cons_self)
  | cons initializer isComma _ ih =>
      rw [List.append_assoc, dropEnding_round_initializer (round initializer List.mem_cons_self),
        List.cons_append, dropEnding_mark isComma (by decide)]
      exact ih fun later mem => round later (List.mem_cons_of_mem _ mem)

/-- Initializers end at the first one with braces: only a comma or nothing of them is left. -/
theorem dropEnding_of_braces (listed : MemberInitializer.Listed initializers tokens)
    (braces : ∃ initializer ∈ initializers, initializer.bracket = .curly) :
    ∃ left, left <:+ tokens ∧
      (∀ token ∈ left.head?, token.lexeme = .punctuation .comma) ∧
      ∀ (beyond : List Char) (name : String) (rest : List Token),
        dropEnding beyond name (tokens ++ rest) = .ok (Token.dropSemicolon (left ++ rest)) := by
  induction listed with
  | last initializer =>
      obtain ⟨_, mem, curly⟩ := braces
      rw [List.mem_singleton.1 mem] at curly
      refine ⟨[], List.nil_suffix, by simp, ?_⟩
      intro beyond name rest
      exact dropEnding_curly_initializer curly
  | @cons initializer more comma tokens isComma _ ih =>
      obtain round | curly := initializer.shape
      -- The braces are those of a later initializer, or of this one.
      · obtain ⟨other, mem, curly⟩ := braces
        have later : other ∈ more := by
          obtain rfl | later := List.mem_cons.1 mem
          · rw [round] at curly
            cases curly
          · exact later
        obtain ⟨left, suffix, starts, ends⟩ := ih ⟨other, later, curly⟩
        refine ⟨left, suffix.trans ((List.suffix_cons _ _).trans (List.suffix_append _ _)),
          starts, ?_⟩
        intro beyond name rest
        rw [List.append_assoc, dropEnding_round_initializer round, List.cons_append,
          dropEnding_mark isComma (by decide)]
        exact ends beyond name rest
      · refine ⟨comma :: tokens, List.suffix_append _ _, by simpa using isComma, ?_⟩
        intro beyond name rest
        rw [List.append_assoc, dropEnding_curly_initializer curly]

/-- What stands behind the parameters of a constructor that is defined inline. -/
inductive IsDefinition (initializers : List MemberInitializer) : List Token → Prop
  | intro {colon opening closing : Token} {tokens body : List Token} :
      colon.lexeme = .punctuation .colon → MemberInitializer.Listed initializers tokens →
      opening.lexeme = .opening .curly → Token.Balances .curly body →
      closing.lexeme = .closing .curly →
      IsDefinition initializers (colon :: (tokens ++ opening :: (body ++ [closing])))

/-- A definition ends with its body when no initializer has braces. -/
theorem IsDefinition.dropEnding (defined : IsDefinition initializers ending)
    (round : ∀ initializer ∈ initializers, initializer.bracket = .round) (rest : List Token) :
    dropEnding beyond name (ending ++ rest) = .ok (Token.dropSemicolon rest) := by
  obtain ⟨colon, listed, opens, balanced, closes⟩ := defined
  rw [List.cons_append, dropEnding_mark colon (by decide), List.append_assoc,
    dropEnding_initializers listed round, List.cons_append, List.append_assoc]
  exact dropEnding_braces opens balanced closes

/-- A definition with braces in an initializer ends before its body. -/
theorem IsDefinition.dropEnding_of_braces (defined : IsDefinition initializers ending)
    (braces : ∃ initializer ∈ initializers, initializer.bracket = .curly) :
    ∃ left, left ≠ [] ∧ left <:+ ending ∧
      ∀ (beyond : List Char) (name : String) (rest : List Token),
        Function.dropEnding beyond name (ending ++ rest) = .ok (left ++ rest) := by
  obtain @⟨colon, opening, closing, tokens, body, isColon, listed, opens, balanced, closes⟩ :=
    defined
  obtain ⟨left, ⟨passed, rfl⟩, starts, ends⟩ := Function.dropEnding_of_braces listed braces
  refine ⟨left ++ opening :: (body ++ [closing]), by simp, ⟨colon :: passed, by simp⟩, ?_⟩
  intro beyond name rest
  have noSemicolon : ∀ token ∈ (left ++ opening :: (body ++ [closing]) ++ rest).head?,
      token.lexeme.isSemicolon = false := by
    cases left with
    | nil => simp [opens, Lexeme.isSemicolon]
    | cons comma _ =>
        have isComma := starts comma rfl
        simp [isComma, Lexeme.isSemicolon]
  rw [List.cons_append, dropEnding_mark isColon (by decide), List.append_assoc (passed ++ left),
    ends, ← List.append_assoc, Token.dropSemicolon_of_other noSemicolon]

end Function

/-! ### Constructors -/

/-- The tokens of a constructor of the class `owner` up to the end of its parameters. -/
inductive Function.IsConstructor (owner : String) : List Token → Prop
  | intro {name opening closing : Token} {parameters : List Token} :
      name.lexeme = .identifier owner → opening.lexeme = .opening .round →
      Token.Balances .round parameters → closing.lexeme = .closing .round →
      IsConstructor owner (name :: opening :: (parameters ++ [closing]))

/-- What fits some tokens and a last one, fits them with all their gaps. -/
theorem Token.Fits.exists_concat {later tokens tokens' : List Token} {last : Token}
    (fits : Fits later (tokens ++ [last]) tokens') : ∃ front last',
      tokens' = front ++ last' :: later ∧ Moved tokens front ∧ last'.lexeme = last.lexeme := by
  induction tokens generalizing tokens' with
  | nil =>
      obtain _ | @⟨_, last', _, _, lexeme, _, _ | _⟩ := fits
      exact ⟨[], last', rfl, rfl, lexeme⟩
  | cons token tokens ih =>
      obtain _ | @⟨_, token', _, _, lexeme, gap, behind⟩ := fits
      obtain ⟨front, last', rfl, moved, same⟩ := ih behind
      refine ⟨token' :: front, last', rfl, ?_, same⟩
      exact Moved.cons_iff.2 ⟨⟨lexeme, gap (by simp)⟩, moved⟩

namespace Item

variable {owner : String} {name opening : Token}

/-- No item starts with a class name that is a specifier, and a parenthesis. -/
theorem not_reads_of_specifier {scope : Scope} {later rest : List Token}
    {declaration? : Option Declaration} {omissions : List Omission}
    (specifier : name.lexeme.isFunctionSpecifier) (opens : opening.lexeme = .opening .round) :
    ¬ Reads scope false (name :: opening :: later) declaration? omissions rest := by
  intro reads
  obtain ⟨word, isName⟩ : ∃ word, name.lexeme = .identifier word := by
    cases same : name.lexeme with
    | identifier word => exact ⟨word, rfl⟩
    | _ =>
        rw [same] at specifier
        cases specifier
  rw [isName] at specifier
  have mem : word ∈ functionSpecifiers := List.contains_iff_mem.1 specifier
  -- The specifier is passed over, and no type begins with the parenthesis behind it.
  have behind : Token.dropFunctionSpecifiers (name :: opening :: later) = opening :: later := by
    simp only [Token.dropFunctionSpecifiers, List.dropWhile_cons, isName, specifier, opens]
    rfl
  have unowned : (scope.owner.bind fun owner =>
      Kind.ofOwner? owner (name :: opening :: later)) = none := by
    cases scope.owner with
    | none => rfl
    | some owner => simp [Kind.ofOwner?, behind, opens]
  have starts : kind? scope.owner false (name :: opening :: later) = some .function := by
    refine kind?_eq_some_iff.2 ⟨_, _, rfl, by simp [isName, Lexeme.isSemicolon], ?_⟩
    rw [Kind.ofTokens, unowned]
    simp [Kind.ofKeyword?, isName, Kind.isCallable, opens]
  obtain ⟨outcome, found, _, _⟩ := reads.readPlain starts rfl
  obtain ⟨type, call, _, _, typed, _, _, _⟩ := Function.read_ok_iff.1 found
  have dropped : Token.dropSpecifiers false (name :: opening :: later) = opening :: later := by
    have every : ∀ word ∈ functionSpecifiers, word ∈ typeSpecifiers := by decide
    have listed := every word mem
    simp [Token.dropSpecifiers, isName, Lexeme.isSpecifier, listed, opens, Lexeme.isString]
  rw [CType.read, dropped, BaseType.read, opens] at typed
  cases typed

theorem opensParameters_of_owner (isName : name.lexeme = .identifier owner)
    (opens : opening.lexeme = .opening .round) (plain : name.lexeme.isFunctionSpecifier = false) :
    OpensParameters (some owner) false [name, opening] := by
  have shown : Token.dropFunctionSpecifiers [name, opening] = [name, opening] := by
    rw [Token.dropFunctionSpecifiers, List.dropWhile_cons, plain]
    rfl
  apply OpensParameters.constructor
  · refine kind?_eq_some_iff.2 ⟨name, [opening], rfl, by simp [isName, Lexeme.isSemicolon], ?_⟩
    rw [Kind.ofTokens, Option.bind_some, Kind.ofOwner?, shown]
    simp [isName, Kind.reachesParenthesis, opens]
  · rw [shown]
    refine ⟨[name], opening, rfl, ?_⟩
    simp [Signature.splitName, isName, opens]

/-- A constructor is the same item with any other end, which says what is left behind it. -/
theorem Reads.of_constructor {scope scope' : Scope}
    {front front' behind ending left rest : List Token} {declaration? : Option Declaration}
    {omissions : List Omission}
    (alike : scope.Alike scope') (owned : scope.owner = some owner)
    (isConstructor : Function.IsConstructor owner front) (fits : Token.Fits [] front front')
    (ends : ∀ (beyond : List Char) (name : String),
      Function.dropEnding beyond name ending = .ok left)
    (reads : Reads scope false (front ++ behind) declaration? omissions rest) :
    Reads scope' false (front' ++ ending) declaration? omissions left := by
  obtain @⟨name, opening, closing, parameters, isName, opens, balanced, closes⟩ := isConstructor
  cases specifier : name.lexeme.isFunctionSpecifier with
  | true => exact absurd reads (not_reads_of_specifier specifier opens)
  | false =>
      obtain _ | @⟨_, name', _, _, sameName, gap,
        _ | @⟨_, opening', _, _, sameOpening, gap', more⟩⟩ := fits
      obtain ⟨parameters', closing', rfl, moved, sameClosing⟩ := more.exists_concat
      have starts : OpensParameters scope.owner false [name, opening] := by
        rw [owned]
        exact opensParameters_of_owner isName opens specifier
      have calls : Signature.Calls (fun _ behind' => behind' = ending)
          (parameters ++ closing :: behind) (parameters' ++ closing' :: ending) :=
        .intro (Parameter.Defaults.of_moved moved) balanced closes (sameClosing.trans closes) rfl
      -- The ends have nothing in common: that of the definition alone says what is left.
      have alone : Function.EndsAlike (fun _ behind' => behind' = ending)
          (fun _ left' => left' = left) := by
        rintro _ _ _ _ beyond name rfl _
        exact ⟨left, ends beyond name, rfl⟩
      have here : Token.Fits (parameters ++ closing :: behind) [name, opening]
          (name :: opening :: (parameters ++ closing :: behind)) :=
        .cons rfl (fun _ => rfl) (.cons rfl (fun _ => rfl) .nil)
      have here' : Token.Fits (parameters' ++ closing' :: ending) [name, opening]
          (name' :: opening' :: (parameters' ++ closing' :: ending)) :=
        .cons sameName (fun _ => gap (List.cons_ne_nil _ _))
          (.cons sameOpening (fun none => absurd rfl none) .nil)
      rw [List.cons_append, List.cons_append, List.append_assoc] at reads
      rw [List.cons_append, List.cons_append, List.append_assoc]
      obtain ⟨_, found, rfl⟩ := reads.calls alone alike starts calls here here'
      exact found

end Item

namespace Parser

variable {owner : String} {text text' : List Char} {lexed lexed' : Lexed}
  {front front' behind ending rest : List Token} {initializers : List MemberInitializer}
  {declaration? : Option Declaration} {left : Option (List Char)}

theorem itemAndRest_of_constructor {after : List Token} (lexes : Lexed.ofText text = .ok lexed)
    (lexes' : Lexed.ofText text' = .ok lexed') (declared : lexed.tokens = front ++ behind)
    (defined : lexed'.tokens = front' ++ ending)
    (isConstructor : Function.IsConstructor owner front) (fits : Token.Fits [] front front')
    (ends : ∀ (beyond : List Char) (name : String),
      Function.dropEnding beyond name ending = .ok after)
    (parsed : itemAndRest (some owner) text = .ok (declaration?, left)) :
    itemAndRest (some owner) text' = .ok (declaration?,
      if after.isEmpty then none else some (Text.trim (Token.sourceOf after))) := by
  obtain ⟨_, omissions, _, here, reads, _⟩ := itemAndRest_eq_ok_iff.1 parsed
  cases lexes.symm.trans here
  rw [declared] at reads
  have found := reads.of_constructor ⟨rfl, rfl⟩ rfl isConstructor fits ends
  rw [← defined] at found
  exact itemAndRest_eq_ok_iff.2 ⟨lexed', omissions, after, lexes', found, rfl⟩

/-- A constructor with member initializers in parentheses is read as it is when it is declared only,
and the item ends behind its body. -/
theorem itemAndRest_defined_inline (lexes : Lexed.ofText text = .ok lexed)
    (lexes' : Lexed.ofText text' = .ok lexed') (declared : lexed.tokens = front ++ behind)
    (defined : lexed'.tokens = front' ++ (ending ++ rest))
    (isConstructor : Function.IsConstructor owner front) (fits : Token.Fits [] front front')
    (isDefinition : Function.IsDefinition initializers ending)
    (round : ∀ initializer ∈ initializers, initializer.bracket = .round)
    (noSemicolon : ∀ token ∈ rest.head?, token.lexeme.isSemicolon = false)
    (parsed : itemAndRest (some owner) text = .ok (declaration?, left)) :
    itemAndRest (some owner) text' = .ok (declaration?,
      if rest.isEmpty then none else some (Text.trim (Token.sourceOf rest))) := by
  refine itemAndRest_of_constructor lexes lexes' declared defined isConstructor fits ?_ parsed
  intro beyond name
  rw [isDefinition.dropEnding round, Token.dropSemicolon_of_other noSemicolon]

theorem itemAndRest_declared : itemAndRest (some "P") "P(int a);".toList =
    .ok (some (.ofFunction ⟨.constructor, "P", [⟨⟨.int, []⟩, "a"⟩], true⟩), none) := by
  let tokens : List Token := [⟨.identifier "P", 0, []⟩, ⟨.opening .round, 1, []⟩,
    ⟨.keyword .int, 2, [' ']⟩, ⟨.identifier "a", 6, []⟩, ⟨.closing .round, 7, []⟩,
    ⟨.punctuation .semicolon, 8, []⟩]
  let signature : Signature := ⟨"P", [⟨⟨.int, []⟩, "a"⟩], false⟩
  let scope : Scope := .ofOwner (some "P")
  have lexes : Lexed.ofText "P(int a);".toList = .ok ⟨[], tokens⟩ := by cbv
  have named : Signature.read [] false tokens = .ok (signature, tokens.drop 5) := by rfl
  have ends : Function.dropEnding [] "P" (tokens.drop 5) = .ok [] :=
    Function.dropEnding_semicolon rfl
  have found : Item.readPlain scope false .constructor tokens =
      .ok (signature.outcome scope .constructor, []) :=
    Function.readConstructor_ok_iff.2 ⟨signature, _, named, rfl, ends, rfl⟩
  exact itemAndRest_eq_ok_iff.2 ⟨_, [], [], lexes, .plain (by rfl) rfl found, rfl⟩

theorem itemAndRest_two_initializers : ∃ function : Function,
    function.arguments = [⟨⟨.int, []⟩, "a", true⟩] ∧
    itemAndRest (some "P") "P(int a);".toList = .ok (some (.ofFunction function), none) ∧
    itemAndRest (some "P") "P(int a) : x(a), y(2) { { } } int z;".toList =
      .ok (some (.ofFunction function), some "int z;".toList) := by
  let call : List Token := [⟨.identifier "P", 0, []⟩, ⟨.opening .round, 1, []⟩,
    ⟨.keyword .int, 2, [' ']⟩, ⟨.identifier "a", 6, []⟩]
  let closing : Token := ⟨.closing .round, 7, []⟩
  let closing' : Token := ⟨.closing .round, 7, [' ']⟩
  let first : MemberInitializer :=
    ⟨⟨.identifier "x", 11, []⟩, .round, ⟨.opening .round, 12, []⟩, [⟨.identifier "a", 13, []⟩],
      ⟨.closing .round, 14, []⟩, .inl rfl, ⟨"x", rfl⟩, rfl, by decide, rfl⟩
  let second : MemberInitializer :=
    ⟨⟨.identifier "y", 17, []⟩, .round, ⟨.opening .round, 18, []⟩, [⟨.number "2", 19, []⟩],
      ⟨.closing .round, 20, [' ']⟩, .inl rfl, ⟨"y", rfl⟩, rfl, by decide, rfl⟩
  let body : List Token := [⟨.opening .curly, 24, [' ']⟩, ⟨.closing .curly, 26, [' ']⟩]
  let ending : List Token := ⟨.punctuation .colon, 9, [' ']⟩ ::
    ((first.tokens ++ ⟨.punctuation .comma, 15, [' ']⟩ :: second.tokens) ++
      ⟨.opening .curly, 22, [' ']⟩ :: (body ++ [⟨.closing .curly, 28, [' ']⟩]))
  let rest : List Token := [⟨.keyword .int, 30, [' ']⟩, ⟨.identifier "z", 34, []⟩,
    ⟨.punctuation .semicolon, 35, []⟩]
  have lexes : Lexed.ofText "P(int a);".toList =
      .ok ⟨[], call ++ [closing] ++ [⟨.punctuation .semicolon, 8, []⟩]⟩ := by cbv
  have lexes' : Lexed.ofText "P(int a) : x(a), y(2) { { } } int z;".toList =
      .ok ⟨[], call ++ [closing'] ++ (ending ++ rest)⟩ := by cbv
  have balanced : Token.Balances .round (call.drop 2) := by decide
  have isConstructor : Function.IsConstructor "P" (call ++ [closing]) :=
    .intro rfl rfl balanced rfl
  have moved : Token.Moved call call := rfl
  have same : closing'.lexeme = closing.lexeme := rfl
  have fits : Token.Fits [] (call ++ [closing]) (call ++ [closing']) := moved.fits_concat same []
  have isDefinition : Function.IsDefinition [first, second] ending :=
    .intro rfl (.cons first rfl (.last second)) rfl (by decide) rfl
  refine ⟨_, rfl, itemAndRest_declared, ?_⟩
  exact itemAndRest_defined_inline lexes lexes' rfl rfl isConstructor fits isDefinition
    (by simp [first, second]) (by simp [rest, Lexeme.isSemicolon]) itemAndRest_declared

/-- Braces of a member initializer are taken for the body, and the body is left. -/
theorem itemAndRest_brace_initializer (lexes : Lexed.ofText text = .ok lexed)
    (lexes' : Lexed.ofText text' = .ok lexed') (declared : lexed.tokens = front ++ behind)
    (defined : lexed'.tokens = front' ++ (ending ++ rest))
    (isConstructor : Function.IsConstructor owner front) (fits : Token.Fits [] front front')
    (isDefinition : Function.IsDefinition initializers ending)
    (braces : ∃ initializer ∈ initializers, initializer.bracket = .curly)
    (parsed : itemAndRest (some owner) text = .ok (declaration?, left)) :
    ∃ body, body ≠ [] ∧ body <:+ ending ∧ itemAndRest (some owner) text' =
      .ok (declaration?, some (Text.trim (Token.sourceOf (body ++ rest)))) := by
  obtain ⟨body, some, suffix, ends⟩ := isDefinition.dropEnding_of_braces braces
  refine ⟨body, some, suffix, ?_⟩
  have found := itemAndRest_of_constructor lexes lexes' declared defined isConstructor fits
    (fun beyond name => ends beyond name rest) parsed
  rwa [if_neg (by simp [some])] at found

/-- The braces of an initializer leave the body behind. -/
theorem itemAndRest_body_left : ∃ function : Function,
    itemAndRest (some "P") "P(int a);".toList = .ok (some (.ofFunction function), none) ∧
    itemAndRest (some "P") "P(int a) : x{a} {} int y;".toList =
      .ok (some (.ofFunction function), some "{} int y;".toList) := by
  let call : List Token := [⟨.identifier "P", 0, []⟩, ⟨.opening .round, 1, []⟩,
    ⟨.keyword .int, 2, [' ']⟩, ⟨.identifier "a", 6, []⟩]
  let closing : Token := ⟨.closing .round, 7, []⟩
  let closing' : Token := ⟨.closing .round, 7, [' ']⟩
  let left : List Token := [⟨.opening .curly, 16, []⟩, ⟨.closing .curly, 17, [' ']⟩,
    ⟨.keyword .int, 19, [' ']⟩, ⟨.identifier "y", 23, []⟩, ⟨.punctuation .semicolon, 24, []⟩]
  let value : List Token := [⟨.identifier "a", 13, []⟩]
  let ending : List Token := ⟨.punctuation .colon, 9, [' ']⟩ :: ⟨.identifier "x", 11, []⟩ ::
    ⟨.opening .curly, 12, []⟩ :: (value ++ ⟨.closing .curly, 14, [' ']⟩ :: left)
  have lexes : Lexed.ofText "P(int a);".toList =
      .ok ⟨[], call ++ [closing] ++ [⟨.punctuation .semicolon, 8, []⟩]⟩ := by cbv
  have lexes' : Lexed.ofText "P(int a) : x{a} {} int y;".toList =
      .ok ⟨[], call ++ [closing'] ++ ending⟩ := by cbv
  have balanced : Token.Balances .round (call.drop 2) := by decide
  have isConstructor : Function.IsConstructor "P" (call ++ [closing]) :=
    .intro rfl rfl balanced rfl
  have moved : Token.Moved call call := rfl
  have same : closing'.lexeme = closing.lexeme := rfl
  have fits : Token.Fits [] (call ++ [closing]) (call ++ [closing']) := moved.fits_concat same []
  have ends : ∀ (beyond : List Char) (name : String),
      Function.dropEnding beyond name ending = .ok left := by
    intro beyond name
    rw [Function.dropEnding_other (by decide) (by decide) (by decide),
      Function.dropEnding_other (by decide) (by decide) (by decide)]
    exact Function.dropEnding_braces rfl (show Token.Balances .curly value by decide) rfl
  refine ⟨_, itemAndRest_declared, ?_⟩
  exact itemAndRest_of_constructor lexes lexes' rfl rfl isConstructor fits ends
    itemAndRest_declared

end Parser

end PxdStub
