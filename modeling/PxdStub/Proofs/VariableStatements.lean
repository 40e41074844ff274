import PxdStub.Proofs.ParameterLists
import PxdStub.Proofs.SpelledItems

/-!
Variable statements. A built-in type, its markers and any number of declarators up to a semicolon
are one variable, whatever the initializers hold, and the declarators have to agree in their
dimensions.
-/

namespace PxdStub

/-! ### Contained tokens -/

namespace Token

/-- The brackets of all four kinds that are open behind a token, the innermost first; `none` when
the token closes another one, when it is a comma outside brackets or a semicolon outside braces. -/
def contain? (stack : List Bracket) (token : Token) : Option (List Bracket) :=
  match token.lexeme with
  | .opening bracket => some (bracket :: stack)
  | .closing bracket => shut? bracket stack
  | .punctuation .comma => if stack = [] then none else some stack
  | .punctuation .semicolon => if .curly ∈ stack then some stack else none
  | _ => some stack

/-- Whether tokens close the brackets that they open, with every comma inside brackets and every
semicolon inside braces. -/
def IsContained (tokens : List Token) : Prop :=
  tokens.foldlM contain? [] = some []

instance (tokens : List Token) : Decidable (IsContained tokens) :=
  inferInstanceAs (Decidable (_ = _))

theorem IsContained.append {front back : List Token} (contained : IsContained front)
    (contained' : IsContained back) : IsContained (front ++ back) := by
  rw [IsContained, List.foldlM_append, contained]
  exact contained'

/-- How many of the open brackets the search for a semicolon counts. -/
def depthOf (stack : List Bracket) : Nat :=
  stack.countP fun bracket => bracket != .angle

variable {stack stack' : List Bracket} {token : Token} {tokens : List Token}

/-- A token opens a bracket, closes the innermost one, or leaves all as they are. -/
theorem cases_of_contain? (opened : contain? stack token = some stack') :
    (∃ bracket, token.lexeme = .opening bracket ∧ stack' = bracket :: stack) ∨
    (∃ bracket, token.lexeme = .closing bracket ∧ stack = bracket :: stack') ∨
    ((∀ bracket, token.lexeme ≠ .opening bracket ∧ token.lexeme ≠ .closing bracket) ∧
      stack' = stack) := by
  unfold contain? at opened
  split at opened
  · next bracket same =>
      cases opened
      exact .inl ⟨bracket, same, rfl⟩
  · next bracket same => exact .inr (.inl ⟨bracket, same, shut?_eq_some_iff.1 opened⟩)
  · next same =>
      split at opened
      · cases opened
      · cases opened
        exact .inr (.inr ⟨by simp [same], rfl⟩)
  · next same =>
      split at opened
      · cases opened
        exact .inr (.inr ⟨by simp [same], rfl⟩)
      · cases opened
  · next opening closing _ _ =>
      cases opened
      exact .inr (.inr ⟨fun bracket => ⟨opening bracket, closing bracket⟩, rfl⟩)

theorem angledNesting_of_contain? (opened : contain? stack token = some stack') :
    angledNesting stack.length token = stack'.length := by
  unfold angledNesting
  obtain ⟨bracket, same, rfl⟩ | ⟨bracket, same, rfl⟩ | ⟨other, rfl⟩ := cases_of_contain? opened
  · rw [same]
    rfl
  · rw [same]
    rfl
  · cases same : token.lexeme with
    | opening bracket => exact absurd same (other bracket).1
    | closing bracket => exact absurd same (other bracket).2
    | _ => rfl

theorem nesting_of_contain? (opened : contain? stack token = some stack') :
    nesting (depthOf stack) token = depthOf stack' := by
  unfold nesting
  obtain ⟨bracket, same, rfl⟩ | ⟨bracket, same, rfl⟩ | ⟨other, rfl⟩ := cases_of_contain? opened
  · rw [same]
    cases bracket <;> simp [depthOf]
  · rw [same]
    cases bracket <;> simp [depthOf]
  · cases same : token.lexeme with
    | opening bracket => exact absurd same (other bracket).1
    | closing bracket => exact absurd same (other bracket).2
    | _ => rfl

theorem not_comma_of_contain? (opened : contain? stack token = some stack')
    (outside : stack.length = 0) : token.lexeme ≠ .punctuation .comma := by
  intro same
  rw [contain?, same, List.length_eq_zero_iff.1 outside] at opened
  cases opened

theorem not_semicolon_of_contain? (opened : contain? stack token = some stack')
    (outside : depthOf stack = 0) : token.lexeme.isSemicolon = false := by
  rw [Lexeme.isSemicolon, decide_eq_false_iff_not]
  intro same
  rw [contain?, same] at opened
  dsimp only at opened
  split at opened
  · next inBraces =>
      have counted := List.countP_eq_zero.1 outside _ inBraces
      exact counted rfl
  · cases opened

/-- No comma of contained tokens ends a group, and all that they open is closed behind them. -/
theorem commasInside_of_contained (opened : tokens.foldlM contain? stack = some stack') :
    commasInside stack.length tokens ∧
      tokens.foldl angledNesting stack.length = stack'.length := by
  induction tokens generalizing stack with
  | nil =>
      cases opened
      exact ⟨rfl, rfl⟩
  | cons token rest ih =>
      obtain ⟨next, here, later⟩ := Option.bind_eq_some_iff.1 opened
      obtain ⟨inside, level⟩ := ih later
      rw [commasInside, List.foldl_cons, angledNesting_of_contain? here, inside, Bool.and_true,
        Bool.not_eq_true', Bool.and_eq_false_iff, decide_eq_false_iff_not, decide_eq_false_iff_not]
      refine ⟨?_, level⟩
      by_cases outside : stack.length = 0
      · exact .inr (not_comma_of_contain? here outside)
      · exact .inl outside

theorem NoneOutside.append {stop : Lexeme → Bool} {depth : Nat} {front back : List Token}
    (first : NoneOutside stop depth front)
    (second : NoneOutside stop (front.foldl nesting depth) back) :
    NoneOutside stop depth (front ++ back) := by
  induction front generalizing depth with
  | nil => exact second
  | cons token front ih =>
      refine .cons (first [] token front rfl) (ih ?_ second)
      intro middle next more same outside
      exact first (token :: middle) next more (by rw [same]; rfl) outside

/-- No semicolon of contained tokens ends a statement. -/
theorem noneOutside_of_contained (opened : tokens.foldlM contain? stack = some stack') :
    NoneOutside Lexeme.isSemicolon (depthOf stack) tokens ∧
      tokens.foldl nesting (depthOf stack) = depthOf stack' := by
  induction tokens generalizing stack with
  | nil =>
      cases opened
      exact ⟨fun _ _ _ same => absurd same (by simp), rfl⟩
  | cons token rest ih =>
      obtain ⟨next, here, later⟩ := Option.bind_eq_some_iff.1 opened
      obtain ⟨none, level⟩ := ih later
      have step := nesting_of_contain? here
      rw [List.foldl_cons, step]
      rw [← step] at none
      exact ⟨.cons (not_semicolon_of_contain? here) none, level⟩

theorem IsContained.commas (contained : IsContained tokens) :
    commasInside 0 tokens ∧ tokens.foldl angledNesting 0 = 0 :=
  commasInside_of_contained contained

theorem IsContained.semicolons (contained : IsContained tokens) :
    NoneOutside Lexeme.isSemicolon 0 tokens ∧ tokens.foldl nesting 0 = 0 :=
  noneOutside_of_contained contained

end Token

/-! ### Declarators -/

/-- Whether a lexeme may stand in an array size. -/
def Lexeme.isSizePart : Lexeme → Bool
  | .opening _ | .closing _ => false
  | .punctuation .comma | .punctuation .semicolon | .punctuation .equals => false
  | _ => true

namespace Declarator

/-- The tokens of array sizes, and how many sizes they are. -/
inductive Sizes : Nat → List Token → Prop
  | nil : Sizes 0 []
  | cons {opening closing : Token} {inside rest : List Token} {count : Nat} :
      opening.lexeme = .opening .square → (∀ token ∈ inside, token.lexeme.isSizePart) →
      closing.lexeme = .closing .square → Sizes count rest →
      Sizes (count + 1) (opening :: (inside ++ closing :: rest))

/-- The tokens of an initializer that may be missing. -/
inductive Initializes : List Token → Prop
  | nil : Initializes []
  | value {equals : Token} {value : List Token} :
      equals.lexeme = .punctuation .equals → Token.IsContained value →
      Initializes (equals :: value)

/-- The tokens of a declarator. -/
inductive Spells : Declarator → List Token → Prop
  | intro {token : Token} {name : String} {count : Nat} {sizes initializer : List Token} :
      token.lexeme = .identifier name → name ≠ "operator" → Sizes count sizes →
      Initializes initializer → Spells ⟨name, count⟩ (token :: (sizes ++ initializer))

/-- The tokens of declarators with commas between them. -/
inductive Listed : List Declarator → List Token → Prop
  | last {declarator : Declarator} {tokens : List Token} :
      Spells declarator tokens → Listed [declarator] tokens
  | cons {declarator : Declarator} {more : List Declarator} {tokens rest : List Token}
      {comma : Token} :
      Spells declarator tokens → comma.lexeme = .punctuation .comma → Listed more rest →
      Listed (declarator :: more) (tokens ++ comma :: rest)

variable {declarator : Declarator} {declarators : List Declarator} {count : Nat}
  {tokens sizes initializer inside declared : List Token}

/-! Their brackets -/

theorem contain?_of_isSizePart {token : Token} (part : token.lexeme.isSizePart)
    (stack : List Bracket) : Token.contain? stack token = some stack := by
  unfold Token.contain?
  cases same : token.lexeme with
  | opening | closing =>
      rw [same] at part
      cases part
  | punctuation mark =>
      rw [same] at part
      cases mark with
      | comma | semicolon => cases part
      | _ => rfl
  | _ => rfl

theorem foldlM_contain?_of_sizeParts (parts : ∀ token ∈ inside, token.lexeme.isSizePart)
    (stack : List Bracket) : inside.foldlM Token.contain? stack = some stack := by
  induction inside with
  | nil => rfl
  | cons token rest ih =>
      rw [List.foldlM_cons, contain?_of_isSizePart (parts token List.mem_cons_self)]
      exact ih fun token mem => parts token (List.mem_cons_of_mem _ mem)

theorem Sizes.isContained (areSizes : Sizes count sizes) : Token.IsContained sizes := by
  induction areSizes with
  | nil => rfl
  | @cons opening closing inside rest count opens parts closes _ ih =>
      have opened : Token.contain? [] opening = some [.square] := by
        rw [Token.contain?, opens]
      have closed : Token.contain? [.square] closing = some [] := by
        rw [Token.contain?, closes]
        rfl
      rw [Token.IsContained, List.foldlM_cons, opened, Option.bind_eq_bind, Option.bind_some,
        List.foldlM_append, foldlM_contain?_of_sizeParts parts, Option.bind_eq_bind,
        Option.bind_some, List.foldlM_cons, closed]
      exact ih

theorem Initializes.isContained (initializes : Initializes initializer) :
    Token.IsContained initializer := by
  cases initializes with
  | nil => rfl
  | @value equals value isEquals contained =>
      have passed : Token.contain? [] equals = some [] := by
        rw [Token.contain?, isEquals]
      rw [Token.IsContained, List.foldlM_cons, passed]
      exact contained

theorem Spells.isContained (spells : Spells declarator tokens) : Token.IsContained tokens := by
  obtain @⟨token, name, count, sizes, initializer, named, _, areSizes, initializes⟩ := spells
  have passed : Token.contain? [] token = some [] := by
    rw [Token.contain?, named]
  rw [Token.IsContained, List.foldlM_cons, passed]
  exact areSizes.isContained.append initializes.isContained

/-- No semicolon of listed declarators ends the statement. -/
theorem Listed.noneOutside (listed : Listed declarators declared) :
    Token.NoneOutside Lexeme.isSemicolon 0 declared ∧ declared.foldl Token.nesting 0 = 0 := by
  induction listed with
  | last spells => exact spells.isContained.semicolons
  | @cons declarator more tokens rest comma spells isComma _ ih =>
      obtain ⟨none, level⟩ := spells.isContained.semicolons
      have step : Token.nesting 0 comma = 0 := by
        rw [Token.nesting, isComma]
      constructor
      · apply none.append
        rw [level]
        refine .cons (fun _ => by rw [isComma]; rfl) ?_
        rw [step]
        exact ih.1
      · rw [List.foldl_append, level, List.foldl_cons, step]
        exact ih.2

/-! What is read from them -/

/-- Declarators begin with a name. -/
theorem Listed.exists_name (listed : Listed declarators declared) :
    ∃ token more name, declared = token :: more ∧ token.lexeme = .identifier name := by
  cases listed with
  | last spells =>
      obtain ⟨named, _, _, _⟩ := spells
      exact ⟨_, _, _, rfl, named⟩
  | cons spells _ _ =>
      obtain ⟨named, _, _, _⟩ := spells
      exact ⟨_, _, _, rfl, named⟩

theorem Sizes.not_equals (areSizes : Sizes count sizes) :
    ∀ token ∈ sizes, token.lexeme ≠ .punctuation .equals := by
  induction areSizes with
  | nil => nofun
  | @cons opening closing inside rest count opens parts closes _ ih =>
      intro token mem isEquals
      simp only [List.mem_cons, List.mem_append] at mem
      obtain rfl | within | rfl | later := mem
      · rw [opens] at isEquals
        cases isEquals
      · have part := parts token within
        rw [isEquals] at part
        cases part
      · rw [closes] at isEquals
        cases isEquals
      · exact ih token later isEquals

theorem Sizes.countP_eq (areSizes : Sizes count sizes) :
    (sizes.countP fun token => token.lexeme = .closing .square) = count := by
  induction areSizes with
  | nil => rfl
  | @cons opening closing inside rest count opens parts closes _ ih =>
      have none : (inside.countP fun token => token.lexeme = .closing .square) = 0 := by
        rw [List.countP_eq_zero]
        intro token mem isClosing
        have part := parts token mem
        rw [decide_eq_true_iff.1 isClosing] at part
        cases part
      rw [List.countP_cons, List.countP_append, List.countP_cons, none, ih]
      simp [opens, closes]

theorem Spells.ofGroup?_eq (spells : Spells declarator tokens) :
    ofGroup? tokens = some declarator := by
  obtain @⟨token, name, count, sizes, initializer, named, _, areSizes, initializes⟩ := spells
  have before : Token.beforeInitializer (token :: (sizes ++ initializer)) = token :: sizes := by
    have none : initializer.takeWhile (fun token => token.lexeme != .punctuation .equals) = [] := by
      cases initializes with
      | nil => rfl
      | value isEquals _ => rw [List.takeWhile_cons, if_neg (by simp [isEquals])]
    have kept : ∀ token ∈ sizes, (token.lexeme != .punctuation .equals) = true := by
      intro token mem
      simpa using areSizes.not_equals token mem
    rw [Token.beforeInitializer, List.takeWhile_cons_of_pos (by simp [named]),
      List.takeWhile_append_of_pos kept, none, List.append_nil]
  have called : Token.firstName? (token :: sizes) = some name := by
    rw [Token.firstName?, List.findSome?_cons, named]
    rfl
  have dimensions : ((token :: sizes).countP fun token => token.lexeme = .closing .square) =
      count := by
    rw [List.countP_cons, areSizes.countP_eq]
    simp [named]
  rw [ofGroup?, before, called, dimensions]
  rfl

theorem Listed.readGroups_eq (listed : Listed declarators declared) (tokens : List Token) :
    readGroups tokens (Token.groupsAt 0 declared) = .ok declarators := by
  induction listed generalizing tokens with
  | last spells =>
      obtain ⟨commas, _⟩ := spells.isContained.commas
      rw [Token.groupsAt_of_commasInside commas, readGroups, spells.ofGroup?_eq]
      rfl
  | cons spells isComma _ ih =>
      obtain ⟨commas, level⟩ := spells.isContained.commas
      rw [Token.groupsAt_append_of_commasInside commas level isComma, readGroups,
        spells.ofGroup?_eq]
      dsimp only
      rw [ih]
      rfl

/-! The kind of a statement -/

theorem isCallable_of_sizePart {inName : Bool} {token : Token} {rest : List Token}
    (part : token.lexeme.isSizePart) : Kind.isCallable 0 0 inName (token :: rest) =
      Kind.isCallable 0 0 (token.lexeme.namesOperator inName) rest := by
  rw [Kind.isCallable]
  dsimp only
  cases same : token.lexeme with
  | opening | closing =>
      rw [same] at part
      cases part
  | punctuation mark =>
      rw [same] at part
      cases mark with
      | comma | semicolon | equals => cases part
      | _ => rfl
  | _ => rfl

theorem isCallable_of_sizeParts {inName : Bool} {rest : List Token}
    (parts : ∀ token ∈ inside, token.lexeme.isSizePart) :
    ∃ inName', Kind.isCallable 0 0 inName (inside ++ rest) = Kind.isCallable 0 0 inName' rest := by
  induction inside generalizing inName with
  | nil => exact ⟨inName, rfl⟩
  | cons token inside ih =>
      obtain ⟨inName', same⟩ := @ih (token.lexeme.namesOperator inName)
        fun token mem => parts token (List.mem_cons_of_mem _ mem)
      rw [List.cons_append, isCallable_of_sizePart (parts token List.mem_cons_self)]
      exact ⟨inName', same⟩

/-- Array sizes decide no kind. -/
theorem Sizes.isCallable_append (areSizes : Sizes count sizes) (rest : List Token) :
    Kind.isCallable 0 0 false (sizes ++ rest) = Kind.isCallable 0 0 false rest := by
  have square : ∀ (token : Token) (inName : Bool) (rest : List Token),
      token.lexeme = .opening .square ∨ token.lexeme = .closing .square →
      Kind.isCallable 0 0 inName (token :: rest) = Kind.isCallable 0 0 false rest := by
    rintro token inName rest (same | same)
    · rw [Kind.isCallable, same]
      rfl
    · rw [Kind.isCallable, same]
      rfl
  induction areSizes with
  | nil => rfl
  | @cons opening closing inside more count opens parts closes _ ih =>
      obtain ⟨inName, within⟩ :=
        @isCallable_of_sizeParts inside false (closing :: (more ++ rest)) parts
      rw [List.cons_append, List.append_assoc, List.cons_append, square opening _ _ (.inl opens),
        within, square closing _ _ (.inr closes), ih]

/-- A declarator decides no kind, or it decides that there is no function. -/
theorem Spells.isCallable_append {inName : Bool} (spells : Spells declarator tokens)
    (rest : List Token) : Kind.isCallable 0 0 inName (tokens ++ rest) = false ∨
      Kind.isCallable 0 0 inName (tokens ++ rest) = Kind.isCallable 0 0 false rest := by
  obtain @⟨token, name, count, sizes, initializer, named, plain, areSizes, initializes⟩ := spells
  have behind : token.lexeme.namesOperator inName = false := by
    rw [named]
    exact decide_eq_false plain
  have part : token.lexeme.isSizePart := by
    rw [named]
    rfl
  have start : Kind.isCallable 0 0 inName (token :: (sizes ++ (initializer ++ rest))) =
      Kind.isCallable 0 0 false (initializer ++ rest) := by
    rw [isCallable_of_sizePart part, behind, areSizes.isCallable_append]
  rw [List.cons_append, List.append_assoc, start]
  cases initializes with
  | nil => exact .inr rfl
  | @value equals value isEquals _ =>
      refine .inl ?_
      rw [List.cons_append, Kind.isCallable, isEquals]
      rfl

/-- Declarators and a semicolon are no function, whatever the initializers hold. -/
theorem Listed.not_isCallable {semicolon : Token} (listed : Listed declarators declared)
    (ends : semicolon.lexeme = .punctuation .semicolon) (inName : Bool) (rest : List Token) :
    Kind.isCallable 0 0 inName (declared ++ semicolon :: rest) = false := by
  -- The first initializer decides; without any, the scan comes to the semicolon.
  induction listed generalizing inName with
  | last spells =>
      obtain decided | passed := @Spells.isCallable_append _ _ inName spells (semicolon :: rest)
      · exact decided
      · rw [passed, Kind.isCallable, ends]
        rfl
  | @cons declarator more tokens later comma spells isComma _ ih =>
      rw [List.append_assoc, List.cons_append]
      obtain decided | passed := @Spells.isCallable_append _ _ inName spells
        (comma :: (later ++ semicolon :: rest))
      · exact decided
      · rw [passed, Kind.isCallable, isComma]
        exact ih false

end Declarator

/-! ### Statements -/

/-- The built-in type that a keyword spells. -/
def Keyword.builtin? : Keyword → Option BaseType
  | .void => some .void
  | .int => some .int
  | .double => some .double
  | _ => none

def Lexeme.isMarker : Lexeme → Bool
  | .punctuation .star | .punctuation .ampersand | .keyword .const => true
  | _ => false

theorem Lexeme.eq_of_isMarker {lexeme : Lexeme} (marker : lexeme.isMarker) :
    lexeme = .punctuation .star ∨ lexeme = .punctuation .ampersand ∨ lexeme = .keyword .const := by
  cases lexeme with
  | punctuation mark =>
      cases mark with
      | star => exact .inl rfl
      | ampersand => exact .inr (.inl rfl)
      | _ => cases marker
  | keyword word =>
      cases word with
      | const => exact .inr (.inr rfl)
      | _ => cases marker
  | _ => cases marker

theorem Wrap.read_of_other {behindAmpersand : Bool} {rest : List Token}
    (ends : ∀ token ∈ rest.head?, token.lexeme.isMarker = false) :
    read behindAmpersand rest = ([], rest) := by
  cases rest with
  | nil => rfl
  | cons token rest =>
      have other := ends token rfl
      rw [read]
      split
      · next star =>
          rw [star] at other
          cases other
      · next ampersand =>
          rw [ampersand] at other
          cases other
      · next const =>
          rw [const] at other
          cases other
      · rfl

/-- Markers are read whatever stands behind them, if no marker does. -/
theorem Wrap.read_markers {behindAmpersand : Bool} {markers rest : List Token}
    (areMarkers : ∀ marker ∈ markers, marker.lexeme.isMarker)
    (ends : ∀ token ∈ rest.head?, token.lexeme.isMarker = false) :
    read behindAmpersand (markers ++ rest) = ((read behindAmpersand markers).1, rest) := by
  induction markers generalizing behindAmpersand with
  | nil => exact read_of_other ends
  | cons marker markers ih =>
      have later := fun behind => @ih behind fun other mem => areMarkers other (.tail _ mem)
      rw [List.cons_append, read.eq_def behindAmpersand (marker :: (markers ++ rest)),
        read.eq_def behindAmpersand (marker :: markers)]
      obtain star | ampersand | const := Lexeme.eq_of_isMarker (areMarkers marker (.head _))
      · simp only [star, later]
      · cases behindAmpersand with
        | false => simp only [ampersand, later, Bool.false_eq_true, if_false]
        | true => simp only [ampersand, later, if_true]
      · simp only [const, later]

namespace Variable

/-- The tokens of a statement, with the type in front of its declarators. -/
inductive Statement : CType → List Declarator → List Token → List Token → Prop
  | intro {base semicolon : Token} {word : Keyword} {builtin : BaseType}
      {markers declared : List Token} {declarators : List Declarator} :
      base.lexeme = .keyword word → word.builtin? = some builtin →
      (∀ marker ∈ markers, marker.lexeme.isMarker) → Declarator.Listed declarators declared →
      semicolon.lexeme = .punctuation .semicolon →
      Statement ⟨builtin, (Wrap.read false markers).1⟩ declarators declared
        (base :: (markers ++ (declared ++ [semicolon])))

variable {type : CType} {declarators : List Declarator} {declared statement : List Token}

theorem isSizePart_of_builtin {base : Token} {word : Keyword} (same : base.lexeme = .keyword word) :
    base.lexeme.isSizePart := by
  rw [same]
  rfl

theorem isSizePart_of_isMarker {lexeme : Lexeme} (marker : lexeme.isMarker) :
    lexeme.isSizePart := by
  obtain rfl | rfl | rfl := Lexeme.eq_of_isMarker marker <;> rfl

/-- A statement is no function. -/
theorem Statement.kind?_append (isStatement : Statement type declarators declared statement)
    (rest : List Token) : Item.kind? none false (statement ++ rest) = some .variableList := by
  obtain @⟨base, semicolon, word, builtin, markers, declared, declarators, spelled, isBuiltin,
    areMarkers, listed, ends⟩ := isStatement
  have whole : base :: (markers ++ (declared ++ [semicolon])) ++ rest =
      base :: (markers ++ (declared ++ semicolon :: rest)) := by simp
  have parts : ∀ token ∈ base :: markers, token.lexeme.isSizePart := by
    intro token mem
    obtain rfl | mem := List.mem_cons.1 mem
    · exact isSizePart_of_builtin spelled
    · exact isSizePart_of_isMarker (areMarkers token mem)
  obtain ⟨inName, passed⟩ := @Declarator.isCallable_of_sizeParts _ false
    (declared ++ semicolon :: rest) parts
  have callable := passed.trans (listed.not_isCallable ends inName rest)
  have keyword : Kind.ofKeyword? (base :: (markers ++ (declared ++ semicolon :: rest))) = none := by
    rw [Kind.ofKeyword?, spelled]
    cases word with
    | void | int | double => rfl
    | _ => cases isBuiltin
  rw [whole]
  refine Item.kind?_eq_some_iff.2 ⟨base, _, rfl, by simp [spelled, Lexeme.isSemicolon], ?_⟩
  rw [List.cons_append] at callable
  rw [Kind.ofTokens, keyword, callable]
  rfl

theorem read_of_builtin {beyond : List Char} {base : Token} {word : Keyword} {builtin : BaseType}
    {markers rest : List Token} (spelled : base.lexeme = .keyword word)
    (isBuiltin : word.builtin? = some builtin)
    (areMarkers : ∀ marker ∈ markers, marker.lexeme.isMarker)
    (ends : ∀ token ∈ rest.head?, token.lexeme.isMarker = false) :
    CType.read beyond (base :: (markers ++ rest)) =
      .ok (⟨builtin, (Wrap.read false markers).1⟩, rest) := by
  have dropped : Token.dropSpecifiers false (base :: (markers ++ rest)) =
      base :: (markers ++ rest) := by
    rw [Token.dropSpecifiers, spelled]
    cases word with
    | void | int | double => rfl
    | _ => cases isBuiltin
  have named : BaseType.read beyond (base :: (markers ++ rest)) =
      .ok (builtin, markers ++ rest) := by
    rw [BaseType.read, spelled]
    cases word with
    | void | int | double =>
        cases isBuiltin
        rfl
    | _ => cases isBuiltin
  rw [CType.read, dropped, named]
  dsimp only [Bind.bind, Except.bind]
  rw [Wrap.read_markers areMarkers ends]
  rfl

/-- A statement is read as its declarators behind the type. -/
theorem Statement.read_append {scope : Scope}
    (isStatement : Statement type declarators declared statement) (rest : List Token) :
    ∃ left, read scope (statement ++ rest) = (Failure.standing left
      (ofDeclarators scope type (Token.nameOf declared) declarators)).map
        fun found => (found.outcome, rest) := by
  obtain @⟨base, semicolon, word, builtin, markers, declared, declarators, spelled, isBuiltin,
    areMarkers, listed, ends⟩ := isStatement
  have whole : base :: (markers ++ (declared ++ [semicolon])) ++ rest =
      base :: (markers ++ (declared ++ semicolon :: rest)) := by simp
  -- The name stops the markers, and the semicolon is the first one outside brackets.
  obtain ⟨first, more, name, rfl, named⟩ := listed.exists_name
  obtain ⟨none, level⟩ := listed.noneOutside
  have typed := @read_of_builtin scope.beyond _ _ _ _ (first :: more ++ semicolon :: rest) spelled
    isBuiltin areMarkers (by simp [named, Lexeme.isMarker])
  have split := Token.splitOutside_of_none none level (by rw [ends]; rfl) rest
  have placeholder : isPlaceholder (base :: (markers ++ (first :: more ++ semicolon :: rest)))
      (first :: more) ⟨builtin, (Wrap.read false markers).1⟩ = false := by
    simp [isPlaceholder, named]
  have dropped : Token.dropSemicolon (semicolon :: rest) = rest := by
    rw [Token.dropSemicolon, if_pos (by rw [ends]; rfl)]
  refine ⟨first :: more ++ semicolon :: rest, ?_⟩
  rw [whole, read, typed]
  dsimp only [Bind.bind, Except.bind]
  rw [split]
  dsimp only
  rw [placeholder, dropped, if_neg Bool.false_ne_true, List.isEmpty_cons, if_neg Bool.false_ne_true,
    Token.groups, List.isEmpty_cons, if_neg Bool.false_ne_true, listed.readGroups_eq]
  dsimp only
  generalize Failure.standing _ _ = found
  cases found with
  | ok => rfl
  | error => rfl

theorem ofDeclarators_of_equal {scope : Scope} {text : String} {count : Nat}
    (some : declarators ≠ []) (equal : ∀ declarator ∈ declarators, declarator.dimensions = count) :
    ofDeclarators scope type text declarators =
      .ok ⟨⟨type.base, type.wraps ++ if count = 0 then [] else [.array count]⟩,
        ", ".intercalate (declarators.map Declarator.name), scope.isNested⟩ := by
  obtain ⟨first, more, rfl⟩ := List.exists_cons_of_ne_nil some
  have here := equal first List.mem_cons_self
  rw [ofDeclarators, here, if_pos]
  rw [List.all_eq_true]
  intro declarator mem
  exact decide_eq_true (equal declarator (List.mem_cons_of_mem _ mem))

theorem ofDeclarators_of_unequal {scope : Scope} {text : String} {one other : Declarator}
    (mem : one ∈ declarators) (mem' : other ∈ declarators)
    (unequal : one.dimensions ≠ other.dimensions) :
    ofDeclarators scope type text declarators = .error (.unequalArrayDepths text) := by
  obtain ⟨first, more, rfl⟩ := List.exists_cons_of_ne_nil (List.ne_nil_of_mem mem)
  rw [ofDeclarators, if_neg]
  intro equal
  have same : ∀ declarator ∈ first :: more, declarator.dimensions = first.dimensions := by
    intro declarator among
    obtain rfl | among := List.mem_cons.1 among
    · rfl
    · exact of_decide_eq_true (List.all_eq_true.1 equal declarator among)
  exact unequal ((same one mem).trans (same other mem').symm)

theorem Statement.isBuiltin (isStatement : Statement type declarators declared statement) :
    type.base.isBuiltin := by
  obtain @⟨_, _, word, builtin, _, _, _, _, isBuiltin, _, _, _⟩ := isStatement
  cases word with
  | void | int | double =>
      cases isBuiltin
      rfl
  | _ => cases isBuiltin

theorem Statement.declarators_ne_nil
    (isStatement : Statement type declarators declared statement) : declarators ≠ [] := by
  obtain ⟨_, _, _, listed, _⟩ := isStatement
  cases listed <;> exact List.cons_ne_nil _ _

end Variable

namespace Parser

/-- A statement declares one variable when its declarators have the same dimensions, whatever their
initializers hold, and it fails when two of them differ. -/
theorem itemAndRest_statement {text : List Char} {lexed : Lexed} {type : CType}
    {declarators : List Declarator} {declared statement rest : List Token}
    (lexes : Lexed.ofText text = .ok lexed) (whole : lexed.tokens = statement ++ rest)
    (isStatement : Variable.Statement type declarators declared statement) :
    (∀ count, (∀ declarator ∈ declarators, declarator.dimensions = count) →
      itemAndRest none text =
        .ok (some (.ofVariable
            ⟨⟨type.base, type.wraps ++ if count = 0 then [] else [.array count]⟩,
              ", ".intercalate (declarators.map Declarator.name), false⟩),
          if rest.isEmpty then none else some (Text.trim (Token.sourceOf rest)))) ∧
    ∀ one ∈ declarators, ∀ other ∈ declarators, one.dimensions ≠ other.dimensions →
      itemAndRest none text = .error (.unequalArrayDepths (Token.nameOf declared)) := by
  have starts := isStatement.kind?_append rest
  obtain ⟨left, read⟩ :=
    @Variable.Statement.read_append _ _ _ _ (Scope.ofOwner none) isStatement rest
  rw [← whole] at starts read
  constructor
  · intro count equal
    have agreed := @Variable.ofDeclarators_of_equal type _ (Scope.ofOwner none)
      (Token.nameOf declared) _ isStatement.declarators_ne_nil equal
    rw [agreed] at read
    have found : Item.readPlain (Scope.ofOwner none) false .variableList lexed.tokens =
        .ok (Variable.outcome _, rest) := read
    rw [Variable.outcome_of_builtin isStatement.isBuiltin] at found
    exact itemAndRest_eq_ok_iff.2 ⟨lexed, [], rest, lexes, .plain starts rfl found, rfl⟩
  · intro one mem other mem' unequal
    rw [Variable.ofDeclarators_of_unequal mem mem' unequal] at read
    exact @itemAndRest_of_failure none _ _ _ _ lexes starts rfl read

theorem itemAndRest_two_statements :
    itemAndRest none "int *a[2] = {f<1, 2>(3)}, b[n]; z".toList =
      .ok (some (.ofVariable ⟨⟨.int, [.star, .array 1]⟩, "a, b", false⟩), some "z".toList) ∧
    itemAndRest none "int a, b[n];".toList = .error (.unequalArrayDepths "a, b[n]") := by
  constructor
  · let size : List Token := [⟨.number "2", 7, []⟩]
    let sizes : List Token :=
      ⟨.opening .square, 6, []⟩ :: (size ++ [⟨.closing .square, 8, [' ']⟩])
    let value : List Token := [⟨.opening .curly, 12, []⟩, ⟨.identifier "f", 13, []⟩,
      ⟨.opening .angle, 14, []⟩, ⟨.number "1", 15, []⟩, ⟨.punctuation .comma, 16, [' ']⟩,
      ⟨.number "2", 18, []⟩, ⟨.closing .angle, 19, []⟩, ⟨.opening .round, 20, []⟩,
      ⟨.number "3", 21, []⟩, ⟨.closing .round, 22, []⟩, ⟨.closing .curly, 23, []⟩]
    let first : List Token :=
      ⟨.identifier "a", 5, []⟩ :: (sizes ++ ⟨.punctuation .equals, 10, [' ']⟩ :: value)
    let size' : List Token := [⟨.identifier "n", 28, []⟩]
    let sizes' : List Token :=
      ⟨.opening .square, 27, []⟩ :: (size' ++ [⟨.closing .square, 29, []⟩])
    let second : List Token := ⟨.identifier "b", 26, []⟩ :: (sizes' ++ [])
    let declared : List Token := first ++ ⟨.punctuation .comma, 24, [' ']⟩ :: second
    let markers : List Token := [⟨.punctuation .star, 4, []⟩]
    let statement : List Token := ⟨.keyword .int, 0, [' ']⟩ ::
      (markers ++ (declared ++ [⟨.punctuation .semicolon, 30, [' ']⟩]))
    let rest : List Token := [⟨.identifier "z", 32, []⟩]
    have lexes : Lexed.ofText "int *a[2] = {f<1, 2>(3)}, b[n]; z".toList =
        .ok ⟨[], statement ++ rest⟩ := by cbv
    have contained : Token.IsContained value := by decide
    have parts : ∀ token ∈ size, token.lexeme.isSizePart := by decide
    have parts' : ∀ token ∈ size', token.lexeme.isSizePart := by decide
    have areSizes : Declarator.Sizes 1 sizes := .cons rfl parts rfl .nil
    have areSizes' : Declarator.Sizes 1 sizes' := .cons rfl parts' rfl .nil
    have listed : Declarator.Listed [⟨"a", 1⟩, ⟨"b", 1⟩] declared :=
      .cons (.intro rfl (by decide) areSizes (.value rfl contained)) rfl
        (.last (.intro rfl (by decide) areSizes' .nil))
    have areMarkers : ∀ marker ∈ markers, marker.lexeme.isMarker := by decide
    have isStatement : Variable.Statement ⟨.int, [.star]⟩ _ declared statement :=
      .intro rfl rfl areMarkers listed rfl
    exact (itemAndRest_statement lexes rfl isStatement).1 1 (by decide)
  · let size : List Token := [⟨.identifier "n", 9, []⟩]
    let sizes : List Token :=
      ⟨.opening .square, 8, []⟩ :: (size ++ [⟨.closing .square, 10, []⟩])
    let declared : List Token := (⟨.identifier "a", 4, []⟩ :: ([] ++ [])) ++
      ⟨.punctuation .comma, 5, [' ']⟩ :: ⟨.identifier "b", 7, []⟩ :: (sizes ++ [])
    let markers : List Token := []
    let statement : List Token := ⟨.keyword .int, 0, [' ']⟩ ::
      (markers ++ (declared ++ [⟨.punctuation .semicolon, 11, []⟩]))
    have lexes : Lexed.ofText "int a, b[n];".toList = .ok ⟨[], statement ++ []⟩ := by cbv
    have parts : ∀ token ∈ size, token.lexeme.isSizePart := by decide
    have areSizes : Declarator.Sizes 1 sizes := .cons rfl parts rfl .nil
    have listed : Declarator.Listed [⟨"a", 0⟩, ⟨"b", 1⟩] declared :=
      .cons (.intro rfl (by decide) .nil .nil) rfl (.last (.intro rfl (by decide) areSizes .nil))
    have areMarkers : ∀ marker ∈ markers, marker.lexeme.isMarker := by decide
    have isStatement : Variable.Statement ⟨.int, []⟩ _ declared statement :=
      .intro rfl rfl areMarkers listed rfl
    have failed := (itemAndRest_statement lexes rfl isStatement).2 ⟨"a", 0⟩ (by decide) ⟨"b", 1⟩
      (by decide) (by decide)
    have name : Token.nameOf declared = "a, b[n]" := by decide
    rwa [name] at failed

end Parser

end PxdStub
