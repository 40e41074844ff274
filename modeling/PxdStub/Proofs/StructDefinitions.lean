import PxdStub.Proofs.DefaultValues
import PxdStub.Proofs.LeadingSpecifiers
import PxdStub.Proofs.VariableStatements

/-!
Struct definitions. A definition without bases is passed over in silence, whatever its body holds. A
colon behind the name makes the bases and the body declarators, so that a definition with bases is
never passed over.
-/

namespace PxdStub

/-! ### Bodies in braces -/

namespace Token

variable {stack stack' : List Bracket} {token : Token} {tokens : List Token}

theorem openBehind?_append (opened : openBehind? stack token = some stack')
    (outer : List Bracket) : openBehind? (stack ++ outer) token = some (stack' ++ outer) := by
  unfold openBehind? at opened ⊢
  split at opened
  · cases opened
    rfl
  · cases opened
    rfl
  · cases opened
    rfl
  · rw [shut?_eq_some_iff] at opened ⊢
    rw [opened]
    rfl
  · cases opened
    rfl

theorem foldlM_openBehind?_append (opened : tokens.foldlM openBehind? stack = some stack')
    (outer : List Bracket) :
    tokens.foldlM openBehind? (stack ++ outer) = some (stack' ++ outer) := by
  induction tokens generalizing stack with
  | nil =>
      cases opened
      rfl
  | cons token rest ih =>
      obtain ⟨inner, first, later⟩ := Option.bind_eq_some_iff.1 opened
      rw [List.foldlM_cons, openBehind?_append first]
      exact ih later

/-- Nothing in a body stands outside the brace that opens it. -/
theorem noneOutside_of_closes (closed : closes [] tokens) (stop : Lexeme → Bool) :
    NoneOutside stop 1 tokens ∧ tokens.foldl nesting 1 = 1 := by
  have opened := closes_iff.1 closed
  refine ⟨?_, foldl_nesting (foldlM_openBehind?_append opened [.curly])⟩
  rintro front token rest rfl outside
  rw [List.foldlM_append] at opened
  obtain ⟨inner, first, _⟩ := Option.bind_eq_some_iff.1 opened
  have depth := foldl_nesting (foldlM_openBehind?_append first [.curly])
  have none : inner.length + 1 = 0 := by
    rw [← outside]
    exact (List.length_append.symm.trans depth.symm)
  cases none

end Token

namespace Kind

theorem bracesBehind_of_other {lexeme : Lexeme} (opening : lexeme ≠ .opening .curly)
    (closing : lexeme ≠ .closing .curly) (braces : Nat) : bracesBehind braces lexeme = braces := by
  unfold bracesBehind
  split
  · exact absurd rfl opening
  · exact absurd rfl closing
  · rfl

/-- Inside braces nothing decides. -/
theorem isCallable_inside {braces angles : Nat} {inName : Bool} {token : Token}
    {rest : List Token} : isCallable (braces + 1) angles inName (token :: rest) =
      isCallable (bracesBehind (braces + 1) token.lexeme) angles
        (token.lexeme.namesOperator inName) rest := by
  have inside : decide (braces + 1 = 0) = false := rfl
  rw [isCallable.eq_def]
  dsimp only
  cases token.lexeme with
  | opening bracket | closing bracket =>
      cases bracket <;> simp [bracesBehind]
  | punctuation mark => cases mark <;> simp [bracesBehind]
  | _ => rfl

theorem isCallable_of_closes {stack : List Bracket} {body : List Token}
    (closed : Token.closes stack body) (inName : Bool) (rest : List Token) : ∃ inName',
      isCallable (stack.count .curly + 1) 0 inName (body ++ rest) =
        isCallable 1 0 inName' rest := by
  induction body generalizing stack inName with
  | nil =>
      rw [List.isEmpty_iff.1 closed]
      exact ⟨inName, rfl⟩
  | cons token body ih =>
      obtain ⟨stack', opened, closed⟩ := Token.closes_cons.1 closed
      obtain ⟨opens, shuts, others⟩ := @Token.count_of_openBehind? .curly nofun _ _ _ opened
      have level : bracesBehind (stack.count .curly + 1) token.lexeme =
          stack'.count .curly + 1 := by
        by_cases opening : token.lexeme = .opening .curly
        · rw [opens opening, opening]
          rfl
        · by_cases closing : token.lexeme = .closing .curly
          · rw [← shuts closing, closing]
            rfl
          · rw [others opening closing, bracesBehind_of_other opening closing]
      rw [List.cons_append, isCallable_inside, level]
      exact ih closed _

end Kind

/-- A struct definition from its keyword to its semicolon. -/
structure StructDefinition where
  word : Token
  name : Token
  base : List Token
  opening : Token
  body : List Token
  close : Token
  semicolon : Token

namespace StructDefinition

def tokens (definition : StructDefinition) : List Token :=
  definition.word :: definition.name :: (definition.base ++
    definition.opening :: (definition.body ++ [definition.close, definition.semicolon]))

/-- Bases begin with a colon, and brackets match in the body. -/
structure IsFormed (definition : StructDefinition) (name : String) : Prop where
  word : definition.word.lexeme = .keyword .structKey
  name : definition.name.lexeme = .identifier name
  base : ∀ first ∈ definition.base.head?, first.lexeme = .punctuation .colon
  opening : definition.opening.lexeme = .opening .curly
  body : Token.closes [] definition.body
  close : definition.close.lexeme = .closing .curly
  semicolon : definition.semicolon.lexeme = .punctuation .semicolon

end StructDefinition

/-! ### The type and what stands behind it -/

theorem CType.read_of_structKey {beyond : List Char} {word name next : Token} {rest : List Token}
    {text : String} (struct : word.lexeme = .keyword .structKey)
    (named : name.lexeme = .identifier text)
    (ends : next.lexeme = .opening .curly ∨ next.lexeme = .punctuation .colon) :
    read beyond (word :: name :: next :: rest) = .ok (⟨.tagged text, []⟩, next :: rest) := by
  have scopes : Token.scopedNames (next :: rest) = ("", next :: rest) := by
    refine Token.scopedNames_of_other ?_
    rintro colons token more name ⟨⟩ scope
    obtain same | same := ends <;> cases same.symm.trans scope
  have qualified : Token.qualifiedName (name :: next :: rest) = .ok (text, next :: rest) := by
    rw [Token.qualifiedName, if_neg (by simp [named]), Token.unscopedName, named]
    dsimp only
    rw [scopes, String.append_empty]
  have wraps : Wrap.read false (next :: rest) = ([], next :: rest) := by
    obtain same | same := ends <;> rw [Wrap.read, same]
  have first : Token.dropSpecifiers false (word :: name :: next :: rest) =
      word :: name :: next :: rest := by
    simp [Token.dropSpecifiers, struct, Lexeme.isSpecifier]
  rw [read, first, BaseType.read, struct]
  dsimp only
  rw [qualified]
  change Except.ok (CType.mk _ (Wrap.read false (next :: rest)).1, _) = _
  rw [wraps]

namespace Item

variable {scope : Scope}

theorem kind?_of_structKey {word : Token} {rest : List Token} (owner : Option String)
    (struct : word.lexeme = .keyword .structKey) : kind? owner false (word :: rest) =
      some (if Kind.isCallable 0 0 false (word :: rest) then .function else .variableList) := by
  refine kind?_eq_of_unowned ?_ (by rw [Kind.ofKeyword?, struct])
    (by simp [struct, Lexeme.isSemicolon])
  cases owner with
  | none => rfl
  | some owner => exact Kind.ofOwner?_of_keyword struct

end Item

/-- A function is emitted or omitted with a warning. -/
theorem Signature.outcome_leaves_trace (scope : Scope) (kind : FunctionKind)
    (signature : Signature) : (signature.outcome scope kind).declaration? ≠ none ∨
      Note.omissions (signature.outcome scope kind).notes ≠ [] := by
  unfold Signature.outcome
  split
  · exact .inr (List.cons_ne_nil _ _)
  · split
    · exact .inr (List.cons_ne_nil _ _)
    · exact .inl nofun

/-- Behind a struct's name and a colon stand declarators, and no stub has variables of a struct. -/
theorem Variable.omitted_of_colon {scope : Scope} {tokens rest after : List Token} {colon : Token}
    {text : String} {outcome : Outcome}
    (typed : CType.read scope.beyond tokens = .ok (⟨.tagged text, []⟩, colon :: rest))
    (isColon : colon.lexeme = .punctuation .colon)
    (found : read scope tokens = .ok (outcome, after)) :
    ∃ omission, outcome = .omitted omission := by
  rw [read, typed] at found
  dsimp only [Bind.bind, Except.bind] at found
  obtain ⟨declared, split⟩ : ∃ declared, Token.splitOutside Lexeme.isSemicolon 0 (colon :: rest) =
      (colon :: declared, (Token.splitOutside Lexeme.isSemicolon 0 (colon :: rest)).2) := by
    rw [Token.splitOutside, if_neg (by simp [isColon, Lexeme.isSemicolon])]
    exact ⟨_, rfl⟩
  rw [split] at found
  have noPlaceholder : ∀ type, isPlaceholder tokens (colon :: declared) type = false := by
    intro type
    simp [isPlaceholder, isColon]
  dsimp only at found
  rw [noPlaceholder, if_neg Bool.false_ne_true, List.isEmpty_cons,
    if_neg Bool.false_ne_true] at found
  obtain ⟨declarators, _, found⟩ := Except.bind_ok_iff.1 found
  obtain ⟨variable', agreed, done⟩ := Except.bind_ok_iff.1 found
  cases done
  have base := base_of_ofDeclarators (Failure.standing_ok_iff.1 agreed)
  rw [Variable.outcome, base]
  exact ⟨_, rfl⟩

namespace Item

/-- With a colon behind its name a struct leaves a trace, or it is an error. -/
theorem answer_of_colon {scope : Scope} {word name colon : Token} {rest : List Token}
    {text : String} {told : Answer} (struct : word.lexeme = .keyword .structKey)
    (named : name.lexeme = .identifier text) (isColon : colon.lexeme = .punctuation .colon)
    (found : answer scope false (word :: name :: colon :: rest) = .ok told) :
    told.declaration? ≠ none ∨ told.omissions ≠ [] := by
  have typed := @CType.read_of_structKey scope.beyond _ _ _ rest _ struct named (.inr isColon)
  have starts := @kind?_of_structKey word (name :: colon :: rest) scope.owner struct
  split at starts
  · obtain ⟨outcome, after, read, rfl⟩ := (answer_eq_ok_iff_of_isPlain starts rfl).1 found
    obtain ⟨_, _, signature, _, _, _, _, rfl⟩ := Function.read_ok_iff.1 read
    exact signature.outcome_leaves_trace _ _
  · obtain ⟨outcome, after, read, rfl⟩ := (answer_eq_ok_iff_of_isPlain starts rfl).1 found
    obtain ⟨omission, rfl⟩ := Variable.omitted_of_colon typed isColon read
    exact .inr (List.cons_ne_nil _ _)

end Item

/-! ### Definitions without bases -/

namespace StructDefinition.IsFormed

variable {definition : StructDefinition} {name : String} (formed : definition.IsFormed name)
  (plain : definition.base = [])

include formed plain

theorem isSealed (later : List Token) : Token.Sealed later definition.tokens := by
  have body := Token.foldlM_openBehind?_append (Token.closes_iff.1 formed.body) [.curly]
  rw [List.nil_append] at body
  refine .inr ⟨⟨[], Token.closes_iff.2 ?_⟩, ?_⟩
  · rw [tokens, plain]
    simp [Token.openBehind?, formed.word, formed.name, formed.opening, body, formed.close,
      formed.semicolon, Token.shut?]
  · have whole : definition.tokens = (definition.word :: definition.name :: (definition.base ++
        definition.opening :: (definition.body ++ [definition.close]))) ++
          [definition.semicolon] := by
      simp [tokens]
    rw [whole, Token.endsInSemicolon_append (List.cons_ne_nil _ _)]
    exact decide_eq_true formed.semicolon

theorem not_isCallable : Kind.isCallable 0 0 false definition.tokens = false := by
  have ends : ∀ inName,
      Kind.isCallable 1 0 inName [definition.close, definition.semicolon] = false := by
    intro inName
    rw [Kind.isCallable, formed.close]
    dsimp only
    rw [Kind.isCallable, formed.semicolon]
    rfl
  have braces : ∀ inName, Kind.isCallable 0 0 inName (definition.opening ::
      (definition.body ++ [definition.close, definition.semicolon])) = false := by
    intro inName
    obtain ⟨inName', behind⟩ := Kind.isCallable_of_closes formed.body
      (definition.opening.lexeme.namesOperator inName) [definition.close, definition.semicolon]
    rw [Kind.isCallable, formed.opening]
    rw [formed.opening] at behind
    exact behind.trans (ends inName')
  rw [tokens, plain, List.nil_append, Kind.isCallable, formed.word]
  dsimp only
  rw [Kind.isCallable, formed.name]
  exact braces _

theorem read_eq (scope : Scope) : ∃ text, Variable.read scope definition.tokens =
    .ok (.passed [.skipped text], []) := by
  obtain ⟨none, level⟩ := Token.noneOutside_of_closes formed.body Lexeme.isSemicolon
  have split : Token.splitOutside Lexeme.isSemicolon 0 (definition.opening ::
      (definition.body ++ [definition.close, definition.semicolon])) =
      (definition.opening :: (definition.body ++ [definition.close]), [definition.semicolon]) := by
    have first : Token.nesting 0 definition.opening = 1 := by rw [Token.nesting, formed.opening]
    have last : Token.nesting 1 definition.close = 0 := by rw [Token.nesting, formed.close]
    have closing : Token.NoneOutside Lexeme.isSemicolon 1 [definition.close] :=
      .cons (fun outside => by cases outside) (fun _ _ _ same => absurd same (by simp))
    have inside : Token.NoneOutside Lexeme.isSemicolon 0
        (definition.opening :: (definition.body ++ [definition.close])) := by
      refine .cons (fun _ => by rw [formed.opening]; rfl) ?_
      rw [first]
      exact none.append (by rwa [level])
    have whole := Token.splitOutside_of_none inside
      (by rw [List.foldl_cons, List.foldl_append, first, level, List.foldl_cons, last]; rfl)
      (decide_eq_true formed.semicolon) []
    rwa [List.cons_append, List.append_assoc] at whole
  have typed := @CType.read_of_structKey scope.beyond definition.word definition.name
    definition.opening (definition.body ++ [definition.close, definition.semicolon]) name
    formed.word formed.name (.inl formed.opening)
  have after : Token.dropSemicolon [definition.semicolon] = [] := by
    rw [Token.dropSemicolon, formed.semicolon]
    rfl
  have placeholder : ∀ item, Variable.isPlaceholder item
      (definition.opening :: (definition.body ++ [definition.close])) ⟨.tagged name, []⟩ := by
    intro item
    simp [Variable.isPlaceholder, formed.opening]
  rw [tokens, plain, List.nil_append, Variable.read, typed]
  dsimp only [Bind.bind, Except.bind]
  rw [split]
  dsimp only
  rw [placeholder, if_pos rfl, after]
  exact ⟨_, rfl⟩

/-- A struct without bases is passed over without a warning. -/
theorem reads (scope : Scope) : Item.Reads scope false definition.tokens none [] [] := by
  obtain ⟨text, read⟩ := formed.read_eq plain scope
  have starts := @Item.kind?_of_structKey definition.word definition.tokens.tail scope.owner
    formed.word
  have isVariable : Item.kind? scope.owner false definition.tokens = some .variableList := by
    have none := formed.not_isCallable plain
    rw [tokens] at none
    rw [tokens, List.tail_cons, none] at starts
    exact starts
  exact .plain isVariable rfl read

end StructDefinition.IsFormed

namespace Parser

variable {owner : Option String} {front behind : List Char} {lexed lexedBehind : Lexed}
  {definition : StructDefinition} {name : String}

/-- A struct definition without bases leaves no trace in front of any text, and one with bases
leaves a trace or is an error. -/
theorem answer_struct (lexes : Lexed.ofText front = .ok lexed)
    (defines : lexed.tokens = definition.tokens) (formed : definition.IsFormed name)
    (bare : Token.endsBare lexed.tokens) (lexesBehind : Lexed.ofText behind = .ok lexedBehind) :
    (definition.base = [] → answer owner (front ++ ' ' :: behind) =
      .ok ⟨none, [], Token.sourceOf? lexedBehind.tokens⟩) ∧
    (definition.base ≠ [] → ∀ told, answer owner (front ++ ' ' :: behind) = .ok told →
      told.declaration? ≠ none ∨ told.omissions ≠ []) := by
  obtain ⟨tokens, later, whole, fits, moved⟩ :=
    Lexed.ofText_append_blank lexes bare lexesBehind
  rw [defines] at fits
  rw [answer_of_ofText whole]
  constructor
  · intro plain
    have reads := formed.reads plain (Scope.ofOwner owner)
    obtain ⟨rest, reads', fits'⟩ := reads.agree ⟨rfl, rfl⟩ fits (formed.isSealed plain later)
    cases fits'
    exact Item.answer_eq_ok_iff.2 ⟨later, reads', moved.sourceOf?_eq.symm⟩
  · intro some told found
    obtain ⟨colon, base, based⟩ := List.exists_cons_of_ne_nil some
    have isColon := formed.base colon (by rw [based]; rfl)
    rw [StructDefinition.tokens, based] at fits
    obtain _ | ⟨word, _, fits⟩ := fits
    obtain _ | ⟨named, _, fits⟩ := fits
    obtain _ | ⟨colon', _, fits⟩ := fits
    exact Item.answer_of_colon (word.trans formed.word) (named.trans formed.name)
      (colon'.trans isColon) found

theorem answer_struct_body :
    answer none "struct P { int a[2], f(); }; int x;".toList =
        .ok ⟨none, [], some "int x;".toList⟩ ∧
      ∀ told, answer none "struct P : B {}; int x;".toList = .ok told →
        told.declaration? ≠ none ∨ told.omissions ≠ [] := by
  let behind : List Token := [⟨.keyword .int, 0, [' ']⟩, ⟨.identifier "x", 4, []⟩,
    ⟨.punctuation .semicolon, 5, []⟩]
  have lexesBehind : Lexed.ofText "int x;".toList = .ok ⟨[], behind⟩ := by cbv
  constructor
  · let body : List Token := [⟨.keyword .int, 11, [' ']⟩, ⟨.identifier "a", 15, []⟩,
      ⟨.opening .square, 16, []⟩, ⟨.number "2", 17, []⟩, ⟨.closing .square, 18, []⟩,
      ⟨.punctuation .comma, 19, [' ']⟩, ⟨.identifier "f", 21, []⟩, ⟨.opening .round, 22, []⟩,
      ⟨.closing .round, 23, []⟩, ⟨.punctuation .semicolon, 24, [' ']⟩]
    let definition : StructDefinition := ⟨⟨.keyword .structKey, 0, [' ']⟩,
      ⟨.identifier "P", 7, [' ']⟩, [], ⟨.opening .curly, 9, [' ']⟩, body,
      ⟨.closing .curly, 26, []⟩, ⟨.punctuation .semicolon, 27, []⟩⟩
    have lexes : Lexed.ofText "struct P { int a[2], f(); };".toList =
        .ok ⟨[], definition.tokens⟩ := by cbv
    have formed : definition.IsFormed "P" := by
      refine ⟨rfl, rfl, ?_, rfl, by decide, rfl, rfl⟩
      rintro _ ⟨⟩
    exact (@answer_struct none _ _ _ _ _ _ lexes rfl formed (by decide) lexesBehind).1 rfl
  · let definition : StructDefinition := ⟨⟨.keyword .structKey, 0, [' ']⟩,
      ⟨.identifier "P", 7, [' ']⟩, [⟨.punctuation .colon, 9, [' ']⟩, ⟨.identifier "B", 11, [' ']⟩],
      ⟨.opening .curly, 13, []⟩, [], ⟨.closing .curly, 14, []⟩,
      ⟨.punctuation .semicolon, 15, []⟩⟩
    have lexes : Lexed.ofText "struct P : B {};".toList = .ok ⟨[], definition.tokens⟩ := by cbv
    have formed : definition.IsFormed "P" := by
      refine ⟨rfl, rfl, ?_, rfl, rfl, rfl, rfl⟩
      rintro _ ⟨⟩
      rfl
    exact (@answer_struct none _ _ _ _ _ _ lexes rfl formed (by decide) lexesBehind).2
      (List.cons_ne_nil _ _)

/-- The bases of a struct are taken for declarators. -/
theorem answer_struct_bases :
    answer none "struct S : B { int a; }; int x;".toList =
        .ok ⟨none, [⟨"B", "S"⟩], some "int x;".toList⟩ ∧
      answer none "struct S : B, C { int a[3]; };".toList =
        .error (.unequalArrayDepths ": B, C { int a[3]; }") := by
  constructor
  · let declared : List Token := [⟨.punctuation .colon, 9, [' ']⟩, ⟨.identifier "B", 11, [' ']⟩,
      ⟨.opening .curly, 13, [' ']⟩, ⟨.keyword .int, 15, [' ']⟩, ⟨.identifier "a", 19, []⟩,
      ⟨.punctuation .semicolon, 20, [' ']⟩, ⟨.closing .curly, 22, []⟩]
    let behind : List Token := [⟨.keyword .int, 25, [' ']⟩, ⟨.identifier "x", 29, []⟩,
      ⟨.punctuation .semicolon, 30, []⟩]
    let tokens : List Token := ⟨.keyword .structKey, 0, [' ']⟩ :: ⟨.identifier "S", 7, [' ']⟩ ::
      (declared ++ ⟨.punctuation .semicolon, 23, [' ']⟩ :: behind)
    have lexes : Lexed.ofText "struct S : B { int a; }; int x;".toList = .ok ⟨[], tokens⟩ := by cbv
    have starts : Item.kind? none false tokens = some .variableList := by rfl
    have read : Item.readPlain .top false .variableList tokens =
        .ok (.omitted ⟨"B", "S"⟩, behind) := by rfl
    have told : Item.answer .top false tokens =
        .ok ⟨none, [⟨"B", "S"⟩], some "int x;".toList⟩ :=
      (Item.answer_eq_ok_iff_of_isPlain starts rfl).2 ⟨_, _, read, by rfl⟩
    rw [answer_of_ofText lexes]
    exact told
  · let declared : List Token := [⟨.punctuation .colon, 9, [' ']⟩, ⟨.identifier "B", 11, []⟩,
      ⟨.punctuation .comma, 12, [' ']⟩, ⟨.identifier "C", 14, [' ']⟩,
      ⟨.opening .curly, 16, [' ']⟩, ⟨.keyword .int, 18, [' ']⟩, ⟨.identifier "a", 22, []⟩,
      ⟨.opening .square, 23, []⟩, ⟨.number "3", 24, []⟩, ⟨.closing .square, 25, []⟩,
      ⟨.punctuation .semicolon, 26, [' ']⟩, ⟨.closing .curly, 28, []⟩]
    let tokens : List Token := ⟨.keyword .structKey, 0, [' ']⟩ :: ⟨.identifier "S", 7, [' ']⟩ ::
      (declared ++ [⟨.punctuation .semicolon, 29, []⟩])
    have lexes : Lexed.ofText "struct S : B, C { int a[3]; };".toList = .ok ⟨[], tokens⟩ := by cbv
    have starts : Item.kind? none false tokens = some .variableList := by rfl
    have read : Item.readPlain .top false .variableList tokens =
        .error ⟨.unequalArrayDepths ": B, C { int a[3]; }", tokens.drop 2⟩ := by rfl
    have told : Item.answer .top false tokens =
        .error (.unequalArrayDepths ": B, C { int a[3]; }") := by
      rw [Item.answer_of_isPlain starts rfl, read]
      rfl
    rw [answer_of_ofText lexes]
    exact told

end Parser

end PxdStub
