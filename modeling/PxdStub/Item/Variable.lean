import PxdStub.CType.Reader
import PxdStub.Item.Outcome

/-!
Variables: a type and declarators up to a semicolon.

    variable    ::= type declarator ("," declarator)* ";"
    declarator  ::= "*"* identifier ("[" expression? "]")* ["=" initializer]
-/

namespace PxdStub

/-- The tokens of a declarator or parameter in front of its initializer. -/
def Token.beforeInitializer (tokens : List Token) : List Token :=
  tokens.takeWhile fun token => token.lexeme != .punctuation .equals

def Token.firstName? (tokens : List Token) : Option String :=
  tokens.findSome? fun token => token.lexeme.identifier?

structure Declarator where
  name : String
  dimensions : Nat
  deriving DecidableEq, Repr

namespace Declarator

def ofGroup? (group : List Token) : Option Declarator :=
  let declared := Token.beforeInitializer group
  (Token.firstName? declared).map fun name =>
    ⟨name, declared.countP fun token => token.lexeme = .closing .square⟩

/-- The declarators of the groups at the start of `tokens`, where one token stands behind each
group. An error is about the token that the failing group starts at. -/
def readGroups (tokens : List Token) : List (List Token) → Except Failure (List Declarator)
  | [] => .ok []
  | group :: more =>
      match ofGroup? group with
      | some declarator =>
          (readGroups (tokens.drop (group.length + 1)) more).map fun later => declarator :: later
      | none => .error (.unexpected "a variable name" tokens)

end Declarator

namespace Variable

/-- A variable is bindable when its base type is built in. -/
def outcome (declared : Variable) : Outcome :=
  match declared.type.base with
  | .named _ | .tagged _ | .generic _ _ => .omitted ⟨declared.name, declared.type.render⟩
  | _ => .emitted (.ofVariable declared)

/-- Items such as `struct Point;`, `struct Point { ... };` and `friend class Bar;` declare no
variable: behind their type comes nothing or a brace. -/
def isPlaceholder (item declared : List Token) (type : CType) : Bool :=
  let friendly := item.head?.any fun token => token.lexeme = .identifier "friend"
  let plainTag := type.wraps.isEmpty && match type.base with
    | .tagged _ => true
    | _ => false
  (friendly || plainTag) && declared.head?.all fun token => token.lexeme = .opening .curly

/-- The variable of a type and declarators, which have to agree in their dimensions. -/
def ofDeclarators (scope : Scope) (type : CType) (text : String) :
    List Declarator → Except ParseError Variable
  | [] => .error (.unequalArrayDepths text)
  | first :: more =>
      if more.all fun declarator => declarator.dimensions = first.dimensions then
        let wraps := if first.dimensions = 0 then [] else [.array first.dimensions]
        let names := (first :: more).map Declarator.name
        .ok ⟨⟨type.base, type.wraps ++ wraps⟩, ", ".intercalate names, scope.isNested⟩
      else .error (.unequalArrayDepths text)

def read (scope : Scope) (tokens : List Token) : Except Failure (Outcome × List Token) := do
  let (type, rest) ← CType.read scope.beyond tokens
  let (declared, behind) := Token.splitOutside Lexeme.isSemicolon 0 rest
  let after := Token.dropSemicolon behind
  if isPlaceholder tokens declared type then
    let item := Token.before tokens behind
    return (.passed [.skipped (Text.excerpt (Token.textOf item))], after)
  else if declared.isEmpty then
    throw (.unexpected "a variable name" rest)
  else
    let declarators ← Declarator.readGroups rest (Token.groups declared)
    let result ← Failure.standing rest
      (ofDeclarators scope type (Token.nameOf declared) declarators)
    return (result.outcome, after)

end Variable

end PxdStub
