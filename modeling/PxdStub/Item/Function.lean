import PxdStub.CType.Reader
import PxdStub.Item.Outcome
import PxdStub.Item.Variable

/-!
Functions, constructors and destructors: a name with parameters, and an end.

    function    ::= type name "(" [parameter ("," parameter)*] ")" qualifier* ending
    parameter   ::= type [identifier] ("[" expression? "]")* ["=" default] | "..."
    ending      ::= ";" | "{" ... "}" [";"]
-/

namespace PxdStub

structure Signature where
  name : String
  parameters : List Parameter
  variadic : Bool
  deriving DecidableEq, Repr

namespace Parameter

/-- Reads the parameter in `group`, with which `tokens` begins. The type is read from the whole of
`tokens` and must not run on behind the group. -/
def read (beyond : List Char) (tokens group : List Token) : Except Failure Parameter := do
  let (type, rest) ← CType.read beyond tokens
  let behind := tokens.length - group.length
  if rest.length < behind then
    throw ⟨.unexpectedToken "a parameter" (Text.excerpt (Token.textOf group))
      (tokens.head?.elim 0 Token.start), rest⟩
  else
    let declared := Token.beforeInitializer (rest.take (rest.length - behind))
    let dimensions := declared.countP fun token => token.lexeme = .opening .square
    return ⟨⟨type.base, type.wraps ++ List.replicate dimensions .unsized⟩,
      (Token.firstName? declared).getD ""⟩

/-- The parameters of the groups at the start of `tokens`, where one token stands behind each
group, and whether there is an ellipsis among them. -/
def readGroups (beyond : List Char) (tokens : List Token) :
    List (List Token) → Except Failure (List Parameter × Bool)
  | [] => .ok ([], false)
  | group :: more => do
      let behind := tokens.drop (group.length + 1)
      match group with
      | [] => readGroups beyond behind more
      | first :: _ =>
          if first.lexeme = .punctuation .ellipsis then
            let (later, _) ← readGroups beyond behind more
            return (later, true)
          else
            let parameter ← read beyond tokens group
            let (later, variadic) ← readGroups beyond behind more
            return (parameter :: later, variadic)

/-- The parameters inside a pair of parentheses, which `tokens` begins with. A single `void` stands
for no parameters. -/
def readAll (beyond : List Char) (tokens inside : List Token) :
    Except Failure (List Parameter × Bool) :=
  if inside.map Token.lexeme = [.keyword .void] then .ok ([], false)
  else readGroups beyond tokens (Token.groups inside)

end Parameter

namespace Signature

/-- The tokens before the parenthesis that opens the parameter list, and the tokens from it on.
It stands outside template arguments and before any semicolon and brace. -/
def splitName (angles : Nat) (inName : Bool) : List Token → Option (List Token × List Token)
  | [] => none
  | token :: rest =>
      let later := fun angles =>
        (splitName angles (token.lexeme.namesOperator inName) rest).map fun (name, call) =>
          (token :: name, call)
      match token.lexeme with
      | .opening .angle => later (if inName then angles else angles + 1)
      | .closing .angle => later (if inName then angles else angles - 1)
      | .opening .round => if angles = 0 then some ([], token :: rest) else later angles
      | .punctuation .semicolon | .opening .curly => none
      | _ => later angles

/-- The signature at the start of `tokens`, and the tokens behind its parameter list. -/
def read (beyond : List Char) (inName : Bool) (tokens : List Token) :
    Except Failure (Signature × List Token) :=
  match splitName 0 inName tokens with
  | none => .error (.unexpected "'(' after function name" tokens)
  | some (name, call) => do
      if name.isEmpty then
        throw (.unexpected "a function name" tokens)
      let enclosed ← Enclosure.read beyond tokens call
      let (parameters, variadic) ← Parameter.readAll beyond call.tail enclosed.inside
      return (⟨Token.nameOf name, parameters, variadic⟩, enclosed.after)

/-- How a parameter that has no form in a stub is described. -/
def unsupported? (parameter : Parameter) : Option String :=
  match parameter.type.base with
  | .generic _ _ => some parameter.type.render
  | .tagged _ => some ("struct " ++ parameter.type.render)
  | _ => none

/-- A function is bindable when it is not variadic and each of its parameters has a form in a
stub. -/
def outcome (scope : Scope) (kind : FunctionKind) (signature : Signature) : Outcome :=
  if signature.variadic then .omitted ⟨signature.name, "..."⟩
  else match signature.parameters.findSome? unsupported? with
    | some type => .omitted ⟨signature.name, type⟩
    | none =>
        .emitted (.ofFunction ⟨kind, signature.name, signature.parameters, scope.isNested⟩)

end Signature

namespace Function

/-- The tokens behind the end of a function: a semicolon, or a body with an optional semicolon.
Qualifiers and parenthesized initializers before it are skipped. -/
def dropEnding (beyond : List Char) (name : String) (tokens : List Token) :
    Except Failure (List Token) :=
  match tokens with
  | [] => .error ⟨.endlessFunction name, []⟩
  | token :: rest =>
      match token.lexeme with
      | .punctuation .semicolon => .ok rest
      | .opening .curly =>
          (Enclosure.read beyond (token :: rest) (token :: rest)).map fun enclosed =>
            Token.dropSemicolon enclosed.after
      | .opening .round =>
          match _found : Enclosure.read beyond (token :: rest) (token :: rest) with
          | .ok enclosed => dropEnding beyond name enclosed.after
          | .error failure => .error failure
      | _ => dropEnding beyond name rest
termination_by tokens.length
decreasing_by
  · have := Enclosure.length_read _found
    simp only [List.length_cons] at *
    omega
  · simp

def read (scope : Scope) (inName : Bool) (tokens : List Token) :
    Except Failure (Outcome × List Token) := do
  let (type, rest) ← CType.read scope.beyond tokens
  let inName := Token.namesOperator inName (Token.before tokens rest)
  let (signature, rest) ← Signature.read scope.beyond inName rest
  let after ← dropEnding scope.beyond signature.name rest
  return (signature.outcome scope (.returning type), after)

def readConstructor (scope : Scope) (tokens : List Token) :
    Except Failure (Outcome × List Token) := do
  let owner := scope.owner.getD ""
  let (signature, rest) ←
    Signature.read scope.beyond false (Token.dropFunctionSpecifiers tokens)
  if signature.name ≠ owner then
    throw ⟨.nameMismatch owner signature.name, rest⟩
  let after ← dropEnding scope.beyond signature.name rest
  return (signature.outcome scope .constructor, after)

/-- The item at the start of `tokens` as a destructor, which stubs leave out. -/
def readDestructor (scope : Scope) (tokens : List Token) :
    Except Failure (Outcome × List Token) := do
  match Token.dropFunctionSpecifiers tokens with
  | [] => throw (.unexpected "'~' before destructor name" [])
  | token :: rest =>
      if token.lexeme = .punctuation .tilde then
        let (signature, rest) ← Signature.read scope.beyond false rest
        let after ← dropEnding scope.beyond ("~" ++ signature.name) rest
        return (.passed [], after)
      else throw (.unexpected "'~' before destructor name" (token :: rest))

end Function

end PxdStub
