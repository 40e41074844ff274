import PxdStub.CType
import PxdStub.Token.Bracket

/-!
Reading types from tokens: specifiers, a base type, then markers.

    type      ::= specifier* base ( "*" | "&" | "&&" | "const" )*
    specifier ::= "extern" [string] | "const" | "static" | "virtual" | ...
    base      ::= "void" | "int" | "double"
                | ("struct" | "class") name
                | modifier+ [ "int" | "double" | "char" ]
                | name [ "<" argument ("," argument)* ">" ]
    name      ::= ["::"] identifier ("::" identifier)*
-/

namespace PxdStub

/-- Words that qualify a declaration and leave its type as it is. -/
def typeSpecifiers : List String :=
  ["static", "virtual", "explicit", "constexpr", "volatile", "mutable", "friend"]

/-- Words that make up the built-in types with more than one word. -/
def typeModifiers : List String :=
  ["unsigned", "signed", "short", "long"]

def Lexeme.isSpecifier : Lexeme → Bool
  | .keyword .externKey | .keyword .const => true
  | .identifier name => typeSpecifiers.contains name
  | _ => false

def Lexeme.isString : Lexeme → Bool
  | .string _ => true
  | _ => false

/-- The tokens behind all specifiers. A string right behind `extern` belongs to it. -/
def Token.dropSpecifiers (behindExtern : Bool) : List Token → List Token
  | [] => []
  | token :: rest =>
      if behindExtern && token.lexeme.isString then dropSpecifiers false rest
      else if token.lexeme.isSpecifier then
        dropSpecifiers (token.lexeme = .keyword .externKey) rest
      else token :: rest

/-- The continuation of a qualified name by pairs of `::` and an identifier. -/
def Token.scopedNames : List Token → String × List Token
  | colons :: token :: rest =>
      match colons.lexeme, token.lexeme with
      | .punctuation .scope, .identifier name =>
          let later := scopedNames rest
          ("::" ++ name ++ later.1, later.2)
      | _, _ => ("", colons :: token :: rest)
  | tokens => ("", tokens)

def Token.unscopedName : List Token → Except Failure (String × List Token)
  | token :: rest =>
      match token.lexeme with
      | .identifier name =>
          let later := scopedNames rest
          .ok (name ++ later.1, later.2)
      | _ => .error (.unexpected "a type name" (token :: rest))
  | [] => .error (.unexpected "a type name" [])

/-- A name with its scopes, as in `Foo`, `std::string` and `::Global`. -/
def Token.qualifiedName : List Token → Except Failure (String × List Token)
  | token :: rest =>
      if token.lexeme = .punctuation .scope then
        (unscopedName rest).map fun (name, after) => ("::" ++ name, after)
      else unscopedName (token :: rest)
  | [] => unscopedName []

/-- The word that a token adds to a built-in type with modifiers. -/
def Lexeme.builtinWord? : Lexeme → Option String
  | .identifier name => if typeModifiers.contains name || name = "char" then some name else none
  | .keyword .int => some "int"
  | .keyword .double => some "double"
  | _ => none

def Token.builtinWords : List Token → List String × List Token
  | [] => ([], [])
  | token :: rest =>
      match token.lexeme.builtinWord? with
      | some word =>
          let later := builtinWords rest
          (word :: later.1, later.2)
      | none => ([], token :: rest)

namespace BaseType

/-- The arguments of a template, in the order and the words of the source; empty ones are dropped. -/
def argumentsOf (inside : List Token) : List String :=
  ((Token.groups inside).filter fun group => !group.isEmpty).map Token.nameOf

/-- A named type, with template arguments when `<` follows the name. -/
def readNamed (beyond : List Char) (tokens : List Token) :
    Except Failure (BaseType × List Token) := do
  let (name, rest) ← Token.qualifiedName tokens
  match rest with
  | token :: _ =>
      if token.lexeme = .opening .angle then
        let enclosed ← Enclosure.read beyond rest rest
        return (.generic name (argumentsOf enclosed.inside), enclosed.after)
      else return (.named name, rest)
  | [] => return (.named name, rest)

def read (beyond : List Char) : List Token → Except Failure (BaseType × List Token)
  | [] => .error (.unexpected "a type" [])
  | token :: rest =>
      match token.lexeme with
      | .keyword .void => .ok (.void, rest)
      | .keyword .int => .ok (.int, rest)
      | .keyword .double => .ok (.double, rest)
      | .keyword .structKey | .keyword .classKey =>
          (Token.qualifiedName rest).map fun (name, after) => (.tagged name, after)
      | .identifier name =>
          if typeModifiers.contains name then
            let words := Token.builtinWords (token :: rest)
            .ok (.named (" ".intercalate words.1), words.2)
          else readNamed beyond (token :: rest)
      | .punctuation .scope => readNamed beyond (token :: rest)
      | _ => .error (.unexpected "a type" (token :: rest))

end BaseType

/-- The wraps that the markers at the start of `tokens` spell. An ampersand right behind one that
spells a reference belongs to it, and `const` adds nothing. -/
def Wrap.read (behindAmpersand : Bool) : List Token → List Wrap × List Token
  | [] => ([], [])
  | token :: rest =>
      match token.lexeme with
      | .punctuation .star =>
          let later := read false rest
          (.star :: later.1, later.2)
      | .punctuation .ampersand =>
          if behindAmpersand then read false rest
          else
            let later := read true rest
            (.reference :: later.1, later.2)
      | .keyword .const => read false rest
      | _ => ([], token :: rest)

/-- The type at the start of `tokens`, and the tokens behind it. `beyond` is the source text behind
the tokens. -/
def CType.read (beyond : List Char) (tokens : List Token) :
    Except Failure (CType × List Token) := do
  let (base, rest) ← BaseType.read beyond (Token.dropSpecifiers false tokens)
  let (wraps, rest) := Wrap.read false rest
  return (⟨base, wraps⟩, rest)

end PxdStub
