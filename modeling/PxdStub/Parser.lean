import PxdStub.Item
import PxdStub.Token.Lexer

/-!
A parser over one text: it hands out the items of the text one by one and keeps what it noted.
-/

namespace PxdStub

/-- A parser knows the tokens it has passed: they say whether an operator's name goes on. -/
structure Parser where
  scope : Scope
  passed : List Token
  tokens : List Token
  notes : List Note
  deriving Repr

namespace Parser

/-- A parser at the start of a text, which stands in a class body when `owner` is given. -/
def ofText (owner : Option String) (text : List Char) : Except ParseError Parser :=
  (Lexed.ofText text).map fun lexed =>
    ⟨Scope.ofOwner owner, [], lexed.tokens, []⟩

def inName (parser : Parser) : Bool :=
  Token.namesOperator false parser.passed

def kind (parser : Parser) : Kind :=
  Kind.ofTokens parser.scope.owner parser.inName parser.tokens

/-- The parser at a later place, where `rest` is left. -/
def moveTo (parser : Parser) (rest : List Token) (notes : List Note) : Parser :=
  { parser with
    passed := parser.passed ++ Token.before parser.tokens rest
    tokens := rest
    notes := parser.notes ++ notes }

/-- The next item, which may have no declaration to emit, and the parser behind it. A parser that
fails stays where it met the error. -/
def step (parser : Parser) : Except ParseError (Option Declaration) × Parser :=
  let course := Item.read parser.scope parser.inName parser.tokens
  match course.result with
  | .ok (declaration?, rest) => (.ok declaration?, parser.moveTo rest course.notes)
  | .error failure => (.error failure.error, parser.moveTo failure.rest course.notes)

def next (parser : Parser) : Except ParseError (Option Declaration × Parser) :=
  parser.step.1.map fun declaration? => (declaration?, parser.step.2)

/-- All items that are left. -/
def run (parser : Parser) : Run (List Declaration) :=
  (Item.readAll parser.scope (fun _ => []) parser.inName parser.tokens).mapError Failure.error

def declarations (parser : Parser) : Except ParseError (List Declaration × Parser) :=
  parser.run.result.map fun declarations => (declarations, parser.moveTo [] parser.run.notes)

def remaining (parser : Parser) : List Char :=
  Text.trim (Token.sourceOf parser.tokens)

def omissions (parser : Parser) : List Omission :=
  Note.omissions parser.notes

/-- The trimmed text that is left, unless that is empty. -/
def rest? (parser : Parser) : Option (List Char) :=
  if parser.remaining.isEmpty then none else some parser.remaining

/-- The first item of a text, and the trimmed text behind it if there is any. -/
def itemAndRest (owner : Option String) (text : List Char) :
    Except ParseError (Option Declaration × Option (List Char)) := do
  let parser ← ofText owner text
  let (declaration?, parser) ← parser.next
  return (declaration?, parser.rest?)

/-- All declarations that are left, and what has been left out. -/
def emission (parser : Parser) : Except ParseError (List Declaration × List Omission) :=
  parser.declarations.map fun (declarations, after) => (declarations, after.omissions)

def declarationsOf (owner : Option String) (text : List Char) :
    Except ParseError (List Declaration × List Omission) := do
  let parser ← ofText owner text
  parser.emission

/-- The first type of a text and the trimmed text behind it. -/
def typeAndRest (text : List Char) : Except ParseError (CType × List Char) := do
  let lexed ← Lexed.ofText text
  let (type, rest) ← (CType.read [] lexed.tokens).mapError Failure.error
  return (type, Text.trim (Token.sourceOf rest))

end Parser

end PxdStub
