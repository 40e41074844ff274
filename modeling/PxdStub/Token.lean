import PxdStub.ParseError
import PxdStub.Text.Measure

/-!
Tokens of C++ declarations. A token keeps the text it stands for and the blanks, comments and
directives that follow it, so a run of tokens gives its source text back.
-/

namespace PxdStub

inductive Keyword where
  | void
  | int
  | double
  | externKey
  | const
  | classKey
  | structKey
  | template
  | inline
  | typedef
  | publicKey
  | privateKey
  | protectedKey
  deriving DecidableEq, Repr

namespace Keyword

def spelling : Keyword → String
  | void => "void"
  | int => "int"
  | double => "double"
  | externKey => "extern"
  | const => "const"
  | classKey => "class"
  | structKey => "struct"
  | template => "template"
  | inline => "inline"
  | typedef => "typedef"
  | publicKey => "public"
  | privateKey => "private"
  | protectedKey => "protected"

def all : List Keyword :=
  [void, int, double, externKey, const, classKey, structKey, template, inline, typedef, publicKey,
    privateKey, protectedKey]

def ofSpelling? (word : String) : Option Keyword :=
  all.find? fun keyword => keyword.spelling = word

end Keyword

/-- Punctuation that is no bracket. -/
inductive Punctuation where
  | star
  | ampersand
  | comma
  | semicolon
  | colon
  | scope
  | tilde
  | equals
  | ellipsis
  deriving DecidableEq, Repr

def Punctuation.spelling : Punctuation → String
  | star => "*"
  | ampersand => "&"
  | comma => ","
  | semicolon => ";"
  | colon => ":"
  | scope => "::"
  | tilde => "~"
  | equals => "="
  | ellipsis => "..."

inductive Lexeme where
  | number (text : String)
  | string (text : String)
  | character (text : String)
  | identifier (name : String)
  | keyword (word : Keyword)
  | opening (bracket : Bracket)
  | closing (bracket : Bracket)
  | punctuation (mark : Punctuation)
  | symbol (char : Char)
  deriving DecidableEq, Repr

namespace Lexeme

/-- The text of a lexeme. Literals hold what stands between their quotes. -/
def spelling : Lexeme → List Char
  | number text => text.toList
  | string text => '"' :: text.toList ++ ['"']
  | character text => '\'' :: text.toList ++ ['\'']
  | identifier name => name.toList
  | keyword word => word.spelling.toList
  | opening bracket => [bracket.opening]
  | closing bracket => [bracket.closing]
  | punctuation mark => mark.spelling.toList
  | symbol char => [char]

/-- How messages name a lexeme. -/
def description : Lexeme → String
  | number text => s!"number {text}"
  | string text => s!"string literal \"{text}\""
  | character text => s!"char literal '{text}'"
  | identifier name => s!"identifier '{name}'"
  | lexeme =>
      let text := String.ofList lexeme.spelling
      s!"'{text}'"

def identifier? : Lexeme → Option String
  | identifier name => some name
  | _ => none

def isSemicolon (lexeme : Lexeme) : Bool :=
  lexeme = punctuation .semicolon

end Lexeme

/-- A lexeme, the byte where it starts in the source, and the skipped text behind it. -/
structure Token where
  lexeme : Lexeme
  start : Nat
  gap : List Char
  deriving DecidableEq, Repr

namespace Token

def stop (token : Token) : Nat :=
  token.start + Text.size token.lexeme.spelling

/-- The source of a run of tokens up to the token that follows. -/
def sourceOf (tokens : List Token) : List Char :=
  tokens.flatMap fun token => token.lexeme.spelling ++ token.gap

/-- The source of a run of tokens up to the end of the last one. -/
def textOf : List Token → List Char
  | [] => []
  | [token] => token.lexeme.spelling
  | token :: rest => token.lexeme.spelling ++ token.gap ++ textOf rest

def nameOf (tokens : List Token) : String :=
  String.ofList (textOf tokens)

/-- The tokens in front of `rest`, which ends `tokens`. -/
def before (tokens rest : List Token) : List Token :=
  tokens.take (tokens.length - rest.length)

end Token

/-- The error for tokens that do not begin with what is expected. -/
def ParseError.unexpected (expected : String) : List Token → ParseError
  | [] => .unexpectedEnd expected
  | token :: _ => .unexpectedToken expected token.lexeme.description token.start

/-- Why a reader fails, and the tokens at which it stands then. -/
structure Failure where
  error : ParseError
  rest : List Token
  deriving DecidableEq, Repr

namespace Failure

/-- The failure of a reader at tokens that do not begin with what is expected. -/
def unexpected (expected : String) (tokens : List Token) : Failure :=
  ⟨.unexpected expected tokens, tokens⟩

/-- A result whose error is met by a reader that stands at `tokens`. -/
def standing (tokens : List Token) (result : Except ParseError α) : Except Failure α :=
  result.mapError fun error => ⟨error, tokens⟩

end Failure

end PxdStub
