import PxdStub.Token.Bracket

/-!
Which kind of item a run of tokens starts with. The kind is decided by looking ahead.

Inside a class its name with an opening parenthesis before any other identifier starts a
constructor, and `~` with its name a destructor. Four keywords start their own kinds. All else is a
function when the first deciding token is an opening parenthesis, and otherwise a variable.
-/

namespace PxdStub

inductive Kind where
  | variableList
  | function
  | classType
  | template
  | inline
  | typedef
  | constructor
  | destructor
  deriving DecidableEq, Repr

def Kind.label : Kind → String
  | variableList => "Variable"
  | function => "Function"
  | classType => "Class"
  | template => "Template"
  | inline => "Inline"
  | typedef => "Typedef"
  | constructor => "Constructor"
  | destructor => "Destructor"

/-- Whether a token that follows this one is part of an operator's name, as in `operator<<`, given
whether this one is. The name goes on through symbols until any other token. -/
def Lexeme.namesOperator (inName : Bool) : Lexeme → Bool
  | .identifier name => name = "operator"
  | .opening .angle | .closing .angle | .symbol _ => inName
  | .punctuation .equals | .punctuation .star | .punctuation .ampersand
  | .punctuation .tilde => inName
  | _ => false

/-- Whether a token behind `tokens` is part of an operator's name, given whether one before them
would be. -/
def Token.namesOperator (inName : Bool) (tokens : List Token) : Bool :=
  tokens.foldl (fun inName token => token.lexeme.namesOperator inName) inName

/-- Words that may stand before the name of a constructor or destructor. -/
def functionSpecifiers : List String :=
  ["explicit", "virtual", "constexpr"]

def Lexeme.isFunctionSpecifier : Lexeme → Bool
  | .identifier name => functionSpecifiers.contains name
  | _ => false

def Token.dropFunctionSpecifiers (tokens : List Token) : List Token :=
  tokens.dropWhile fun token => token.lexeme.isFunctionSpecifier

namespace Kind

/-- Whether an opening parenthesis comes before any identifier and semicolon. -/
def reachesParenthesis : List Token → Bool
  | [] => false
  | token :: rest =>
      match token.lexeme with
      | .opening .round => true
      | .identifier _ | .punctuation .semicolon => false
      | _ => reachesParenthesis rest

/-- The kind inside the class `owner`, when its name decides it. -/
def ofOwner? (owner : String) (tokens : List Token) : Option Kind :=
  match Token.dropFunctionSpecifiers tokens with
  | [] => none
  | token :: rest =>
      if token.lexeme = .identifier owner && reachesParenthesis rest then some .constructor
      else if token.lexeme = .punctuation .tilde &&
          rest.head?.any (fun next => next.lexeme = .identifier owner) then some .destructor
      else none

/-- Whether the deciding token is an opening parenthesis. Outside braces a semicolon decides, and
outside template arguments so do `(` and `=`. Symbols in an operator's name decide nothing. -/
def isCallable (braces angles : Nat) (inName : Bool) : List Token → Bool
  | [] => false
  | token :: rest =>
      let later := fun braces angles =>
        isCallable braces angles (token.lexeme.namesOperator inName) rest
      match token.lexeme with
      | .opening .curly => later (braces + 1) angles
      | .closing .curly => later (braces - 1) angles
      | .opening .angle => later braces (if braces = 0 && !inName then angles + 1 else angles)
      | .closing .angle => later braces (if braces = 0 && !inName then angles - 1 else angles)
      | .punctuation .equals =>
          if braces = 0 && angles = 0 && !inName then false else later braces angles
      | .opening .round => if braces = 0 && angles = 0 then true else later braces angles
      | .punctuation .semicolon => if braces = 0 then false else later braces angles
      | _ => later braces angles

def ofKeyword? : List Token → Option Kind
  | [] => none
  | token :: _ =>
      match token.lexeme with
      | .keyword .template => some .template
      | .keyword .inline => some .inline
      | .keyword .typedef => some .typedef
      | .keyword .classKey => some .classType
      | _ => none

/-- The kind of the item at the start of `tokens`, inside the class `owner` or outside classes.
`inName` says whether the first token would go on with an operator's name. -/
def ofTokens (owner : Option String) (inName : Bool) (tokens : List Token) : Kind :=
  match owner.bind fun owner => ofOwner? owner tokens with
  | some kind => kind
  | none =>
      match ofKeyword? tokens with
      | some kind => kind
      | none => if isCallable 0 0 inName tokens then .function else .variableList

end Kind

end PxdStub
