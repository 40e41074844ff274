import PxdStub.Delimiter

/-!
Why a header cannot be parsed, and what the parser leaves out of a header that can.

An error ends the work on its header. An omission does not: the declaration is left out of the stub
and the parse goes on behind it.
-/

namespace PxdStub

inductive ParseError where
  | unbalanced (delimiter : Delimiter) (context : String)
  | unclosedComment (offset : Nat)
  | severalNamespaces (count : Nat)
  | unnamedNamespace (context : String)
  | nameMismatch (className found : String)
  | unequalArrayDepths (declarators : String)
  | endlessFunction (name : String)
  | malformedInclude (line : String)
  | unexpectedToken (expected found : String) (offset : Nat)
  | unexpectedEnd (expected : String)
  | unclosedLiteral (offset : Nat)
  deriving DecidableEq, Repr

/-- The sorts of trouble with a header. -/
inductive Trouble where
  | unbalancedDelimiter
  | malformedComment
  | multipleNamespaces
  | missingNamespaceName
  | nameMismatch
  | inconsistentArrayDepth
  | unsupportedType
  | functionEndNotFound
  | malformedInclude
  | unexpectedToken
  | unexpectedEnd
  | unterminatedLiteral
  deriving DecidableEq, Repr

/-- A header with fatal trouble has no stub. -/
def Trouble.isFatal (trouble : Trouble) : Bool :=
  trouble != unsupportedType

def ParseError.trouble : ParseError → Trouble
  | unbalanced _ _ => .unbalancedDelimiter
  | unclosedComment _ => .malformedComment
  | severalNamespaces _ => .multipleNamespaces
  | unnamedNamespace _ => .missingNamespaceName
  | nameMismatch _ _ => .nameMismatch
  | unequalArrayDepths _ => .inconsistentArrayDepth
  | endlessFunction _ => .functionEndNotFound
  | malformedInclude _ => .malformedInclude
  | unexpectedToken _ _ _ => .unexpectedToken
  | unexpectedEnd _ => .unexpectedEnd
  | unclosedLiteral _ => .unterminatedLiteral

/-- Offsets count the bytes of the text that was read. -/
def ParseError.message : ParseError → String
  | unbalanced delimiter context =>
      let opening := String.ofList delimiter.opening
      let closing := String.ofList delimiter.closing
      s!"unbalanced '{opening}' ... '{closing}' in `{context}`"
  | unclosedComment offset => s!"block comment opened at byte {offset} is never closed"
  | severalNamespaces count =>
      s!"found {count} namespaces, at most one per header is supported"
  | unnamedNamespace context =>
      s!"namespace keyword is not followed by a name in `{context}`"
  | nameMismatch className found =>
      s!"constructor name `{found}` does not match class `{className}`"
  | unequalArrayDepths declarators =>
      s!"declarators do not share the same array depth: `{declarators}`"
  | endlessFunction name => s!"cannot find the end of function `{name}`"
  | malformedInclude line => s!"improper include line: `{line}`"
  | unexpectedToken expected found offset =>
      s!"expected {expected} at byte {offset}, found {found}"
  | unexpectedEnd expected => s!"unexpected end of input, expected {expected}"
  | unclosedLiteral offset => s!"unterminated literal starting at byte {offset}"

/-- A declaration left out because its type has no form in a stub. -/
structure Omission where
  declaration : String
  type : String
  deriving DecidableEq, Repr

def Omission.trouble (_ : Omission) : Trouble :=
  .unsupportedType

def Omission.message (omission : Omission) : String :=
  s!"unsupported type `{omission.type}` in `{omission.declaration}`, declaration skipped"

end PxdStub
