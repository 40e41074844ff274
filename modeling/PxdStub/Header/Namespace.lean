import PxdStub.Region
import PxdStub.Text.Word

/-!
The one namespace that a header may have. Its name goes into the stub, and the text between its
braces is what the declarations are read from.
-/

namespace PxdStub.Header

/-- The text behind every `namespace` that stands as a word of its own; `inWord` says whether a
word character comes right before the text. -/
def behindKeywords (inWord : Bool) : List Char → List (List Char)
  | [] => []
  | c :: rest =>
      let later := behindKeywords (Text.isWord c) rest
      match Text.after? "namespace".toList (c :: rest) with
      | some behind =>
          if inWord || behind.head?.any Text.isWord then later else behind :: later
      | none => later

def isNameStart (c : Char) : Bool :=
  c.isAlpha || c == '_'

/-- Namespace names are ASCII words with colons. -/
def isNamePart (c : Char) : Bool :=
  c.isAlphanum || c == '_' || c == ':'

/-- The name behind the keyword, from which at least one blank separates it, and the text behind
the name. -/
def namespaceName? (behind : List Char) : Option (List Char × List Char) :=
  let start := Text.trimLeft behind
  if start.length < behind.length && start.head?.any isNameStart then
    some (start.takeWhile isNamePart, start.dropWhile isNamePart)
  else none

/-- The name of the namespace and the text inside it. Text without one is its own body. -/
def extractNamespace (code : List Char) : Except ParseError (Option String × List Char) :=
  match behindKeywords false code with
  | [] => .ok (none, code)
  | [behind] =>
      match namespaceName? behind with
      | none => .error (.unnamedNamespace (Text.excerpt code))
      | some (name, rest) => do
          match ← Region.find? (.bracket .curly) rest with
          | some region => return (some (String.ofList name), region.inside)
          | none =>
              throw (.unexpectedEnd ("'\x7b' opening namespace " ++ String.ofList name))
  | several => .error (.severalNamespaces several.length)

end PxdStub.Header
