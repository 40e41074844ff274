import PxdStub.Item.ClassBody
import PxdStub.Item.Course
import PxdStub.Item.Function
import PxdStub.Item.Typedef
import PxdStub.Item.Variable

/-!
Items, one behind the other. An item is a declaration, a wrapper around an item, or a semicolon.
The members of a class are the items of its public sections.
-/

namespace PxdStub.Item

/-- The items of the kinds that hold no further items. -/
def readPlain (scope : Scope) (inName : Bool) (kind : Kind) (tokens : List Token) :
    Except Failure (Outcome × List Token) :=
  match kind with
  | .function => Function.read scope inName tokens
  | .constructor => Function.readConstructor scope tokens
  | .destructor => Function.readDestructor scope tokens
  | .typedef => Typedef.read tokens
  | _ => Variable.read scope tokens

/-- The tokens behind `template` and its parameter list. -/
def dropTemplate (beyond : List Char) (tokens : List Token) : Except Failure (List Token) :=
  match tokens.tail with
  | [] => .error (.unexpected "'<' after template" [])
  | token :: rest =>
      if token.lexeme = .opening .angle then
        (Enclosure.read beyond (token :: rest) (token :: rest)).map Enclosure.after
      else .error (.unexpected "'<' after template" (token :: rest))

theorem length_dropTemplate {beyond : List Char} {tokens rest : List Token}
    (found : dropTemplate beyond tokens = .ok rest) : rest.length < tokens.length := by
  unfold dropTemplate at found
  split at found
  · cases found
  · next token more split =>
    have tail := congrArg List.length split
    split at found
    · cases enclosed : Enclosure.read beyond (token :: more) (token :: more) with
      | error error =>
          rw [enclosed] at found
          cases found
      | ok inner =>
          rw [enclosed] at found
          cases found
          have := Enclosure.length_read enclosed
          simp only [List.length_tail, List.length_cons] at *
          omega
    · cases found

/-- What a class notes about its items: classes among them are not emitted. -/
def nestedNotes (owner : String) : Declaration → List Note
  | .ofClass inner => [.nestedClass inner.name owner]
  | _ => []

mutual

/-- Reads the item at the start of `tokens`: its declaration, if it is emitted, and the tokens
behind it. `inName` says whether the first token would go on with an operator's name. -/
def read (scope : Scope) (inName : Bool) (tokens : List Token) :
    Course Failure (Option Declaration × List Token) :=
  match tokens with
  | [] => Course.fail ⟨.unexpectedEnd "a declaration", []⟩
  | token :: rest =>
      if token.lexeme.isSemicolon then Course.pure (none, rest)
      else
        let kind := Kind.ofTokens scope.owner inName (token :: rest)
        let text := Text.excerpt (Token.sourceOf (token :: rest))
        Course.bind (Course.note [.item scope.depth kind text]) fun _ =>
          readKind scope inName kind token rest
termination_by (tokens.length, 1)
decreasing_by exact Prod.Lex.right _ (by decide)

/-- Reads the item that begins with `token` as one of the given kind. -/
def readKind (scope : Scope) (inName : Bool) (kind : Kind) (token : Token) (rest : List Token) :
    Course Failure (Option Declaration × List Token) :=
  match kind with
  | .template =>
      match _found : dropTemplate scope.beyond (token :: rest) with
      | .error failure => Course.fail failure
      | .ok inner =>
          let wrapper := Token.before (token :: rest) inner
          read scope (Token.namesOperator inName wrapper) inner
  | .inline => read scope (token.lexeme.namesOperator inName) rest
  | .classType =>
      match _found : ClassItem.read scope.beyond (token :: rest) with
      | .error failure => Course.fail failure
      | .ok (.forward name, after) =>
          Course.bind (Course.note [.forwardDeclaration name]) fun _ => Course.pure (none, after)
      | .ok (.definition name sections, after) =>
          let bodies := Course.all (sections.attach.map fun part =>
            (readAll ⟨some name, scope.depth + 1, part.val.beyond⟩ (nestedNotes name) false
              part.val.tokens).losing)
          -- the parser stands behind the name of a class until its sections are read
          let bodies := bodies.mapError fun failure => ⟨failure.error, rest.tail⟩
          Course.bind bodies fun declarations =>
            let members := declarations.flatten.filterMap Declaration.member?
            Course.pure (some (.ofClass ⟨name, members⟩), after)
  | plain =>
      Course.bind (Course.ofExcept (readPlain scope inName plain (token :: rest)))
        fun (outcome, after) =>
          Course.bind (Course.note outcome.notes) fun _ =>
            Course.pure (outcome.declaration?, after)
termination_by ((token :: rest).length, 0)
decreasing_by
  · exact Prod.Lex.left _ _ (length_dropTemplate _found)
  · exact Prod.Lex.left _ _ (by simp)
  · exact Prod.Lex.left _ _ (ClassItem.length_of_mem_sections _found part.property)

/-- Reads items until no token is left. `notesOf` says what to note about a declaration. Every
item takes a token at least; the test for it keeps the loop's end in view. -/
def readAll (scope : Scope) (notesOf : Declaration → List Note) (inName : Bool)
    (tokens : List Token) : Course Failure (List Declaration) :=
  match tokens with
  | [] => Course.pure []
  | token :: rest =>
      Course.bind (read scope inName (token :: rest)) fun (declaration?, after) =>
        let declarations := declaration?.toList
        Course.bind (Course.note (declarations.flatMap notesOf)) fun _ =>
          if after.length < (token :: rest).length then
            let inName := Token.namesOperator inName (Token.before (token :: rest) after)
            Course.bind (readAll scope notesOf inName after) fun later =>
              Course.pure (declarations ++ later)
          else Course.pure declarations
termination_by (tokens.length, 2)
decreasing_by
  · exact Prod.Lex.right _ (by decide)
  · exact Prod.Lex.left _ _ (by assumption)

end

end PxdStub.Item
