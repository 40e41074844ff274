import PxdStub.Item.Outcome

/-!
Type definitions, which stubs leave out: they reach to the next semicolon outside brackets.
-/

namespace PxdStub.Typedef

def read (tokens : List Token) : Except Failure (Outcome × List Token) :=
  match (Token.splitOutside Lexeme.isSemicolon 0 tokens).2 with
  | [] => .error ⟨.unexpectedEnd "';' after typedef", tokens⟩
  | _ :: rest => .ok (.passed [], rest)

end PxdStub.Typedef
