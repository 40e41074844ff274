import PxdStub.Token

/-!
Brackets in runs of tokens: what an opening bracket encloses, the first token of some kind outside
all brackets, and the groups between commas.
-/

namespace PxdStub

/-- What an opening bracket encloses, the bracket that closes it, and the tokens behind. -/
structure Enclosure where
  inside : List Token
  close : Token
  after : List Token
  deriving DecidableEq, Repr

namespace Enclosure

/-- Searches the bracket that closes `depth + 1` open ones; only brackets of this kind count. -/
def close? (bracket : Bracket) (depth : Nat) : List Token → Option Enclosure
  | [] => none
  | token :: rest =>
      let deeper := fun depth =>
        (close? bracket depth rest).map fun found => { found with inside := token :: found.inside }
      if token.lexeme = .opening bracket then deeper (depth + 1)
      else if token.lexeme = .closing bracket then
        match depth with
        | 0 => some ⟨[], token, rest⟩
        | outer + 1 => deeper outer
      else deeper depth

theorem eq_of_close? {bracket : Bracket} {depth : Nat} {tokens : List Token} {found : Enclosure}
    (closed : close? bracket depth tokens = some found) :
    tokens = found.inside ++ found.close :: found.after ∧
      found.close.lexeme = .closing bracket := by
  induction tokens generalizing depth found with
  | nil => simp [close?] at closed
  | cons token rest ih =>
      have deeper : ∀ depth, (close? bracket depth rest).map (fun found =>
          { found with inside := token :: found.inside }) = some found →
          token :: rest = found.inside ++ found.close :: found.after ∧
            found.close.lexeme = .closing bracket := by
        intro depth shown
        obtain ⟨inner, later, same⟩ := Option.map_eq_some_iff.1 shown
        subst same
        obtain ⟨whole, closes⟩ := ih later
        exact ⟨congrArg (token :: ·) whole, closes⟩
      unfold close? at closed
      split at closed
      · exact deeper _ closed
      · split at closed
        · next closes =>
            split at closed
            · cases closed
              exact ⟨rfl, closes⟩
            · exact deeper _ closed
        · exact deeper _ closed

theorem length_close? {bracket : Bracket} {depth : Nat} {tokens : List Token} {found : Enclosure}
    (closed : close? bracket depth tokens = some found) :
    found.inside.length + found.after.length + 1 = tokens.length := by
  have whole := congrArg List.length (eq_of_close? closed).1
  simp only [List.length_append, List.length_cons] at whole
  omega

/-- What the opening bracket at the start of `tokens` encloses. `beyond` is the source text behind
the tokens; an error quotes the source from the bracket on. The reader stands at `place`, where it
expects a bracket if there is none. -/
def read (beyond : List Char) (place tokens : List Token) : Except Failure Enclosure :=
  match tokens.head?.map Token.lexeme with
  | some (.opening bracket) =>
      match close? bracket 0 tokens.tail with
      | some found => .ok found
      | none =>
          let context := Text.excerpt (Token.sourceOf tokens ++ beyond)
          .error ⟨.unbalanced (.bracket bracket) context, place⟩
  | _ => .error (.unexpected "an opening bracket" place)

theorem exists_close?_of_read {beyond : List Char} {place tokens : List Token} {found : Enclosure}
    (enclosed : read beyond place tokens = .ok found) :
    ∃ token rest bracket, tokens = token :: rest ∧ token.lexeme = .opening bracket ∧
      close? bracket 0 rest = some found := by
  unfold read at enclosed
  cases tokens with
  | nil => cases enclosed
  | cons token rest =>
      split at enclosed
      · next bracket opens =>
          split at enclosed
          · next closed =>
              cases enclosed
              exact ⟨token, rest, bracket, rfl, Option.some.inj opens, closed⟩
          · cases enclosed
      · cases enclosed

theorem length_read {beyond : List Char} {place tokens : List Token} {found : Enclosure}
    (enclosed : read beyond place tokens = .ok found) :
    found.inside.length + found.after.length + 2 = tokens.length := by
  obtain ⟨token, rest, bracket, rfl, -, closed⟩ := exists_close?_of_read enclosed
  have := length_close? closed
  rw [List.length_cons]
  omega

end Enclosure

namespace Token

/-- How many of `(`, `[` and `{` are open behind a token. A closing bracket that closes nothing
does not count. -/
def nesting (depth : Nat) (token : Token) : Nat :=
  match token.lexeme with
  | .opening .angle | .closing .angle => depth
  | .opening _ => depth + 1
  | .closing _ => depth - 1
  | _ => depth

/-- The tokens before the first one that `stop` accepts while no `(`, `[` or `{` is open, and the
tokens from that one on. -/
def splitOutside (stop : Lexeme → Bool) (depth : Nat) : List Token → List Token × List Token
  | [] => ([], [])
  | token :: rest =>
      if depth = 0 && stop token.lexeme then ([], token :: rest)
      else
        let later := splitOutside stop (nesting depth token) rest
        (token :: later.1, later.2)

theorem splitOutside_append (stop : Lexeme → Bool) (depth : Nat) (tokens : List Token) :
    (splitOutside stop depth tokens).1 ++ (splitOutside stop depth tokens).2 = tokens := by
  induction tokens generalizing depth with
  | nil => rfl
  | cons token rest ih => unfold splitOutside; split <;> simp [ih]

/-- The tokens behind a semicolon that may be missing. -/
def dropSemicolon : List Token → List Token
  | [] => []
  | token :: rest => if token.lexeme.isSemicolon then rest else token :: rest

/-- How many brackets of any kind are open behind a token. -/
def angledNesting (depth : Nat) (token : Token) : Nat :=
  match token.lexeme with
  | .opening _ => depth + 1
  | .closing _ => depth - 1
  | _ => depth

/-- The runs of tokens between the commas outside all brackets; `depth` brackets are open. -/
def groupsAt (depth : Nat) : List Token → List (List Token)
  | [] => [[]]
  | token :: rest =>
      if depth = 0 && token.lexeme = .punctuation .comma then [] :: groupsAt 0 rest
      else match groupsAt (angledNesting depth token) rest with
        | group :: more => (token :: group) :: more
        | [] => [[token]]

/-- The groups between commas; no tokens have no group. -/
def groups (tokens : List Token) : List (List Token) :=
  if tokens.isEmpty then [] else groupsAt 0 tokens

end Token

end PxdStub
