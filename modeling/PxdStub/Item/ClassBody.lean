import PxdStub.Item.Outcome

/-!
Class definitions: a name, bases that are skipped, and a body of which the public sections count.
Members are private until the first access label.
-/

namespace PxdStub

/-- A run of tokens in a class body, and the source text behind it. -/
structure Section where
  tokens : List Token
  beyond : List Char
  deriving DecidableEq, Repr

def Lexeme.isAccess (lexeme : Lexeme) : Bool :=
  lexeme = .keyword .publicKey || lexeme = .keyword .privateKey || lexeme = .keyword .protectedKey

/-- An access label is an access word with a colon behind it. -/
def Token.startsLabel : List Token → Bool
  | word :: colon :: _ => word.lexeme.isAccess && colon.lexeme = .punctuation .colon
  | _ => false

namespace Section

/-- The tokens before the first access label outside brackets, and the tokens from it on. -/
def splitLabel (depth : Nat) : List Token → List Token × List Token
  | [] => ([], [])
  | token :: rest =>
      if depth = 0 && Token.startsLabel (token :: rest) then ([], token :: rest)
      else
        let later := splitLabel (Token.nesting depth token) rest
        (token :: later.1, later.2)

theorem splitLabel_append (depth : Nat) (tokens : List Token) :
    (splitLabel depth tokens).1 ++ (splitLabel depth tokens).2 = tokens := by
  induction tokens generalizing depth with
  | nil => rfl
  | cons token rest ih => unfold splitLabel; split <;> simp [ih]

/-- The public sections of a class body from a label on. Sections without tokens do not count.
`beyond` is the source text behind the body. -/
def publicFrom (beyond : List Char) : List Token → List Section
  | word :: _ :: rest =>
      let parts := splitLabel 0 rest
      let later := publicFrom beyond parts.2
      if word.lexeme = .keyword .publicKey && !parts.1.isEmpty then
        ⟨parts.1, Token.sourceOf parts.2 ++ beyond⟩ :: later
      else later
  | _ => []
termination_by tokens => tokens.length
decreasing_by
  have whole := congrArg List.length (splitLabel_append 0 rest)
  simp only [List.length_append, List.length_cons] at *
  omega

theorem length_of_mem_publicFrom {beyond : List Char} {tokens : List Token} {part : Section}
    (mem : part ∈ publicFrom beyond tokens) : part.tokens.length < tokens.length := by
  fun_induction publicFrom beyond tokens with
  | case1 word colon rest parts later kept ih =>
      have whole := congrArg List.length (splitLabel_append 0 rest)
      simp only [List.length_append, List.length_cons] at *
      rcases List.mem_cons.1 mem with rfl | old
      · simp only [parts]
        omega
      · have := ih old
        simp only [parts] at this
        omega
  | case2 word colon rest parts later dropped ih =>
      have whole := congrArg List.length (splitLabel_append 0 rest)
      have := ih mem
      simp only [List.length_append, List.length_cons, parts] at *
      omega
  | case3 => simp at mem

def publicOf (beyond : List Char) (body : List Token) : List Section :=
  publicFrom beyond (splitLabel 0 body).2

theorem length_of_mem_publicOf {beyond : List Char} {body : List Token} {part : Section}
    (mem : part ∈ publicOf beyond body) : part.tokens.length < body.length := by
  have whole := congrArg List.length (splitLabel_append 0 body)
  have := length_of_mem_publicFrom mem
  simp only [List.length_append] at whole
  omega

end Section

inductive ClassItem where
  | forward (name : String)
  | definition (name : String) (sections : List Section)
  deriving DecidableEq, Repr

namespace ClassItem

def sections : ClassItem → List Section
  | forward _ => []
  | definition _ sections => sections

/-- A class whose name has been read: the bases are skipped up to its body or its semicolon. -/
def readBody (beyond : List Char) (name : String) (tokens : List Token) :
    Except Failure (ClassItem × List Token) :=
  let opens := fun lexeme : Lexeme => lexeme.isSemicolon || lexeme = .opening .curly
  match (Token.splitOutside opens 0 tokens).2 with
  | [] => .error (.unexpected "'\x7b' before class body" [])
  | token :: rest =>
      if token.lexeme.isSemicolon then .ok (.forward name, rest)
      else
        (Enclosure.read beyond tokens (token :: rest)).map fun body =>
          let behind := Token.sourceOf (body.close :: body.after) ++ beyond
          (.definition name (Section.publicOf behind body.inside),
            Token.dropSemicolon body.after)

def read (beyond : List Char) : List Token → Except Failure (ClassItem × List Token)
  | word :: name :: rest =>
      if word.lexeme = .keyword .classKey then
        match name.lexeme with
        | .identifier className => readBody beyond className rest
        | _ => .error (.unexpected "a class name" (name :: rest))
      else .error (.unexpected "'class'" (word :: name :: rest))
  | [word] =>
      if word.lexeme = .keyword .classKey then .error (.unexpected "a class name" [])
      else .error (.unexpected "'class'" [word])
  | [] => .error (.unexpected "'class'" [])

theorem length_of_mem_sections {beyond : List Char} {tokens rest : List Token} {item : ClassItem}
    (found : read beyond tokens = .ok (item, rest)) {part : Section}
    (mem : part ∈ item.sections) : part.tokens.length < tokens.length := by
  unfold read at found
  split at found
  · next word name behind =>
    split at found
    · split at found
      · next className _ =>
        unfold readBody at found
        simp only at found
        split at found
        · cases found
        · next token more split =>
          have whole := congrArg List.length (Token.splitOutside_append
            (fun lexeme => lexeme.isSemicolon || lexeme = .opening .curly) 0 behind)
          split at found
          · cases found; simp [sections] at mem
          · cases enclosed : Enclosure.read beyond behind (token :: more) with
            | error error => rw [enclosed] at found; cases found
            | ok body =>
                rw [enclosed] at found
                cases found
                have inner := Section.length_of_mem_publicOf mem
                have around := Enclosure.length_read enclosed
                rw [List.length_append, split] at whole
                simp only [List.length_cons] at *
                omega
      · cases found
    · cases found
  · split at found <;> cases found
  · cases found

end ClassItem

end PxdStub
