import PxdStub.Token

/-!
Reading tokens from text. Blanks, comments and directives separate tokens and are kept as the gap
behind the token before them; those at the start are the lead.
-/

namespace PxdStub

/-- The text up to and with the next line feed, and the rest. -/
def Text.splitLine : List Char → List Char × List Char
  | [] => ([], [])
  | c :: rest =>
      if c = '\n' then ([c], rest)
      else ((c :: (splitLine rest).1), (splitLine rest).2)

theorem Text.splitLine_append (text : List Char) :
    (splitLine text).1 ++ (splitLine text).2 = text := by
  induction text with
  | nil => rfl
  | cons c rest ih => by_cases feed : c = '\n' <;> simp [splitLine, feed, ih]

/-- The text up to and with the next end of a block comment, and the rest. -/
def Text.splitComment? : List Char → Option (List Char × List Char)
  | [] => none
  | '*' :: '/' :: rest => some (['*', '/'], rest)
  | c :: rest => (splitComment? rest).map fun (inside, after) => (c :: inside, after)

theorem Text.eq_of_splitComment? {text inside after : List Char}
    (found : splitComment? text = some (inside, after)) : text = inside ++ after := by
  fun_induction splitComment? text generalizing inside with
  | case1 => simp at found
  | case2 rest => cases found; rfl
  | case3 c rest other ih =>
      obtain ⟨⟨inner, rest'⟩, later, same⟩ := Option.map_eq_some_iff.1 found
      cases same
      simp [ih later]

/-- The blanks, comments and directives at the start of a text, and the rest. A block comment
without an end is left to the rest. -/
def Text.splitGap : List Char → List Char × List Char
  | [] => ([], [])
  | c :: rest =>
      if Text.isBlank c then
        (c :: (splitGap rest).1, (splitGap rest).2)
      else if c = '#' then
        let line := Text.splitLine rest
        (c :: line.1 ++ (splitGap line.2).1, (splitGap line.2).2)
      else if c = '/' && rest.head? = some '/' then
        let line := Text.splitLine rest
        (c :: line.1 ++ (splitGap line.2).1, (splitGap line.2).2)
      else if c = '/' && rest.head? = some '*' then
        match _found : Text.splitComment? rest.tail with
        | some (inside, after) =>
            (c :: '*' :: inside ++ (splitGap after).1, (splitGap after).2)
        | none => ([], c :: rest)
      else ([], c :: rest)
termination_by text => text.length
decreasing_by
  · simp
  · have whole := congrArg List.length (Text.splitLine_append rest)
    simp only [List.length_append, List.length_cons] at *
    omega
  · have whole := congrArg List.length (Text.splitLine_append rest)
    simp only [List.length_append, List.length_cons] at *
    omega
  · have whole := congrArg List.length (Text.eq_of_splitComment? _found)
    simp only [List.length_append, List.length_tail, List.length_cons] at *
    omega

theorem Text.splitGap_append (text : List Char) :
    (splitGap text).1 ++ (splitGap text).2 = text := by
  fun_induction splitGap text with
  | case1 => rfl
  | case2 c rest blank ih => simp [ih]
  | case3 rest line blank ih =>
      simp only [List.cons_append, List.append_assoc, ih]
      simp [line, Text.splitLine_append]
  | case4 c rest blank hash slashes line ih =>
      simp only [List.cons_append, List.append_assoc, ih]
      simp [line, Text.splitLine_append]
  | case5 c rest blank hash slashes opened inside after found ih =>
      have whole := Text.eq_of_splitComment? found
      simp only [Bool.and_eq_true, decide_eq_true_eq] at opened
      obtain ⟨_, head⟩ := opened
      cases rest with
      | nil => simp at head
      | cons d more =>
          simp only [List.head?_cons, Option.some.injEq] at head
          simp only [List.tail_cons] at whole
          simp [ih, head, whole]
  | case6 => rfl
  | case7 => rfl

namespace Lexeme

/-- The inside of a literal up to its quote, and the text behind the quote. A backslash and the
character behind it belong together. -/
def quoted? (quote : Char) : List Char → Option (List Char × List Char)
  | [] => none
  | '\\' :: c :: rest =>
      (quoted? quote rest).map fun (inside, after) => ('\\' :: c :: inside, after)
  | c :: rest =>
      if c = quote then some ([], rest)
      else (quoted? quote rest).map fun (inside, after) => (c :: inside, after)

/-- Identifiers and keywords are ASCII words. -/
def isWordStart (c : Char) : Bool :=
  c.isAlpha || c == '_'

def isWordPart (c : Char) : Bool :=
  c.isAlphanum || c == '_'

/-- Numbers run on through letters, points and underscores (`0x1F`, `1.5e3f`). -/
def isNumberPart (c : Char) : Bool :=
  c.isAlphanum || c == '.' || c == '_'

def ofWord (word : String) : Lexeme :=
  match Keyword.ofSpelling? word with
  | some known => .keyword known
  | none => .identifier word

def ofChar : Char → Lexeme
  | '(' => .opening .round
  | ')' => .closing .round
  | '[' => .opening .square
  | ']' => .closing .square
  | '{' => .opening .curly
  | '}' => .closing .curly
  | '<' => .opening .angle
  | '>' => .closing .angle
  | '*' => .punctuation .star
  | '&' => .punctuation .ampersand
  | ',' => .punctuation .comma
  | ';' => .punctuation .semicolon
  | ':' => .punctuation .colon
  | '~' => .punctuation .tilde
  | '=' => .punctuation .equals
  | c => .symbol c

/-- The lexeme at the start of a text that begins with `c`, and the text behind it; `none` for a
literal that is not closed. -/
def read? (c : Char) (rest : List Char) : Option (Lexeme × List Char) :=
  if c = '"' then
    (quoted? c rest).map fun (inside, after) => (.string (String.ofList inside), after)
  else if c = '\'' then
    (quoted? c rest).map fun (inside, after) => (.character (String.ofList inside), after)
  else if c.isDigit then
    some (.number (String.ofList (c :: rest.takeWhile isNumberPart)), rest.dropWhile isNumberPart)
  else if isWordStart c then
    some (ofWord (String.ofList (c :: rest.takeWhile isWordPart)), rest.dropWhile isWordPart)
  else match c, rest with
    | ':', ':' :: after => some (.punctuation .scope, after)
    | '.', '.' :: '.' :: after => some (.punctuation .ellipsis, after)
    | _, _ => some (ofChar c, rest)

theorem length_quoted? {quote : Char} {text inside after : List Char}
    (found : quoted? quote text = some (inside, after)) : after.length ≤ text.length := by
  fun_induction quoted? quote text generalizing inside with
  | case1 => simp at found
  | case2 c rest ih =>
      obtain ⟨⟨inner, rest'⟩, later, same⟩ := Option.map_eq_some_iff.1 found
      cases same
      have := ih later
      simp; omega
  | case3 rest =>
      cases found
      simp
  | case4 c rest _ _ ih =>
      obtain ⟨⟨inner, rest'⟩, later, same⟩ := Option.map_eq_some_iff.1 found
      cases same
      have := ih later
      simp; omega

theorem length_read? {c : Char} {rest after : List Char} {lexeme : Lexeme}
    (found : read? c rest = some (lexeme, after)) : after.length ≤ rest.length := by
  unfold read? at found
  split at found
  · obtain ⟨⟨inner, rest'⟩, later, same⟩ := Option.map_eq_some_iff.1 found
    cases same
    exact length_quoted? later
  · split at found
    · obtain ⟨⟨inner, rest'⟩, later, same⟩ := Option.map_eq_some_iff.1 found
      cases same
      exact length_quoted? later
    · split at found
      · cases found
        exact (List.dropWhile_sublist _).length_le
      · split at found
        · cases found
          exact (List.dropWhile_sublist _).length_le
        · split at found <;> cases found <;> (simp; try omega)

end Lexeme

/-- The tokens of a text that begins with one; `start` is the byte where the text begins. -/
def Token.readFrom (start : Nat) : List Char → Except ParseError (List Token)
  | [] => .ok []
  | c :: rest =>
      if Text.startsWith Delimiter.comment.opening (c :: rest) then
        .error (.unclosedComment start)
      else
        match _found : Lexeme.read? c rest with
        | none => .error (.unclosedLiteral start)
        | some (lexeme, after) =>
            let gap := (Text.splitGap after).1
            let next := start + Text.size lexeme.spelling + Text.size gap
            (readFrom next (Text.splitGap after).2).map fun tokens =>
              ⟨lexeme, start, gap⟩ :: tokens
termination_by text => text.length
decreasing_by
  have shorter := Lexeme.length_read? _found
  have whole := congrArg List.length (Text.splitGap_append after)
  simp only [List.length_append, List.length_cons] at *
  omega

structure Lexed where
  lead : List Char
  tokens : List Token
  deriving DecidableEq, Repr

namespace Lexed

def ofText (text : List Char) : Except ParseError Lexed :=
  let lead := (Text.splitGap text).1
  (Token.readFrom (Text.size lead) (Text.splitGap text).2).map fun tokens => ⟨lead, tokens⟩

def source (lexed : Lexed) : List Char :=
  lexed.lead ++ Token.sourceOf lexed.tokens

end Lexed

end PxdStub
