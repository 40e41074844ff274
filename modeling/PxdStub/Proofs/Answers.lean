import PxdStub.Proofs.Juxtaposition
import PxdStub.Proofs.Resumption

/-!
What one call tells about the first item of a text. It depends on the lexemes and on what stands
between them, but neither on the places of the tokens nor on whether an operator's name goes on in
front of them.
-/

namespace PxdStub

/-- An item if it is emitted, what has been left out on the way to it, and the trimmed text behind it
if there is any. -/
structure Answer where
  declaration? : Option Declaration
  omissions : List Omission
  rest? : Option (List Char)
  deriving DecidableEq, Repr

/-- The trimmed source of tokens if there are any. -/
def Token.sourceOf? (tokens : List Token) : Option (List Char) :=
  if tokens.isEmpty then none else some (Text.trim (sourceOf tokens))

theorem Token.Moved.sourceOf?_eq {tokens tokens' : List Token} (moved : Moved tokens tokens') :
    sourceOf? tokens' = sourceOf? tokens := by
  rw [Token.sourceOf?, Token.sourceOf?, moved.isEmpty, moved.sourceOf]

def Course.answer (course : Course Failure (Option Declaration × List Token)) :
    Except ParseError Answer :=
  (course.result.mapError Failure.error).map fun (declaration?, rest) =>
    ⟨declaration?, Note.omissions course.notes, Token.sourceOf? rest⟩

/-- What is noted about an item that is come to is no part of the answer. -/
theorem Course.answer_item (depth : Nat) (kind : Kind) (text : String)
    (course : Course Failure (Option Declaration × List Token)) :
    ((Course.note [.item depth kind text]).bind fun _ => course).answer = course.answer := by
  rw [answer, answer]
  change Except.map _ (course.result.mapError _) = _
  rw [bind, note]
  dsimp only
  rw [Note.omissions_append, Note.omissions_item, List.nil_append]

namespace Item

/-- What is told about the item at the start of `tokens`. -/
def answer (scope : Scope) (inName : Bool) (tokens : List Token) : Except ParseError Answer :=
  (read scope inName tokens).answer

variable {scope : Scope} {inName : Bool} {tokens : List Token}

theorem answer_of_kind? {token : Token} {rest : List Token} {kind : Kind}
    (starts : kind? scope.owner inName (token :: rest) = some kind) :
    answer scope inName (token :: rest) = (readKind scope inName kind token rest).answer := by
  rw [answer, read_of_kind? starts, Course.answer_item]

theorem answer_of_isPlain {kind : Kind} (starts : kind? scope.owner inName tokens = some kind)
    (isPlain : kind.isPlain) : answer scope inName tokens =
      ((readPlain scope inName kind tokens).mapError Failure.error).map fun (outcome, rest) =>
        ⟨outcome.declaration?, Note.omissions outcome.notes, Token.sourceOf? rest⟩ := by
  obtain ⟨token, rest, rfl, _⟩ := kind?_eq_some_iff.1 starts
  rw [answer_of_kind? starts, readKind_of_isPlain isPlain]
  cases readPlain scope inName kind (token :: rest) with
  | error failure => rfl
  | ok found =>
      obtain ⟨outcome, after⟩ := found
      change Except.ok (Answer.mk outcome.declaration? (Note.omissions (outcome.notes ++ [])) _) = _
      rw [List.append_nil]
      rfl

theorem answer_eq_ok_iff_of_isPlain {kind : Kind} {told : Answer}
    (starts : kind? scope.owner inName tokens = some kind) (isPlain : kind.isPlain) :
    answer scope inName tokens = .ok told ↔ ∃ outcome rest,
      readPlain scope inName kind tokens = .ok (outcome, rest) ∧
        told = ⟨outcome.declaration?, Note.omissions outcome.notes, Token.sourceOf? rest⟩ := by
  rw [answer_of_isPlain starts isPlain]
  cases readPlain scope inName kind tokens with
  | error failure => simp [Except.mapError, Except.map]
  | ok found =>
      constructor
      · intro same
        cases same
        exact ⟨found.1, found.2, rfl, rfl⟩
      · rintro ⟨outcome, rest, same, rfl⟩
        cases same
        rfl

theorem answer_eq_ok_iff {told : Answer} : answer scope inName tokens = .ok told ↔
    ∃ rest, Reads scope inName tokens told.declaration? told.omissions rest ∧
      told.rest? = Token.sourceOf? rest := by
  constructor
  · intro found
    obtain ⟨⟨declaration?, rest⟩, result, rfl⟩ := Except.map_ok_iff.1 found
    refine ⟨rest, ?_, rfl⟩
    cases course : read scope inName tokens with
    | mk notes result' =>
        rw [course] at result
        cases result' with
        | error failure => cases result
        | ok found =>
            cases result
            exact reads_of_read course
  · rintro ⟨rest, reads, same⟩
    obtain ⟨notes, course, omissions⟩ := read_of_reads reads
    rw [answer, course]
    change Except.ok (Answer.mk told.declaration? (Note.omissions notes) (Token.sourceOf? rest)) = _
    rw [omissions, ← same]

end Item

/-! ### Places -/

theorem Token.Twins.of_moved {exact quoted : Prop} {tokens tokens' : List Token}
    (moved : Moved tokens tokens') (beyond : List Char) :
    Twins exact quoted beyond beyond tokens tokens' := by
  induction tokens generalizing tokens' with
  | nil =>
      rw [List.map_eq_nil_iff.1 moved]
      exact .nil fun _ => rfl
  | cons token tokens ih =>
      have source := moved.sourceOf
      obtain ⟨token', rest', rfl, _, _⟩ := List.map_eq_cons_iff.1 moved
      obtain ⟨⟨lexeme, gap⟩, behind⟩ := Moved.cons_iff.1 moved
      exact .cons lexeme.symm (fun _ _ => gap.symm) (fun _ => by rw [source]) (ih behind)

namespace Item

variable {scope : Scope} {inName : Bool} {tokens : List Token}

/-- Tokens at other places tell the same, but for the places that an error is about. -/
theorem answer_moved {tokens' : List Token} (areRead : Token.AreRead tokens)
    (moved : Token.Moved tokens tokens') (ends : scope.beyond = []) :
    (answer scope inName tokens').mapError ParseError.unplaced =
      (answer scope inName tokens).mapError ParseError.unplaced := by
  have twins : Token.Twins True True scope.beyond scope.beyond tokens tokens' := .of_moved moved _
  obtain ⟨result, omissions⟩ :=
    @twins_read _ _ _ scope scope inName _ _ ⟨rfl, rfl⟩ (.exactly _ _) areRead twins
  have omitted := List.Forall₂.eq_of (fun _ _ alike => alike.eq trivial) omissions
  rw [answer, answer, Course.answer, Course.answer, omitted]
  generalize (read scope inName tokens).result = found at result ⊢
  generalize (read scope inName tokens').result = found' at result ⊢
  cases result with
  | error alike => exact congrArg Except.error (alike.unplaced ⟨trivial, trivial⟩).symm
  | @ok value value' pairs =>
      obtain ⟨declaration?, rest⟩ := value
      obtain ⟨declaration?', rest'⟩ := value'
      obtain ⟨item, behind⟩ := pairs
      have same : declaration? = declaration?' := by
        cases item with
        | none => rfl
        | some alike => rw [alike.eq trivial]
      have source := behind.quotes trivial
      rw [ends, List.append_nil, List.append_nil] at source
      have left : Token.sourceOf? rest' = Token.sourceOf? rest := by
        rw [Token.sourceOf?, Token.sourceOf?, behind.isEmpty, source]
      change Except.ok (Answer.mk declaration?' _ (Token.sourceOf? rest')) =
        Except.ok (Answer.mk declaration? _ (Token.sourceOf? rest))
      rw [left, same]

end Item

/-! ### Names of operators in front -/

/-- Lexemes through which an operator's name goes on. -/
def Lexeme.isOperatorSymbol : Lexeme → Bool
  | .opening .angle | .closing .angle | .symbol _ => true
  | .punctuation .equals | .punctuation .star | .punctuation .ampersand
  | .punctuation .tilde => true
  | _ => false

theorem Lexeme.namesOperator_of_other {lexeme : Lexeme} (other : lexeme.isOperatorSymbol = false)
    (inName : Bool) : lexeme.namesOperator inName = lexeme.namesOperator false := by
  cases lexeme with
  | opening bracket | closing bracket => cases bracket <;> first | rfl | cases other
  | punctuation mark => cases mark <;> first | rfl | cases other
  | symbol _ => cases other
  | _ => rfl

/-- Behind such a token it does not matter what stands in front of it. -/
theorem Token.namesOperator_of_other {token : Token} {run : List Token}
    (other : token.lexeme.isOperatorSymbol = false) (inName : Bool) :
    namesOperator inName (token :: run) = namesOperator false (token :: run) := by
  rw [namesOperator, namesOperator, List.foldl_cons, List.foldl_cons,
    Lexeme.namesOperator_of_other other]

theorem Token.before_of_shorter {token : Token} {rest after : List Token}
    (shorter : after.length < (token :: rest).length) :
    ∃ run, before (token :: rest) after = token :: run := by
  obtain ⟨count, size⟩ := Nat.exists_eq_add_of_lt shorter
  refine ⟨rest.take count, ?_⟩
  rw [before, size, show after.length + count + 1 - after.length = count + 1 by omega]
  rfl

theorem Token.unscopedName_shorter {tokens rest : List Token} {name : String}
    (found : unscopedName tokens = .ok (name, rest)) : rest.length < tokens.length := by
  unfold unscopedName at found
  split at found
  · next token more =>
      split at found
      · cases found
        exact Nat.lt_succ_of_le (scopedNames_suffix more).length_le
      · cases found
  · cases found

theorem Token.qualifiedName_shorter {tokens rest : List Token} {name : String}
    (found : qualifiedName tokens = .ok (name, rest)) : rest.length < tokens.length := by
  unfold qualifiedName at found
  split at found
  · next token more =>
      split at found
      · obtain ⟨⟨second, after⟩, inner, same⟩ := Except.map_ok_iff.1 found
        cases same
        exact Nat.lt_succ_of_lt (unscopedName_shorter inner)
      · exact unscopedName_shorter found
  · cases found

theorem BaseType.readNamed_shorter {beyond : List Char} {tokens rest : List Token}
    {base : BaseType} (found : readNamed beyond tokens = .ok (base, rest)) :
    rest.length < tokens.length := by
  obtain ⟨⟨name, middle⟩, named, _⟩ := Except.bind_ok_iff.1 found
  have shorter := Token.qualifiedName_shorter named
  have within := (suffix_of_readNamed named found).length_le
  omega

/-- A type takes a token at least. -/
theorem BaseType.read_shorter {beyond : List Char} {tokens rest : List Token} {base : BaseType}
    (found : read beyond tokens = .ok (base, rest)) : rest.length < tokens.length := by
  unfold read at found
  split at found
  · cases found
  · next token more =>
      have tagged : ∀ {base : BaseType}, (Token.qualifiedName more).map
          (fun found => (BaseType.tagged found.1, found.2)) = .ok (base, rest) →
          rest.length < (token :: more).length := by
        intro base found
        obtain ⟨⟨name, after⟩, named, same⟩ := Except.map_ok_iff.1 found
        cases same
        exact Nat.lt_succ_of_lt (Token.qualifiedName_shorter named)
      split at found
      · cases found
        exact Nat.lt_succ_self _
      · cases found
        exact Nat.lt_succ_self _
      · cases found
        exact Nat.lt_succ_self _
      · exact tagged found
      · exact tagged found
      · next name identifier =>
          split at found
          · next modifier =>
              have word : token.lexeme.builtinWord? = some name := by
                rw [identifier, Lexeme.builtinWord?, modifier]
                rfl
              rw [Token.builtinWords, word] at found
              cases found
              exact Nat.lt_succ_of_le (Token.builtinWords_suffix more).length_le
          · exact readNamed_shorter found
      · exact readNamed_shorter found
      · cases found

theorem CType.read_shorter {beyond : List Char} {tokens rest : List Token} {type : CType}
    (found : read beyond tokens = .ok (type, rest)) : rest.length < tokens.length := by
  obtain ⟨⟨base, middle⟩, named, done⟩ := Except.bind_ok_iff.1 found
  have shorter := BaseType.read_shorter named
  have dropped := (Token.dropSpecifiers_suffix false tokens).length_le
  have wraps := (Wrap.read_suffix false middle).length_le
  cases done
  omega

/-- Lexemes with which a type may begin. -/
def Lexeme.beginsType : Lexeme → Bool
  | .keyword .void | .keyword .int | .keyword .double | .keyword .structKey | .keyword .classKey
  | .keyword .externKey | .keyword .const => true
  | .identifier _ | .punctuation .scope => true
  | _ => false

theorem Lexeme.beginsType_of_isOperatorSymbol {lexeme : Lexeme} (symbol : lexeme.isOperatorSymbol) :
    lexeme.beginsType = false := by
  cases lexeme with
  | opening _ | closing _ | symbol _ => rfl
  | punctuation mark => cases mark <;> first | rfl | cases symbol
  | _ => cases symbol

theorem CType.read_of_other {beyond : List Char} {token : Token} {rest : List Token}
    (other : token.lexeme.beginsType = false) :
    read beyond (token :: rest) = .error (.unexpected "a type" (token :: rest)) := by
  have plain : token.lexeme.isSpecifier = false := by
    revert other
    cases token.lexeme with
    | keyword word => cases word <;> simp [Lexeme.beginsType, Lexeme.isSpecifier]
    | identifier name => exact fun other => by cases other
    | _ => exact fun _ => rfl
  have base : BaseType.read beyond (token :: rest) = .error (.unexpected "a type" (token :: rest)) := by
    rw [BaseType.read]
    split
    all_goals first
      | rfl
      | next same =>
          rw [same] at other
          cases other
  rw [read, Token.dropSpecifiers, Bool.false_and, if_neg Bool.false_ne_true, plain,
    if_neg Bool.false_ne_true, base]
  rfl

theorem Kind.eq_of_ofOwner? {owner : String} {tokens : List Token} {kind : Kind}
    (named : ofOwner? owner tokens = some kind) : kind = .constructor ∨ kind = .destructor := by
  unfold ofOwner? at named
  split at named
  · cases named
  · split at named
    · cases named
      exact .inl rfl
    · split at named
      · cases named
        exact .inr rfl
      · cases named

theorem Kind.isCallable_of_other {token : Token} {rest : List Token}
    (other : token.lexeme.isOperatorSymbol = false) (inName : Bool) :
    isCallable 0 0 inName (token :: rest) = isCallable 0 0 false (token :: rest) := by
  have step := Lexeme.namesOperator_of_other other inName
  rw [isCallable.eq_def 0 0 inName, isCallable.eq_def 0 0 false]
  dsimp only
  rw [step]
  cases same : token.lexeme with
  | opening bracket | closing bracket =>
      rw [same] at other
      cases bracket <;> first | rfl | cases other
  | punctuation mark =>
      rw [same] at other
      cases mark <;> first | rfl | cases other
  | _ => rfl

theorem Kind.ofTokens_of_other {owner : Option String} {token : Token} {rest : List Token}
    (other : token.lexeme.isOperatorSymbol = false) (inName : Bool) :
    ofTokens owner inName (token :: rest) = ofTokens owner false (token :: rest) := by
  rw [ofTokens, ofTokens, isCallable_of_other other]

namespace Item

variable {scope : Scope} {tokens : List Token}

theorem readPlain_of_other {token : Token} {rest : List Token} {kind : Kind}
    (other : token.lexeme.isOperatorSymbol = false) (inName : Bool) :
    readPlain scope inName kind (token :: rest) = readPlain scope false kind (token :: rest) := by
  cases kind with
  | function =>
      change Function.read scope inName _ = Function.read scope false _
      rw [Function.read, Function.read]
      cases typed : CType.read scope.beyond (token :: rest) with
      | error failure => rfl
      | ok found =>
          obtain ⟨type, after⟩ := found
          have shorter := CType.read_shorter typed
          obtain ⟨more, run⟩ := Token.before_of_shorter shorter
          dsimp only [Bind.bind, Except.bind]
          rw [run, Token.namesOperator_of_other other]
  | _ => rfl

/-- The item is a destructor, or it fails where its type should begin. -/
theorem readKind_of_symbol {token : Token} {rest : List Token} {owner : Option String}
    (symbol : token.lexeme.isOperatorSymbol) (inName : Bool) :
    readKind scope inName (Kind.ofTokens owner inName (token :: rest)) token rest =
      readKind scope false (Kind.ofTokens owner false (token :: rest)) token rest := by
  have untyped := Lexeme.beginsType_of_isOperatorSymbol symbol
  have failed : ∀ inName, ∀ kind, kind = .function ∨ kind = .variableList →
      readKind scope inName kind token rest =
        Course.fail (.unexpected "a type" (token :: rest)) := by
    rintro inName _ (rfl | rfl)
    · rw [readKind_of_isPlain rfl]
      change (Course.ofExcept (Function.read scope inName (token :: rest))).bind _ = _
      rw [Function.read, CType.read_of_other untyped]
      rfl
    · rw [readKind_of_isPlain rfl]
      change (Course.ofExcept (Variable.read scope (token :: rest))).bind _ = _
      rw [Variable.read, CType.read_of_other untyped]
      rfl
  have keyword : Kind.ofKeyword? (token :: rest) = none := by
    cases same : token.lexeme with
    | keyword word =>
        rw [same] at symbol
        cases symbol
    | _ => rw [Kind.ofKeyword?, same]
  have typed : ∀ callable : Bool, (if callable then Kind.function else .variableList) = .function ∨
      (if callable then Kind.function else .variableList) = .variableList := by decide
  rw [Kind.ofTokens, Kind.ofTokens, keyword]
  split
  · next kind named =>
      obtain ⟨owner, _, named⟩ := Option.bind_eq_some_iff.1 named
      obtain rfl | rfl := Kind.eq_of_ofOwner? named
      · rw [readKind_of_isPlain rfl, readKind_of_isPlain rfl]
        rfl
      · rw [readKind_of_isPlain rfl, readKind_of_isPlain rfl]
        rfl
  · rw [failed _ _ (typed _), failed _ _ (typed _)]

theorem readKind_of_other {token : Token} {rest : List Token} {kind : Kind}
    (other : token.lexeme.isOperatorSymbol = false) (inName : Bool) :
    readKind scope inName kind token rest = readKind scope false kind token rest := by
  cases kind with
  | template =>
      rw [readKind_template, readKind_template]
      cases dropped : dropTemplate scope.beyond (token :: rest) with
      | error failure => rfl
      | ok inner =>
          have shorter := length_dropTemplate dropped
          obtain ⟨more, run⟩ := Token.before_of_shorter shorter
          rw [Course.ofExcept_ok_bind, Course.ofExcept_ok_bind, run,
            Token.namesOperator_of_other other]
  | inline => rw [readKind, readKind, Lexeme.namesOperator_of_other other]
  | classType => rw [readKind_classType, readKind_classType]
  | variableList | function | typedef | constructor | destructor =>
      rw [readKind_of_isPlain rfl, readKind_of_isPlain rfl, readPlain_of_other other]

/-- An item tells the same whether an operator's name goes on in front of it or not. -/
theorem answer_inName (inName : Bool) : answer scope inName tokens = answer scope false tokens := by
  cases tokens with
  | nil => rw [answer, answer, read, read]
  | cons token rest =>
      by_cases semicolon : token.lexeme.isSemicolon
      · rw [answer, answer, read, read, if_pos semicolon, if_pos semicolon]
      · have starts : ∀ inName, kind? scope.owner inName (token :: rest) =
            some (Kind.ofTokens scope.owner inName (token :: rest)) := by
          intro inName
          rw [kind?, if_neg semicolon]
        rw [answer_of_kind? (starts inName), answer_of_kind? (starts false)]
        by_cases symbol : token.lexeme.isOperatorSymbol
        · rw [readKind_of_symbol symbol]
        · have other : token.lexeme.isOperatorSymbol = false := by simpa using symbol
          rw [Kind.ofTokens_of_other other, readKind_of_other other]

end Item

namespace Parser

/-- What the first call on a text tells. -/
def answer (owner : Option String) (text : List Char) : Except ParseError Answer := do
  let parser ← ofText owner text
  let (declaration?, later) ← parser.next
  return ⟨declaration?, later.omissions, later.rest?⟩

variable {owner : Option String} {text : List Char}

theorem itemAndRest_eq_answer : itemAndRest owner text =
    (answer owner text).map fun told => (told.declaration?, told.rest?) := by
  rw [itemAndRest, answer]
  cases ofText owner text with
  | error error => rfl
  | ok parser =>
      change (parser.next >>= _) = Except.map _ (parser.next >>= _)
      cases parser.next with
      | error error => rfl
      | ok found => rfl

theorem answer_of_ofText {lexed : Lexed} (lexes : Lexed.ofText text = .ok lexed) :
    answer owner text = Item.answer (Scope.ofOwner owner) false lexed.tokens := by
  rw [answer, ofText_eq_ok_iff.2 ⟨lexed, lexes, rfl⟩]
  change (Parser.next ⟨Scope.ofOwner owner, [], lexed.tokens, []⟩ >>= _) = _
  have standing : inName ⟨Scope.ofOwner owner, [], lexed.tokens, []⟩ = false := rfl
  rw [next, step, Item.answer, standing]
  cases course : Item.read (Scope.ofOwner owner) false lexed.tokens with
  | mk notes result =>
      cases result with
      | error failure => rfl
      | ok found =>
          have suffix := (Item.reads_of_read course).endsItem.suffix
          have behind := (Token.areLexed_of_ofText lexes).suffix suffix
          change Except.ok (Answer.mk _ _ (rest? _)) = _
          rw [rest?_of_areLexed behind]
          rfl

end Parser

end PxdStub
