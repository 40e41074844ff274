import PxdStub.Proofs.ClassLayout
import PxdStub.Proofs.Progress

/-!
Every item is accounted for. It is emitted, or it is omitted and noted once, or it is of a sort that
stubs leave out; a class adds what its sections omit. Nothing is taken back from what was noted.
-/

namespace PxdStub

namespace Item

/-! ### Sorts of items -/

/-- The item inside the `template` and `inline` wrappers of an item, and whether it begins behind an
operator's name. -/
inductive Unwraps (scope : Scope) : Bool → List Token → Bool → List Token → Prop
  | bare {inName tokens} : (∀ token ∈ tokens.head?,
      token.lexeme ≠ .keyword .template ∧ token.lexeme ≠ .keyword .inline) →
      Unwraps scope inName tokens inName tokens
  | template {inName word rest inner inName' innermost} : word.lexeme = .keyword .template →
      dropTemplate scope.beyond (word :: rest) = .ok inner →
      Unwraps scope (Token.namesOperator inName (Token.before (word :: rest) inner)) inner inName'
        innermost →
      Unwraps scope inName (word :: rest) inName' innermost
  | inline {inName word rest inName' innermost} : word.lexeme = .keyword .inline →
      Unwraps scope (word.lexeme.namesOperator inName) rest inName' innermost →
      Unwraps scope inName (word :: rest) inName' innermost

/-- A class item whose bases end at the given lexeme: an opening brace in a definition, and a
semicolon in a forward declaration. -/
def IsClassUpTo (lexeme : Lexeme) (tokens : List Token) : Prop :=
  ∃ word rest, tokens = word :: rest ∧ word.lexeme = .keyword .classKey ∧
    ∃ token, Token.FirstOutside ClassItem.endsBases token tokens ∧ token.lexeme = lexeme

/-- What variable lists and functions are called when they are omitted. -/
inductive Names (scope : Scope) (inName : Bool) (tokens : List Token) : String → Prop
  | variableList {type rest declarators} : kind? scope.owner inName tokens = some .variableList →
      CType.read scope.beyond tokens = .ok (type, rest) →
      Declarator.readGroups rest
        (Token.groups (Token.splitOutside Lexeme.isSemicolon 0 rest).1) = .ok declarators →
      Names scope inName tokens (", ".intercalate (declarators.map Declarator.name))
  | function {type rest run call} : kind? scope.owner inName tokens = some .function →
      CType.read scope.beyond tokens = .ok (type, rest) →
      Signature.splitName 0 (Token.namesOperator inName (Token.before tokens rest)) rest =
        some (run, call) →
      Names scope inName tokens (Token.nameOf run)
  | constructor {run call} : kind? scope.owner inName tokens = some .constructor →
      Signature.splitName 0 false (Token.dropFunctionSpecifiers tokens) = some (run, call) →
      Names scope inName tokens (Token.nameOf run)

/-- Items that stubs leave out. A type that declares no variable is that of a `struct` or a friend,
and behind it comes the end of the item or a brace. -/
inductive IsLeftOut (scope : Scope) (inName : Bool) : List Token → Prop
  | semicolon {token rest} : token.lexeme.isSemicolon → IsLeftOut scope inName (token :: rest)
  | typedef {word rest} : word.lexeme = .keyword .typedef → IsLeftOut scope inName (word :: rest)
  | destructor {tokens} : kind? scope.owner inName tokens = some .destructor →
      IsLeftOut scope inName tokens
  | forward {tokens} : IsClassUpTo (.punctuation .semicolon) tokens → IsLeftOut scope inName tokens
  | placeholder {tokens type rest} : kind? scope.owner inName tokens = some .variableList →
      CType.read scope.beyond tokens = .ok (type, rest) →
      (tokens.head?.map Token.lexeme = some (.identifier "friend") ∨
        ∃ name, type.base = .tagged name) →
      (∀ token ∈ rest.head?, token.lexeme.isSemicolon ∨ token.lexeme = .opening .curly) →
      IsLeftOut scope inName tokens

/-- An outcome of the item at `tokens`, with its grounds. -/
inductive Fate (scope : Scope) (inName : Bool) (tokens : List Token) : Outcome → Prop
  | emitted {declaration} : Fate scope inName tokens (.emitted declaration)
  | omitted {omission} : Names scope inName tokens omission.declaration →
      Fate scope inName tokens (.omitted omission)
  | passed {notes} : IsLeftOut scope inName tokens → (∀ note ∈ notes, ∃ text, note = .skipped text) →
      Fate scope inName tokens (.passed notes)

variable {scope : Scope} {inName : Bool} {tokens rest : List Token} {outcome : Outcome}

/-! ### Variables and functions -/

theorem placeholder_of_isPlaceholder {declared : List Token} {type : CType}
    (isPlaceholder : Variable.isPlaceholder tokens declared type) :
    (tokens.head?.map Token.lexeme = some (.identifier "friend") ∨
        ∃ name, type.base = .tagged name) ∧
      declared.head?.all fun token => token.lexeme = .opening .curly := by
  rw [Variable.isPlaceholder, Bool.and_eq_true, Bool.or_eq_true] at isPlaceholder
  refine ⟨?_, isPlaceholder.2⟩
  rcases isPlaceholder.1 with friendly | tagged
  · left
    cases tokens with
    | nil => cases friendly
    | cons token more => simpa using friendly
  · right
    rw [Bool.and_eq_true] at tagged
    cases base : type.base with
    | tagged name => exact ⟨name, rfl⟩
    | _ =>
        rw [base] at tagged
        cases tagged.2

theorem name_of_ofDeclarators {type : CType} {text : String} {declarators : List Declarator}
    {declared : Variable} (found : Variable.ofDeclarators scope type text declarators = .ok declared) :
    declared.name = ", ".intercalate (declarators.map Declarator.name) := by
  cases declarators with
  | nil => cases found
  | cons first more =>
      rw [Variable.ofDeclarators] at found
      split at found
      · cases found
        rfl
      · cases found

theorem fate_of_variable (starts : kind? scope.owner inName tokens = some .variableList)
    (found : Variable.read scope tokens = .ok (outcome, rest)) :
    Fate scope inName tokens outcome := by
  unfold Variable.read at found
  obtain ⟨⟨type, behind⟩, typed, found⟩ := Except.bind_ok_iff.1 found
  dsimp only at found
  split at found
  · next isPlaceholder =>
      cases found
      obtain ⟨sort, ends⟩ := placeholder_of_isPlaceholder isPlaceholder
      refine .passed (.placeholder starts typed sort ?_) (by simp)
      intro token head
      obtain ⟨more, rfl⟩ := List.head?_eq_some_iff.1 head
      rw [Token.splitOutside] at ends
      split at ends
      · next stops => exact Or.inl (by simpa using stops)
      · exact Or.inr (by simpa using ends)
  · split at found
    · cases found
    · obtain ⟨declarators, groups, found⟩ := Except.bind_ok_iff.1 found
      obtain ⟨declared, agree, found⟩ := Except.bind_ok_iff.1 found
      have named := name_of_ofDeclarators (Failure.standing_ok_iff.1 agree)
      have same : declared.outcome = outcome := congrArg Prod.fst (Except.ok.inj found)
      rw [← same, Variable.outcome]
      split
      · exact .omitted (named ▸ .variableList starts typed groups)
      · exact .omitted (named ▸ .variableList starts typed groups)
      · exact .omitted (named ▸ .variableList starts typed groups)
      · exact .emitted

theorem name_of_readSignature {beyond : List Char} {signature : Signature}
    (found : Signature.read beyond inName tokens = .ok (signature, rest)) :
    ∃ run call, Signature.splitName 0 inName tokens = some (run, call) ∧
      signature.name = Token.nameOf run := by
  unfold Signature.read at found
  split at found
  · cases found
  · next run call split =>
      dsimp only at found
      split at found
      · cases found
      · obtain ⟨enclosed, _, found⟩ := Except.bind_ok_iff.1 found
        obtain ⟨⟨parameters, variadic⟩, _, found⟩ := Except.bind_ok_iff.1 found
        cases found
        exact ⟨run, call, split, rfl⟩

theorem fate_of_signature {kind : FunctionKind} {signature : Signature}
    (named : Names scope inName tokens signature.name) :
    Fate scope inName tokens (signature.outcome scope kind) := by
  unfold Signature.outcome
  split
  · exact .omitted named
  · split
    · exact .omitted named
    · exact .emitted

theorem fate_of_function (starts : kind? scope.owner inName tokens = some .function)
    (found : Function.read scope inName tokens = .ok (outcome, rest)) :
    Fate scope inName tokens outcome := by
  unfold Function.read at found
  obtain ⟨⟨type, behind⟩, typed, found⟩ := Except.bind_ok_iff.1 found
  obtain ⟨⟨signature, body⟩, signed, found⟩ := Except.bind_ok_iff.1 found
  obtain ⟨after, _, found⟩ := Except.bind_ok_iff.1 found
  cases found
  obtain ⟨run, call, split, named⟩ := name_of_readSignature signed
  apply fate_of_signature
  rw [named]
  exact .function starts typed split

theorem fate_of_constructor (starts : kind? scope.owner inName tokens = some .constructor)
    (found : Function.readConstructor scope tokens = .ok (outcome, rest)) :
    Fate scope inName tokens outcome := by
  unfold Function.readConstructor at found
  obtain ⟨⟨signature, body⟩, signed, found⟩ := Except.bind_ok_iff.1 found
  dsimp only at found
  split at found
  · cases found
  · obtain ⟨after, _, found⟩ := Except.bind_ok_iff.1 found
    cases found
    obtain ⟨run, call, split, named⟩ := name_of_readSignature signed
    apply fate_of_signature
    rw [named]
    exact .constructor starts split

theorem notes_of_destructor (found : Function.readDestructor scope tokens = .ok (outcome, rest)) :
    outcome = .passed [] := by
  unfold Function.readDestructor at found
  split at found
  · cases found
  · split at found
    · obtain ⟨⟨signature, body⟩, _, found⟩ := Except.bind_ok_iff.1 found
      obtain ⟨after, _, found⟩ := Except.bind_ok_iff.1 found
      cases found
      rfl
    · cases found

theorem fate_of_readPlain {kind : Kind} (isPlain : kind.isPlain)
    (starts : kind? scope.owner inName tokens = some kind)
    (found : readPlain scope inName kind tokens = .ok (outcome, rest)) :
    Fate scope inName tokens outcome := by
  cases kind with
  | template | inline | classType => cases isPlain
  | variableList => exact fate_of_variable starts found
  | function => exact fate_of_function starts found
  | constructor => exact fate_of_constructor starts found
  | destructor =>
      rw [notes_of_destructor found]
      exact .passed (.destructor starts) nofun
  | typedef =>
      obtain ⟨word, more, rfl, _⟩ := kind?_eq_some_iff.1 starts
      change Typedef.read (word :: more) = _ at found
      unfold Typedef.read at found
      split at found
      · cases found
      · cases found
        exact .passed (.typedef ((kind?_eq_iff_keyword rfl).1 starts)) nofun

/-! ### Classes -/

/-- The keyword and the name of a class are passed over in the search for the end of its bases. -/
theorem splitOutside_header {word name : Token} {className : String}
    (isClass : word.lexeme = .keyword .classKey) (named : name.lexeme = .identifier className)
    (behind : List Token) : (Token.splitOutside ClassItem.endsBases 0 (word :: name :: behind)).2 =
      (Token.splitOutside ClassItem.endsBases 0 behind).2 := by
  have word_level : Token.nesting 0 word = 0 := by
    rw [Token.nesting, isClass]
  have name_level : Token.nesting 0 name = 0 := by
    rw [Token.nesting, named]
  rw [Token.splitOutside, if_neg (by simp [isClass, ClassItem.endsBases, Lexeme.isSemicolon]),
    word_level, Token.splitOutside,
    if_neg (by simp [named, ClassItem.endsBases, Lexeme.isSemicolon]), name_level]

/-- The bases of a class item end at the lexeme that tells definitions from forward declarations. -/
theorem isClassUpTo_of_read {beyond : List Char} {item : ClassItem}
    (found : ClassItem.read beyond tokens = .ok (item, rest)) :
    (∃ name, item = .forward name) ∧ IsClassUpTo (.punctuation .semicolon) tokens ∨
      (∃ name sections, item = .definition name sections) ∧ IsClassUpTo (.opening .curly) tokens := by
  unfold ClassItem.read at found
  split at found
  · next _ word name behind =>
      split at found
      · next isClass =>
          split at found
          · next className named =>
              unfold ClassItem.readBody at found
              dsimp only at found
              split at found
              · cases found
              · next token more split =>
                  have first : Token.FirstOutside ClassItem.endsBases token
                      (word :: name :: behind) := by
                    rw [Token.firstOutside_iff, splitOutside_header isClass named]
                    exact congrArg List.head? split
                  have stops := ((Token.noneOutside_splitOutside ClassItem.endsBases 0 behind).2
                    token more split).1
                  split at found
                  · next semicolon =>
                      cases found
                      have lexeme : token.lexeme = .punctuation .semicolon := by
                        simpa [Lexeme.isSemicolon] using semicolon
                      exact Or.inl ⟨⟨_, rfl⟩, word, _, rfl, isClass, token, first, lexeme⟩
                  · next other =>
                      obtain ⟨body, _, same⟩ := Except.map_ok_iff.1 found
                      cases same
                      have lexeme : token.lexeme = .opening .curly := by
                        simpa [ClassItem.endsBases, other] using stops
                      exact Or.inr ⟨⟨_, _, rfl⟩, word, _, rfl, isClass, token, first, lexeme⟩
          · cases found
      · cases found
  · split at found <;> cases found
  · cases found

theorem lexeme_eq_of_isClassUpTo {lexeme lexeme' : Lexeme} (here : IsClassUpTo lexeme tokens)
    (there : IsClassUpTo lexeme' tokens) : lexeme = lexeme' := by
  obtain ⟨_, _, _, _, token, first, rfl⟩ := here
  obtain ⟨_, _, _, _, token', first', rfl⟩ := there
  rw [Token.firstOutside_iff] at first first'
  rw [Option.some.inj (first.symm.trans first')]

theorem kind?_of_isClassUpTo {lexeme : Lexeme} (isClass : IsClassUpTo lexeme tokens)
    (owner : Option String) (inName : Bool) : kind? owner inName tokens = some .classType := by
  obtain ⟨word, rest, rfl, isClass, _⟩ := isClass
  exact (kind?_eq_iff_keyword rfl).2 isClass

end Item

/-! ### Steps -/

/-- Steps from a parser to its end: the declarations that they emit and the omissions that they add,
one step behind the other. -/
inductive Parser.Steps : Parser → List Declaration → List Omission → Prop
  | done {parser} : parser.tokens = [] → Steps parser [] []
  | step {parser item? added declarations omissions} : parser.step.1 = .ok item? →
      parser.step.2.omissions = parser.omissions ++ added →
      Steps parser.step.2 declarations omissions →
      Steps parser (item?.toList ++ declarations) (added ++ omissions)

theorem Parser.steps_of_readsAll {parser : Parser} {declarations : List Declaration}
    {omissions : List Omission} (reads : Item.ReadsAll parser.scope parser.inName parser.tokens
      declarations omissions) : parser.Steps declarations omissions := by
  induction size : parser.tokens.length using Nat.strong_induction_on
    generalizing parser declarations omissions with
  | _ size ih =>
      subst size
      by_cases ended : parser.tokens = []
      · obtain ⟨rfl, rfl⟩ := reads.eq_nil ended
        exact .done ended
      · generalize tokens : parser.tokens = left at reads
        cases reads with
        | nil => exact absurd tokens ended
        | @cons _ _ _ declaration? added rest later laterOmissions first others =>
            subst tokens
            obtain ⟨found, left, kept⟩ := step_of_reads first
            have shorter := first.endsItem.length_lt ended
            refine .step found kept (ih _ (by rw [left]; exact shorter) ?_ rfl)
            rw [step_scope, left]
            by_cases last : rest = []
            · obtain ⟨rfl, rfl⟩ := others.eq_nil last
              rw [last]
              exact .nil
            · obtain ⟨behind, notes, after, _⟩ := parser.step_cases
              have same : behind = rest := by
                rw [← left, after]
                rfl
              rwa [after, moveTo_inName, same, first.endsItem.namesOperator_before last]

namespace Item

/-- What comes of an item: what a step over it emits, and the omissions that the step adds. -/
structure Account (scope : Scope) (inName : Bool) (tokens : List Token) (item? : Option Declaration)
    (added : List Omission) : Prop where
  /-- An item that is no class definition has one of three fates. -/
  other : ¬IsClassUpTo (.opening .curly) tokens →
    let emitted := item?.isSome ∧ added = []
    let omitted := item? = none ∧ ∃ omission, added = [omission] ∧
      Names scope inName tokens omission.declaration
    let leftOut := item? = none ∧ added = [] ∧ IsLeftOut scope inName tokens
    emitted ∧ ¬omitted ∧ ¬leftOut ∨ omitted ∧ ¬emitted ∧ ¬leftOut ∨ leftOut ∧ ¬emitted ∧ ¬omitted
  /-- A class comes of its definition, and its sections are read to their ends. -/
  definition : IsClassUpTo (.opening .curly) tokens →
    ∃ name sections rest answers,
      ClassItem.read scope.beyond tokens = .ok (.definition name sections, rest) ∧
      List.Forall₂ (fun part answer =>
        (Parser.ofSection name (scope.depth + 1) part).Steps answer.1 answer.2) sections answers ∧
      item? = some (.ofClass ⟨name, (answers.flatMap Prod.fst).filterMap Declaration.member?⟩) ∧
      added = answers.flatMap Prod.snd

namespace Account

variable {scope : Scope} {inName : Bool} {tokens : List Token}

theorem of_emitted (other : ¬IsClassUpTo (.opening .curly) tokens) (declaration : Declaration) :
    Account scope inName tokens (some declaration) [] :=
  ⟨fun _ => Or.inl ⟨⟨rfl, rfl⟩, by simp, by simp⟩, fun isClass => absurd isClass other⟩

theorem of_omitted (other : ¬IsClassUpTo (.opening .curly) tokens) {omission : Omission}
    (named : Names scope inName tokens omission.declaration) :
    Account scope inName tokens none [omission] :=
  ⟨fun _ => Or.inr (Or.inl ⟨⟨rfl, omission, rfl, named⟩, by simp, by simp⟩),
    fun isClass => absurd isClass other⟩

theorem of_leftOut (other : ¬IsClassUpTo (.opening .curly) tokens)
    (leftOut : IsLeftOut scope inName tokens) : Account scope inName tokens none [] :=
  ⟨fun _ => Or.inr (Or.inr ⟨⟨rfl, rfl, leftOut⟩, by simp, by simp⟩),
    fun isClass => absurd isClass other⟩

theorem of_fate (other : ¬IsClassUpTo (.opening .curly) tokens) {outcome : Outcome}
    (fate : Fate scope inName tokens outcome) :
    Account scope inName tokens outcome.declaration? (Note.omissions outcome.notes) := by
  cases fate with
  | emitted => exact of_emitted other _
  | omitted named => exact of_omitted other named
  | @passed notes leftOut skipped =>
      have none : Note.omissions (Outcome.passed notes).notes = [] := by
        refine List.filterMap_eq_nil_iff.2 fun note inside => ?_
        obtain ⟨text, rfl⟩ := skipped note inside
        rfl
      rw [none]
      exact of_leftOut other leftOut

theorem of_forward {beyond : List Char} {name : String} {rest : List Token}
    (found : ClassItem.read beyond tokens = .ok (.forward name, rest)) :
    Account scope inName tokens none [] := by
  obtain ⟨_, ends⟩ | ⟨⟨_, _, same⟩, _⟩ := isClassUpTo_of_read found
  · refine of_leftOut (fun isClass => ?_) (.forward ends)
    cases lexeme_eq_of_isClassUpTo ends isClass
  · cases same

theorem of_definition {name : String} {sections : List Section} {rest : List Token}
    {declarations : List Declaration} {omissions : List Omission}
    (found : ClassItem.read scope.beyond tokens = .ok (.definition name sections, rest))
    (bodies : ReadsSections name (scope.depth + 1) sections declarations omissions) :
    Account scope inName tokens
      (some (.ofClass ⟨name, declarations.filterMap Declaration.member?⟩)) omissions := by
  obtain ⟨⟨_, same⟩, _⟩ | ⟨_, opens⟩ := isClassUpTo_of_read found
  · cases same
  · refine ⟨fun other => absurd opens other, fun _ => ?_⟩
    obtain ⟨answers, all, rfl, rfl⟩ := bodies.answers
    exact ⟨_, _, _, answers, found, all.imp fun _ _ reads => Parser.steps_of_readsAll reads, rfl, rfl⟩

end Account

theorem unwraps_bare {scope : Scope} {inName : Bool} {tokens : List Token}
    (bare : kind? scope.owner inName tokens ≠ some .template ∧
      kind? scope.owner inName tokens ≠ some .inline) : Unwraps scope inName tokens inName tokens := by
  refine .bare fun token head => ?_
  obtain ⟨rest, rfl⟩ := List.head?_eq_some_iff.1 head
  exact ⟨fun same => bare.1 ((kind?_eq_iff_keyword rfl).2 same),
    fun same => bare.2 ((kind?_eq_iff_keyword rfl).2 same)⟩

/-- Inside its wrappers, every item that is read is accounted for. -/
theorem Reads.account {scope : Scope} {inName : Bool} {tokens rest : List Token}
    {item? : Option Declaration} {added : List Omission}
    (reads : Reads scope inName tokens item? added rest) :
    ∃ inName' inner, Unwraps scope inName tokens inName' inner ∧
      Account scope inName' inner item? added := by
  induction size : tokens.length using Nat.strong_induction_on
    generalizing inName tokens item? added with
  | _ size ih =>
      subst size
      cases reads with
      | @semicolon _ _ token rest here =>
          have none : kind? scope.owner inName (token :: rest) = none := by
            rw [kind?, if_pos here]
          refine ⟨_, _, unwraps_bare (by simp [none]), ?_⟩
          refine .of_leftOut (fun isClass => ?_) (.semicolon here)
          cases none.symm.trans (kind?_of_isClassUpTo isClass scope.owner inName)
      | @template _ _ _ inner _ _ _ starts dropped reads =>
          obtain ⟨word, more, rfl, _⟩ := kind?_eq_some_iff.1 starts
          obtain ⟨inName', innermost, unwraps, account⟩ :=
            ih _ (length_dropTemplate dropped) reads rfl
          exact ⟨inName', innermost,
            .template ((kind?_eq_iff_keyword rfl).1 starts) dropped unwraps, account⟩
      | inline starts reads =>
          obtain ⟨inName', innermost, unwraps, account⟩ := ih _ (Nat.lt_succ_self _) reads rfl
          exact ⟨inName', innermost, .inline ((kind?_eq_iff_keyword rfl).1 starts) unwraps, account⟩
      | forward starts found => exact ⟨_, _, unwraps_bare (by simp [starts]), .of_forward found⟩
      | definition starts found bodies =>
          exact ⟨_, _, unwraps_bare (by simp [starts]), .of_definition found bodies⟩
      | @plain _ _ _ kind _ _ starts isPlain found =>
          have bare : kind ≠ .template ∧ kind ≠ .inline ∧ kind ≠ .classType := by
            refine ⟨?_, ?_, ?_⟩
            all_goals
              rintro rfl
              cases isPlain
          refine ⟨_, _, unwraps_bare (by simp [starts, bare]), .of_fate (fun isClass => ?_)
            (fate_of_readPlain isPlain starts found)⟩
          have same := starts.symm.trans (kind?_of_isClassUpTo isClass scope.owner inName)
          exact bare.2.2 (Option.some.inj same)

end Item

namespace Parser

/-- No step takes back what was noted, and a step that succeeds adds what the account of its item
says. -/
theorem step_accounted (parser : Parser) :
    parser.omissions <+: parser.step.2.omissions ∧
      ∀ item?, parser.step.1 = .ok item? → ∃ inName inner added,
        Item.Unwraps parser.scope parser.inName parser.tokens inName inner ∧
        Item.Account parser.scope inName inner item? added ∧
        parser.step.2.omissions = parser.omissions ++ added := by
  constructor
  · rw [step_omissions]
    exact List.prefix_append _ _
  · intro item? found
    obtain ⟨added, reads, kept⟩ := reads_of_step found
    obtain ⟨inName, inner, unwraps, account⟩ := reads.account
    exact ⟨inName, inner, added, unwraps, account, kept⟩

theorem step_accounted_in_wrappers : ∃ parser : Parser,
    ofText none "template<T>inline P z;".toList = .ok parser ∧ parser.step.1 = .ok none ∧
    ∃ inName inner added,
      Item.Unwraps parser.scope parser.inName parser.tokens inName inner ∧
      Item.Account parser.scope inName inner none added ∧
      parser.step.2.omissions = parser.omissions ++ added ∧ added = [⟨"z", "P"⟩] := by
  let listed : List Token := [⟨.identifier "P", 18, [' ']⟩, ⟨.identifier "z", 20, []⟩,
    ⟨.punctuation .semicolon, 21, []⟩]
  let wrapped : List Token := ⟨.keyword .inline, 11, [' ']⟩ :: listed
  let tokens : List Token := [⟨.keyword .template, 0, []⟩, ⟨.opening .angle, 8, []⟩,
    ⟨.identifier "T", 9, []⟩, ⟨.closing .angle, 10, []⟩] ++ wrapped
  have start : ofText none "template<T>inline P z;".toList = .ok ⟨.top, [], tokens, []⟩ := by cbv
  have read : Item.readPlain .top false .variableList listed = .ok (.omitted ⟨"z", "P"⟩, []) := by
    rfl
  have dropped : Item.dropTemplate [] tokens = .ok wrapped := by rfl
  have item : Item.Reads .top false tokens none [⟨"z", "P"⟩] [] :=
    .template ((Item.kind?_eq_iff_keyword rfl).2 rfl) dropped
      (.inline ((Item.kind?_eq_iff_keyword rfl).2 rfl) (.plain (by rfl) rfl read))
  obtain ⟨found, _, kept⟩ := @step_of_reads ⟨.top, [], tokens, []⟩ _ _ _ item
  obtain ⟨inName, inner, added, unwraps, account, kept'⟩ :=
    (step_accounted ⟨.top, [], tokens, []⟩).2 none found
  exact ⟨_, start, found, inName, inner, added, unwraps, account, kept',
    List.append_cancel_left (kept'.symm.trans kept)⟩

end Parser

end PxdStub
