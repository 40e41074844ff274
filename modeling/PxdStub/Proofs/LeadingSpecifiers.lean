import PxdStub.Proofs.Wrappers

/-!
Words in front of a function or a variable. They add nothing to it, in whatever order they stand, but
`inline` is a wrapper and no part of a type: behind another word it is not understood.
-/

namespace PxdStub

/-- Words that may stand in front of a declaration. -/
def leadingSpecifiers : List String :=
  ["static", "extern", "const", "constexpr", "virtual", "explicit", "volatile", "mutable", "inline"]

/-! ### Specifiers in front of a declaration -/

/-- Words that specify a type and say nothing else about the item that they begin. -/
def Lexeme.isQuietSpecifier (lexeme : Lexeme) : Bool :=
  lexeme.isSpecifier && lexeme != .identifier "friend"

theorem Lexeme.eq_of_isSpecifier {lexeme : Lexeme} (specifier : lexeme.isSpecifier) :
    lexeme = .keyword .externKey ∨ lexeme = .keyword .const ∨
      ∃ name ∈ typeSpecifiers, lexeme = .identifier name := by
  cases lexeme with
  | keyword word =>
      cases word with
      | externKey => exact .inl rfl
      | const => exact .inr (.inl rfl)
      | _ => cases specifier
  | identifier name => exact .inr (.inr ⟨name, by simpa [isSpecifier] using specifier, rfl⟩)
  | _ => cases specifier

theorem Lexeme.leading_of_isQuietSpecifier {name : String}
    (quiet : (Lexeme.identifier name).isQuietSpecifier) : name ∈ leadingSpecifiers := by
  have leading : ∀ name ∈ typeSpecifiers, name ≠ "friend" → name ∈ leadingSpecifiers := by decide
  rw [isQuietSpecifier, Bool.and_eq_true, bne_iff_ne] at quiet
  refine leading name (by simpa [isSpecifier] using quiet.1) fun same => quiet.2 ?_
  rw [same]

theorem Lexeme.namesOperator_of_isSpecifier {lexeme : Lexeme} (specifier : lexeme.isSpecifier)
    (inName : Bool) : lexeme.namesOperator inName = false := by
  have apart : ∀ name ∈ typeSpecifiers, name ≠ "operator" := by decide
  obtain same | same | ⟨name, mem, same⟩ := eq_of_isSpecifier specifier
  · rw [same]
    rfl
  · rw [same]
    rfl
  · rw [same]
    exact decide_eq_false (apart name mem)

variable {words tokens : List Token}

theorem isSpecifier_of_quiet (quiet : ∀ token ∈ words, token.lexeme.isQuietSpecifier) :
    ∀ token ∈ words, token.lexeme.isSpecifier :=
  fun token mem => (Bool.and_eq_true_iff.1 (quiet token mem)).1

namespace Token

theorem dropSpecifiers_of_other
    (other : ∀ token ∈ tokens.head?, token.lexeme.isSpecifier = false ∧ token.lexeme.isString = false)
    (behindExtern : Bool) : dropSpecifiers behindExtern tokens = tokens := by
  cases tokens with
  | nil => rfl
  | cons token rest =>
      obtain ⟨noSpecifier, noString⟩ := other token rfl
      rw [dropSpecifiers, noString, Bool.and_false, if_neg Bool.false_ne_true, noSpecifier,
        if_neg Bool.false_ne_true]

/-- Specifiers in any order and number, with a string behind `extern` or without one. -/
inductive AreSpecifiers : List Token → Prop
  | nil : AreSpecifiers []
  | word {token : Token} {more : List Token} :
      token.lexeme.isSpecifier → AreSpecifiers more → AreSpecifiers (token :: more)
  | linkage {word string : Token} {more : List Token} :
      word.lexeme = .keyword .externKey → string.lexeme.isString → AreSpecifiers more →
      AreSpecifiers (word :: string :: more)

theorem AreSpecifiers.of_words (specifiers : ∀ token ∈ words, token.lexeme.isSpecifier) :
    AreSpecifiers words := by
  induction words with
  | nil => exact .nil
  | cons token words ih =>
      obtain ⟨specifier, later⟩ := List.forall_mem_cons.1 specifiers
      exact .word specifier (ih later)

theorem AreSpecifiers.dropSpecifiers (specifiers : AreSpecifiers words)
    (other : ∀ token ∈ tokens.head?, token.lexeme.isSpecifier = false ∧ token.lexeme.isString = false)
    (behindExtern : Bool) : Token.dropSpecifiers behindExtern (words ++ tokens) = tokens := by
  induction specifiers generalizing behindExtern with
  | nil => exact dropSpecifiers_of_other other behindExtern
  | @word token more specifier _ ih =>
      have noString : token.lexeme.isString = false := by
        obtain same | same | ⟨_, _, same⟩ := Lexeme.eq_of_isSpecifier specifier <;> rw [same] <;> rfl
      rw [List.cons_append, Token.dropSpecifiers, noString, Bool.and_false,
        if_neg Bool.false_ne_true, if_pos specifier]
      exact ih _
  | @linkage word string more external isString _ ih =>
      have passed : Token.dropSpecifiers true (string :: (more ++ tokens)) = tokens := by
        rw [Token.dropSpecifiers, isString, Bool.and_self, if_pos rfl]
        exact ih false
      rw [List.cons_append, List.cons_append, Token.dropSpecifiers, external]
      simpa [Lexeme.isString, Lexeme.isSpecifier] using passed

theorem namesOperator_append_specifiers (specifiers : ∀ token ∈ words, token.lexeme.isSpecifier)
    (run : List Token) : namesOperator false (words ++ run) = namesOperator false run := by
  induction words with
  | nil => rfl
  | cons token words ih =>
      obtain ⟨specifier, later⟩ := List.forall_mem_cons.1 specifiers
      rw [List.cons_append, namesOperator, List.foldl_cons,
        Lexeme.namesOperator_of_isSpecifier specifier]
      exact ih later

end Token

theorem CType.read_specified {beyond : List Char}
    (specifiers : ∀ token ∈ words, token.lexeme.isSpecifier)
    (other : ∀ token ∈ tokens.head?,
      token.lexeme.isSpecifier = false ∧ token.lexeme.isString = false) :
    read beyond (words ++ tokens) = read beyond tokens := by
  rw [read, read, (Token.AreSpecifiers.of_words specifiers).dropSpecifiers other,
    Token.dropSpecifiers_of_other other]

namespace Kind

theorem isCallable_specified (specifiers : ∀ token ∈ words, token.lexeme.isSpecifier) :
    isCallable 0 0 false (words ++ tokens) = isCallable 0 0 false tokens := by
  induction words with
  | nil => rfl
  | cons token words ih =>
      obtain ⟨specifier, later⟩ := List.forall_mem_cons.1 specifiers
      have step : isCallable 0 0 false (token :: (words ++ tokens)) =
          isCallable 0 0 (token.lexeme.namesOperator false) (words ++ tokens) := by
        rw [isCallable]
        obtain same | same | ⟨_, _, same⟩ := Lexeme.eq_of_isSpecifier specifier <;> rw [same]
      rw [List.cons_append, step, Lexeme.namesOperator_of_isSpecifier specifier]
      exact ih later

theorem reachesParenthesis_append (none : ∀ token ∈ words, token.lexeme ≠ .opening .round)
    (named : reachesParenthesis tokens = false) : reachesParenthesis (words ++ tokens) = false := by
  induction words with
  | nil => exact named
  | cons token words ih =>
      obtain ⟨here, later⟩ := List.forall_mem_cons.1 none
      rw [List.cons_append, reachesParenthesis]
      split
      · next opens => exact absurd opens here
      · rfl
      · rfl
      · exact ih later

/-- Specifiers make no constructor and no destructor, unless the class has the name of one. -/
theorem ofOwner?_specified {owner : String}
    (specifiers : ∀ token ∈ words, token.lexeme.isSpecifier)
    (named : (∃ token ∈ words, token.lexeme = .identifier owner) → reachesParenthesis tokens = false)
    (unowned : ofOwner? owner tokens = none) :
    ofOwner? owner (words ++ tokens) = none := by
  induction words with
  | nil => exact unowned
  | cons token words ih =>
      obtain ⟨specifier, later⟩ := List.forall_mem_cons.1 specifiers
      rw [List.cons_append, ofOwner?, Token.dropFunctionSpecifiers, List.dropWhile_cons]
      by_cases passed : token.lexeme.isFunctionSpecifier
      · rw [if_pos passed]
        refine ih later ?_
        rintro ⟨word, mem, same⟩
        exact named ⟨word, List.mem_cons_of_mem _ mem, same⟩
      · have noTilde : token.lexeme ≠ .punctuation .tilde := by
          obtain same | same | ⟨_, _, same⟩ := Lexeme.eq_of_isSpecifier specifier <;> simp [same]
        have noRound : ∀ token ∈ words, token.lexeme ≠ .opening .round := by
          intro token mem
          obtain same | same | ⟨_, _, same⟩ := Lexeme.eq_of_isSpecifier (later token mem) <;>
            simp [same]
        have noName : (token.lexeme = .identifier owner && reachesParenthesis (words ++ tokens)) =
            false := by
          by_cases same : token.lexeme = .identifier owner
          · rw [reachesParenthesis_append noRound (named ⟨token, List.mem_cons_self, same⟩),
              Bool.and_false]
          · rw [decide_eq_false same, Bool.false_and]
        rw [if_neg passed]
        dsimp only
        rw [noName, if_neg Bool.false_ne_true, decide_eq_false noTilde, Bool.false_and,
          if_neg Bool.false_ne_true]

theorem ofKeyword?_of_isSpecifier {token : Token} {rest : List Token}
    (specifier : token.lexeme.isSpecifier) : ofKeyword? (token :: rest) = none := by
  rw [ofKeyword?]
  obtain same | same | ⟨_, _, same⟩ := Lexeme.eq_of_isSpecifier specifier <;> rw [same]

end Kind

/-! ### Items behind specifiers -/

/-- Tokens of a function or of variables that begin with their type. In a class that has the name of a
specifier, a name stands in front of their first parenthesis. -/
structure Item.IsUnspecified (owner : Option String) (tokens : List Token) : Prop where
  kind : kind? owner false tokens = some .function ∨ kind? owner false tokens = some .variableList
  unspecified : ∀ token ∈ tokens.head?, token.lexeme.isSpecifier = false
  named : ∀ name ∈ owner, name ∈ leadingSpecifiers → Kind.reachesParenthesis tokens = false

theorem Token.before_append_of_suffix {rest : List Token} (suffix : rest <:+ tokens) :
    before (words ++ tokens) rest = words ++ before tokens rest := by
  have bound := suffix.length_le
  rw [before, before, List.length_append, Nat.add_sub_assoc bound, List.take_length_add_append]

theorem Function.read_specified {scope : Scope}
    (specifiers : ∀ token ∈ words, token.lexeme.isSpecifier)
    (other : ∀ token ∈ tokens.head?,
      token.lexeme.isSpecifier = false ∧ token.lexeme.isString = false) :
    read scope false (words ++ tokens) = read scope false tokens := by
  rw [read, read, CType.read_specified specifiers other]
  have suffix := CType.endsIn_read scope.beyond tokens
  cases typed : CType.read scope.beyond tokens with
  | error failure => rfl
  | ok found =>
      rw [typed] at suffix
      dsimp only [Bind.bind, Except.bind]
      rw [Token.before_append_of_suffix suffix, Token.namesOperator_append_specifiers specifiers]

theorem Variable.isPlaceholder_specified {declared : List Token} {type : CType}
    (quiet : ∀ token ∈ words, token.lexeme.isQuietSpecifier)
    (unspecified : ∀ token ∈ tokens.head?, token.lexeme.isSpecifier = false) :
    isPlaceholder (words ++ tokens) declared type = isPlaceholder tokens declared type := by
  cases words with
  | nil => rfl
  | cons token words =>
      have here := quiet token List.mem_cons_self
      rw [Lexeme.isQuietSpecifier, Bool.and_eq_true, bne_iff_ne] at here
      have friendly : (tokens.head?.any fun token => token.lexeme = .identifier "friend") = false := by
        cases tokens with
        | nil => rfl
        | cons first rest =>
            have other := unspecified first rfl
            refine decide_eq_false fun same => ?_
            rw [same] at other
            cases other
      rw [isPlaceholder, isPlaceholder, friendly, List.cons_append, List.head?_cons, Option.any_some,
        decide_eq_false here.2]

/-- Variables are the same; where none is declared, what is skipped has another text. -/
theorem Variable.read_specified {scope : Scope}
    (quiet : ∀ token ∈ words, token.lexeme.isQuietSpecifier)
    (other : ∀ token ∈ tokens.head?,
      token.lexeme.isSpecifier = false ∧ token.lexeme.isString = false) :
    read scope (words ++ tokens) = read scope tokens ∨ ∃ text text' after,
      read scope (words ++ tokens) = .ok (.passed [.skipped text], after) ∧
        read scope tokens = .ok (.passed [.skipped text'], after) := by
  have specifiers := isSpecifier_of_quiet quiet
  rw [read, read, CType.read_specified specifiers other]
  cases CType.read scope.beyond tokens with
  | error failure => exact .inl rfl
  | ok found =>
      obtain ⟨type, rest⟩ := found
      dsimp only [Bind.bind, Except.bind]
      rw [isPlaceholder_specified quiet fun token mem => (other token mem).1]
      split
      · exact .inr ⟨_, _, _, rfl, rfl⟩
      · exact .inl rfl

namespace Item

variable {scope : Scope} {owner : Option String} {rest : List Token}

theorem kind?_eq_of_unowned {token : Token} {rest : List Token}
    (unowned : (owner.bind fun owner => Kind.ofOwner? owner (token :: rest)) = none)
    (keyword : Kind.ofKeyword? (token :: rest) = none) (noSemicolon : token.lexeme.isSemicolon = false) :
    kind? owner false (token :: rest) =
      some (if Kind.isCallable 0 0 false (token :: rest) then .function else .variableList) := by
  rw [kind?, noSemicolon, if_neg Bool.false_ne_true, Kind.ofTokens, unowned, keyword]

/-- A function or variables are told by what is called first, and by no name and no keyword. -/
theorem unowned_of_kind? (typed : kind? owner false tokens = some .function ∨
      kind? owner false tokens = some .variableList) :
    (owner.bind fun owner => Kind.ofOwner? owner tokens) = none ∧ kind? owner false tokens =
      some (if Kind.isCallable 0 0 false tokens then .function else .variableList) := by
  obtain ⟨kind, starts, plain⟩ : ∃ kind, kind? owner false tokens = some kind ∧
      (kind = .function ∨ kind = .variableList) := by
    obtain starts | starts := typed
    · exact ⟨_, starts, .inl rfl⟩
    · exact ⟨_, starts, .inr rfl⟩
  obtain ⟨token, rest, rfl, noSemicolon, decided⟩ := kind?_eq_some_iff.1 starts
  have unowned : (owner.bind fun owner => Kind.ofOwner? owner (token :: rest)) = none := by
    cases named : owner.bind fun owner => Kind.ofOwner? owner (token :: rest) with
    | none => rfl
    | some kind' =>
        obtain ⟨name, _, named'⟩ := Option.bind_eq_some_iff.1 named
        rw [Kind.ofTokens, named] at decided
        have same : kind' = kind := decided
        rw [same] at named'
        obtain rfl | rfl := Kind.eq_of_ofOwner? named' <;> simp at plain
  have keyword : Kind.ofKeyword? (token :: rest) = none := by
    cases found : Kind.ofKeyword? (token :: rest) with
    | none => rfl
    | some kind' =>
        rw [Kind.ofTokens, unowned, found] at decided
        have same : kind' = kind := decided
        rw [same] at found
        obtain ⟨word, keyed, _⟩ := Kind.ofKeyword?_eq_some_iff.1 found
        obtain rfl | rfl := plain <;> cases keyed
  exact ⟨unowned, kind?_eq_of_unowned unowned keyword noSemicolon⟩

theorem kind?_specified (quiet : ∀ token ∈ words, token.lexeme.isQuietSpecifier)
    (some : words ≠ [])
    (named : ∀ name ∈ owner, name ∈ leadingSpecifiers → Kind.reachesParenthesis tokens = false)
    (unowned : (owner.bind fun owner => Kind.ofOwner? owner tokens) = none) :
    kind? owner false (words ++ tokens) =
      .some (if Kind.isCallable 0 0 false tokens then .function else .variableList) := by
  have specifiers := isSpecifier_of_quiet quiet
  have unowned' : (owner.bind fun owner => Kind.ofOwner? owner (words ++ tokens)) = none := by
    cases owner with
    | none => rfl
    | some owner =>
        refine Kind.ofOwner?_specified specifiers ?_ unowned
        rintro ⟨token, mem, same⟩
        exact named owner rfl (Lexeme.leading_of_isQuietSpecifier (same ▸ quiet token mem))
  have callable := @Kind.isCallable_specified words tokens specifiers
  obtain ⟨token, more, rfl⟩ := List.exists_cons_of_ne_nil some
  have specifier := specifiers token List.mem_cons_self
  have noSemicolon : token.lexeme.isSemicolon = false := by
    obtain same | same | ⟨_, _, same⟩ := Lexeme.eq_of_isSpecifier specifier <;> rw [same] <;> rfl
  rw [← callable]
  exact kind?_eq_of_unowned unowned' (Kind.ofKeyword?_of_isSpecifier specifier) noSemicolon

/-- Specifiers in front of a function or variables change nothing that is told about them. -/
theorem answer_specified (quiet : ∀ token ∈ words, token.lexeme.isQuietSpecifier)
    (declares : IsUnspecified scope.owner tokens)
    (noString : ∀ token ∈ tokens.head?, token.lexeme.isString = false) :
    answer scope false (words ++ tokens) = answer scope false tokens := by
  by_cases some : words = []
  · rw [some, List.nil_append]
  have specifiers := isSpecifier_of_quiet quiet
  have other : ∀ token ∈ tokens.head?,
      token.lexeme.isSpecifier = false ∧ token.lexeme.isString = false :=
    fun token mem => ⟨declares.unspecified token mem, noString token mem⟩
  obtain ⟨unowned, starts⟩ := unowned_of_kind? declares.kind
  have starts' := kind?_specified quiet some declares.named unowned
  by_cases callable : Kind.isCallable 0 0 false tokens
  · rw [if_pos callable] at starts starts'
    rw [answer_of_isPlain starts rfl, answer_of_isPlain starts' rfl, readPlain, readPlain,
      Function.read_specified specifiers other]
  · rw [if_neg callable] at starts starts'
    have reads : ∀ tokens, readPlain scope false .variableList tokens = Variable.read scope tokens :=
      fun _ => rfl
    rw [answer_of_isPlain starts rfl, answer_of_isPlain starts' rfl, reads, reads]
    obtain same | ⟨text, text', after, skipped, skipped'⟩ :=
      @Variable.read_specified words tokens scope quiet other
    · rw [same]
    · rw [skipped, skipped']
      rfl

/-- What is told about a declaration that does not begin with a type. -/
theorem answer_of_untyped {failure : Failure} (starts : kind? scope.owner false tokens =
      some (if Kind.isCallable 0 0 false rest then .function else .variableList))
    (untyped : CType.read scope.beyond tokens = .error failure) :
    answer scope false tokens = .error failure.error := by
  by_cases callable : Kind.isCallable 0 0 false rest
  · rw [if_pos callable] at starts
    rw [answer_of_isPlain starts rfl, readPlain, Function.read, untyped]
    rfl
  · rw [if_neg callable] at starts
    rw [answer_of_isPlain starts rfl]
    change Except.map _ (Except.mapError _ (Variable.read scope tokens)) = _
    rw [Variable.read, untyped]
    rfl

theorem noString_of_answer {found : Answer} (declares : IsUnspecified scope.owner tokens)
    (told : answer scope false tokens = .ok found) :
    ∀ token ∈ tokens.head?, token.lexeme.isString = false := by
  intro token mem
  by_contra string
  obtain ⟨_, starts⟩ := unowned_of_kind? declares.kind
  cases tokens with
  | nil => cases mem
  | cons first rest =>
      cases mem
      have other : token.lexeme.beginsType = false := by
        cases same : token.lexeme with
        | string text => rfl
        | _ =>
            rw [same] at string
            exact absurd rfl string
      rw [answer_of_untyped starts (CType.read_of_other other)] at told
      cases told

/-- The word `inline` behind a specifier stands where a type is expected. -/
theorem answer_of_inline_behind {word : Token} (quiet : ∀ token ∈ words, token.lexeme.isQuietSpecifier)
    (some : words ≠ []) (inline : word.lexeme = .keyword .inline)
    (named : ∀ name ∈ scope.owner, name ∈ leadingSpecifiers →
      Kind.reachesParenthesis tokens = false) :
    answer scope false (words ++ word :: tokens) =
      .error (.unexpectedToken "a type" "'inline'" word.start) := by
  have other : ∀ token ∈ (word :: tokens).head?,
      token.lexeme.isSpecifier = false ∧ token.lexeme.isString = false := by
    rintro _ ⟨⟩
    rw [inline]
    exact ⟨rfl, rfl⟩
  have named' : ∀ name ∈ scope.owner, name ∈ leadingSpecifiers →
      Kind.reachesParenthesis (word :: tokens) = false := by
    intro name mem leading
    rw [Kind.reachesParenthesis, inline]
    exact named name mem leading
  have unowned : (scope.owner.bind fun owner => Kind.ofOwner? owner (word :: tokens)) = none := by
    cases scope.owner with
    | none => rfl
    | some owner => exact Kind.ofOwner?_of_keyword inline
  have starts := kind?_specified quiet some named' unowned
  have untyped : CType.read scope.beyond (words ++ word :: tokens) =
      .error (.unexpected "a type" (word :: tokens)) := by
    rw [CType.read_specified (isSpecifier_of_quiet quiet) other, CType.read_of_other]
    rw [inline]
    rfl
  rw [answer_of_untyped starts untyped]
  change Except.error (ParseError.unexpectedToken "a type" word.lexeme.description word.start) = _
  rw [inline]
  rfl

end Item

/-! ### Texts behind specifiers -/

/-- Words with a blank behind each of them, in front of a text. -/
def Text.led (words : List String) (text : List Char) : List Char :=
  words.foldr (fun word behind => word.toList ++ ' ' :: behind) text

/-- Whether `inline` stands behind no other word. -/
def leadsInline (words : List String) : Bool :=
  (words.dropWhile (· = "inline")).all (· ≠ "inline")

theorem Lexed.ofText_word {word : String} (leading : word ∈ leadingSpecifiers) :
    ofText word.toList = .ok ⟨[], [⟨Lexeme.ofWord word, 0, []⟩]⟩ := by
  simp only [leadingSpecifiers, List.mem_cons, List.not_mem_nil, or_false] at leading
  obtain rfl | rfl | rfl | rfl | rfl | rfl | rfl | rfl | rfl := leading <;> cbv

theorem Token.Moved.exists_split {front back tokens : List Token} (moved : Moved (front ++ back) tokens) :
    ∃ front' back', tokens = front' ++ back' ∧ Moved front front' ∧ Moved back back' := by
  rw [Moved, List.map_append] at moved
  obtain ⟨front', back', rfl, first, second⟩ := List.map_eq_append_iff.1 moved
  exact ⟨front', back', rfl, first, second⟩

theorem Lexed.ofText_led {words : List String} {text : List Char} {lexed : Lexed}
    (leading : ∀ word ∈ words, word ∈ leadingSpecifiers) (lexes : ofText text = .ok lexed) :
    ∃ lead front later, ofText (Text.led words text) = .ok ⟨lead, front ++ later⟩ ∧
      front.map Token.lexeme = words.map Lexeme.ofWord ∧ Token.Moved lexed.tokens later := by
  induction words with
  | nil => exact ⟨lexed.lead, [], lexed.tokens, lexes, rfl, rfl⟩
  | cons word words ih =>
      obtain ⟨here, there⟩ := List.forall_mem_cons.1 leading
      obtain ⟨lead, front, later, lexes', spelled, moved⟩ := ih there
      obtain ⟨tokens, behind, whole, fits, moved'⟩ :=
        ofText_append_blank (ofText_word here) rfl lexes'
      obtain _ | @⟨_, first, _, _, same, _, ⟨⟩⟩ := fits
      obtain ⟨front', later', rfl, first', second⟩ := moved'.exists_split
      refine ⟨[], first :: front', later', whole, ?_, second.trans moved⟩
      rw [List.map_cons, List.map_cons, same, first'.map_lexeme, spelled]

theorem Lexeme.isQuietSpecifier_ofWord {word : String} (leading : word ∈ leadingSpecifiers)
    (other : word ≠ "inline") : (ofWord word).isQuietSpecifier := by
  have quiet : ∀ word ∈ leadingSpecifiers, word ≠ "inline" → (ofWord word).isQuietSpecifier := by
    decide
  exact quiet word leading other

theorem Lexeme.ofWord_ne_round (word : String) : ofWord word ≠ .opening .round := by
  rw [ofWord]
  split <;> exact Lexeme.noConfusion

theorem Item.Wraps.of_inlines (inlines : ∀ token ∈ words, token.lexeme = .keyword .inline) :
    Item.Wraps words := by
  induction words with
  | nil => exact .nil
  | cons token words ih =>
      obtain ⟨here, there⟩ := List.forall_mem_cons.1 inlines
      exact .inline here (ih there)

theorem Item.IsUnspecified.of_moved {owner : Option String} {tokens' : List Token}
    (declares : IsUnspecified owner tokens) (moved : Token.Moved tokens tokens') :
    IsUnspecified owner tokens' := by
  have twins : Token.Twins False False [] [] tokens tokens' := .of_moved moved []
  have kin : Token.Kin Eq False False [] [] tokens tokens' := twins.kin
  obtain ⟨kind, unspecified, named⟩ := declares
  refine ⟨?_, ?_, ?_⟩
  · rwa [← kind?_kin kin]
  · cases twins with
    | nil _ => exact fun _ mem => by cases mem
    | cons same _ _ _ =>
        rintro _ ⟨⟩
        rw [← same]
        exact unspecified _ rfl
  · rwa [← Kind.reachesParenthesis_kin kin]

/-- A function with a semicolon behind its parameters. -/
theorem Item.answer_declared (scope : Scope) (tokens call : List Token) (type : CType)
    {rest : List Token} {semicolon : Token} {signature : Signature}
    (starts : kind? scope.owner false tokens = some .function)
    (typed : CType.read scope.beyond tokens = .ok (type, call))
    (named : Signature.read scope.beyond (Token.namesOperator false (Token.before tokens call))
      call = .ok (signature, semicolon :: rest))
    (isSemicolon : semicolon.lexeme = .punctuation .semicolon) :
    answer scope false tokens = .ok
      ⟨(signature.outcome scope (.returning type)).declaration?,
        Note.omissions (signature.outcome scope (.returning type)).notes, Token.sourceOf? rest⟩ := by
  have read : readPlain scope false .function tokens = .ok (_, rest) :=
    Function.read_ok_iff.2
      ⟨type, call, signature, _, typed, named, Function.dropEnding_semicolon isSemicolon, rfl⟩
  exact Item.answer_eq_ok_iff.2 ⟨rest, .plain starts rfl read, rfl⟩

theorem Except.eq_ok_of_mapError {result result' : Except ε α} {change : ε → ε'} {value : α}
    (same : result'.mapError change = result.mapError change) (found : result = .ok value) :
    result' = .ok value := by
  rw [found] at same
  cases result' with
  | error error => cases same
  | ok value' =>
      cases same
      rfl

namespace Parser

variable {owner : Option String} {words : List String} {text : List Char} {lexed : Lexed}

/-- The words `inline` that stand in front of all others are wrappers. -/
theorem answer_led_eq (leading : ∀ word ∈ words, word ∈ leadingSpecifiers)
    (lexes : Lexed.ofText text = .ok lexed) : ∃ others later,
      answer owner (Text.led words text) =
        Item.answer (Scope.ofOwner owner) false (others ++ later) ∧
      others.map Token.lexeme = (words.dropWhile (· = "inline")).map Lexeme.ofWord ∧
      Token.Moved lexed.tokens later := by
  obtain ⟨lead, front, later, lexes', spelled, moved⟩ := Lexed.ofText_led leading lexes
  rw [← List.takeWhile_append_dropWhile (p := (· = "inline")) (l := words), List.map_append] at spelled
  obtain ⟨inlines, others, rfl, first, second⟩ := List.map_eq_append_iff.1 spelled
  have wraps : Item.Wraps inlines := by
    refine .of_inlines fun token mem => ?_
    have mem' := List.mem_map_of_mem (f := Token.lexeme) mem
    rw [first] at mem'
    obtain ⟨word, among, same⟩ := List.mem_map.1 mem'
    have inline : word = "inline" := by simpa using List.mem_takeWhile_imp among
    rw [← same, inline]
    cbv
  refine ⟨others, later, ?_, second, moved⟩
  rw [answer_of_ofText lexes', List.append_assoc, Item.answer_wraps wraps]

theorem isQuietSpecifier_of_spelled {tokens : List Token}
    (spelled : tokens.map Token.lexeme = words.map Lexeme.ofWord)
    (leading : ∀ word ∈ words, word ∈ leadingSpecifiers) (none : "inline" ∉ words) :
    ∀ token ∈ tokens, token.lexeme.isQuietSpecifier := by
  intro token mem
  have mem' := List.mem_map_of_mem (f := Token.lexeme) mem
  rw [spelled] at mem'
  obtain ⟨word, among, same⟩ := List.mem_map.1 mem'
  rw [← same]
  exact Lexeme.isQuietSpecifier_ofWord (leading word among) (ne_of_mem_of_not_mem among none)

theorem answer_of_leadsInline {found : Answer} (leading : ∀ word ∈ words, word ∈ leadingSpecifiers)
    (leads : leadsInline words) (lexes : Lexed.ofText text = .ok lexed)
    (declares : Item.IsUnspecified (Scope.ofOwner owner).owner lexed.tokens)
    (told : Item.answer (Scope.ofOwner owner) false lexed.tokens = .ok found) :
    answer owner (Text.led words text) = .ok found := by
  obtain ⟨others, later, same, spelled, moved⟩ := @answer_led_eq owner _ _ _ leading lexes
  have within := (List.dropWhile_suffix (l := words) (· = "inline")).subset
  have none : "inline" ∉ words.dropWhile (· = "inline") := by
    intro mem
    have other := List.all_eq_true.1 leads _ mem
    simp at other
  have quiet := isQuietSpecifier_of_spelled spelled (fun word mem => leading word (within mem)) none
  have areRead := (Token.areLexed_of_ofText lexes).areRead
  have told' : Item.answer (Scope.ofOwner owner) false later = .ok found :=
    Except.eq_ok_of_mapError (Item.answer_moved areRead moved (beyond_ofOwner owner)) told
  have declares' := declares.of_moved moved
  rw [same, Item.answer_specified quiet declares' (Item.noString_of_answer declares' told')]
  exact told'

theorem answer_of_inline_behind (leading : ∀ word ∈ words, word ∈ leadingSpecifiers)
    (behind : leadsInline words = false) (lexes : Lexed.ofText text = .ok lexed)
    (declares : Item.IsUnspecified (Scope.ofOwner owner).owner lexed.tokens) : ∃ place,
      answer owner (Text.led words text) = .error (.unexpectedToken "a type" "'inline'" place) := by
  obtain ⟨others, later, same, spelled, moved⟩ := @answer_led_eq owner _ _ _ leading lexes
  have within := (List.dropWhile_suffix (l := words) (· = "inline")).subset
  -- the first `inline` behind another word
  have mem : "inline" ∈ words.dropWhile (· = "inline") := by
    obtain ⟨word, mem, inline⟩ := List.all_eq_false.1 behind
    have inline : word = "inline" := by simpa using inline
    rw [inline] at mem
    exact mem
  obtain ⟨before, after, split, first⟩ := List.eq_append_cons_of_mem mem
  have some : before ≠ [] := by
    rintro rfl
    have head := List.head?_dropWhile_not (· = "inline") words
    rw [split] at head
    simp at head
  rw [split] at within
  rw [split, List.map_append, List.map_cons] at spelled
  obtain ⟨front, back, rfl, spelledFront, spelledBack⟩ := List.map_eq_append_iff.1 spelled
  obtain ⟨word, rest, rfl, inline, spelledRest⟩ := List.map_eq_cons_iff.1 spelledBack
  have quiet := isQuietSpecifier_of_spelled spelledFront
    (fun word mem => leading word (within (List.mem_append_left _ mem))) first
  have standing : front ≠ [] := by
    rintro rfl
    exact some (List.map_eq_nil_iff.1 spelledFront.symm)
  have noRound : ∀ token ∈ rest, token.lexeme ≠ .opening .round := by
    intro token mem
    have mem' := List.mem_map_of_mem (f := Token.lexeme) mem
    rw [spelledRest] at mem'
    obtain ⟨word, _, here⟩ := List.mem_map.1 mem'
    rw [← here]
    exact Lexeme.ofWord_ne_round word
  have named := fun name mem leading =>
    Kind.reachesParenthesis_append noRound ((declares.of_moved moved).named name mem leading)
  have isInline : word.lexeme = .keyword .inline := by
    rw [inline]
    cbv
  refine ⟨word.start, ?_⟩
  rw [same, List.append_assoc, List.cons_append]
  exact Item.answer_of_inline_behind quiet standing isInline named

/-- A function or variables that are read behind `inline` are the same behind specifiers in any order
in which no `inline` stands behind another word. All other orders fail at such an `inline`. -/
theorem answer_led {found : Answer} (leading : ∀ word ∈ words, word ∈ leadingSpecifiers)
    (lexes : Lexed.ofText text = .ok lexed) (declares : Item.IsUnspecified owner lexed.tokens)
    (parses : answer owner (Text.led ["inline"] text) = .ok found) :
    (∀ order, order.Perm words → leadsInline order →
      answer owner (Text.led order text) = .ok found) ∧
    ∀ order, order.Perm words → leadsInline order = false → ∃ place,
      answer owner (Text.led order text) = .error (.unexpectedToken "a type" "'inline'" place) := by
  have declares : Item.IsUnspecified (Scope.ofOwner owner).owner lexed.tokens := by
    cases owner <;> exact declares
  have told : Item.answer (Scope.ofOwner owner) false lexed.tokens = .ok found := by
    obtain ⟨others, later, same, none, moved⟩ := @answer_led_eq owner ["inline"] _ _ (by decide) lexes
    have none : others = [] := List.map_eq_nil_iff.1 none
    rw [none, List.nil_append] at same
    rw [same] at parses
    have areRead := (Token.areLexed_of_ofText lexes).areRead
    exact Except.eq_ok_of_mapError
      (Item.answer_moved areRead moved (beyond_ofOwner owner)).symm parses
  constructor
  · intro order perm leads
    have leading' := fun word mem => leading word (perm.mem_iff.1 mem)
    exact answer_of_leadsInline leading' leads lexes declares told
  · intro order perm behind
    have leading' := fun word mem => leading word (perm.mem_iff.1 mem)
    exact answer_of_inline_behind leading' behind lexes declares

theorem answer_led_two_orders :
    let found : Answer :=
      ⟨some (.ofFunction ⟨.returning ⟨.int, [.star]⟩, "f", [⟨⟨.int, []⟩, ""⟩], true⟩), [], none⟩
    (∀ order, order.Perm ["inline", "extern", "const"] → leadsInline order →
      answer (some "P") (Text.led order "int *f(int);".toList) = .ok found) ∧
    ∀ order, order.Perm ["inline", "extern", "const"] → leadsInline order = false → ∃ place,
      answer (some "P") (Text.led order "int *f(int);".toList) =
        .error (.unexpectedToken "a type" "'inline'" place) := by
  intro found
  let signature : Signature := ⟨"f", [⟨⟨.int, []⟩, ""⟩], false⟩
  let tokens : List Token := [⟨.keyword .int, 0, [' ']⟩, ⟨.punctuation .star, 4, []⟩,
    ⟨.identifier "f", 5, []⟩, ⟨.opening .round, 6, []⟩, ⟨.keyword .int, 7, []⟩,
    ⟨.closing .round, 10, []⟩, ⟨.punctuation .semicolon, 11, []⟩]
  let behind : List Token := [⟨.keyword .int, 7, [' ']⟩, ⟨.punctuation .star, 11, []⟩,
    ⟨.identifier "f", 12, []⟩, ⟨.opening .round, 13, []⟩, ⟨.keyword .int, 14, []⟩,
    ⟨.closing .round, 17, []⟩, ⟨.punctuation .semicolon, 18, []⟩]
  have lexes : Lexed.ofText "int *f(int);".toList = .ok ⟨[], tokens⟩ := by cbv
  have lexes' : Lexed.ofText (Text.led ["inline"] "int *f(int);".toList) =
      .ok ⟨[], ⟨.keyword .inline, 0, [' ']⟩ :: behind⟩ := by cbv
  have declares : Item.IsUnspecified (some "P") tokens := by
    refine ⟨.inl (by rfl), ?_, ?_⟩
    · rintro _ ⟨⟩
      rfl
    · rintro _ ⟨⟩ leading
      revert leading
      decide
  have parses : answer (some "P") (Text.led ["inline"] "int *f(int);".toList) = .ok found := by
    have typed : CType.read [] behind = .ok (⟨.int, [.star]⟩, behind.drop 2) := by rfl
    have named : Signature.read [] false (behind.drop 2) = .ok (signature, behind.drop 6) := by rfl
    rw [answer_of_ofText lexes', Item.answer_inline rfl]
    exact Item.answer_declared (.inClass "P") behind _ _ (by rfl) typed named rfl
  exact answer_led (by decide) lexes declares parses

/-- The order matters for `inline`, and in a class that has the name of a specifier. -/
theorem answer_led_reordered :
    (["static", "inline"].Perm ["inline", "static"] ∧
      ∃ found, answer none (Text.led ["inline"] "int f();".toList) = .ok found ∧
        answer none (Text.led ["inline", "static"] "int f();".toList) = .ok found ∧
        answer none (Text.led ["static", "inline"] "int f();".toList) =
          .error (.unexpectedToken "a type" "'inline'" 7)) ∧
    ["static", "const"].Perm ["const", "static"] ∧
      ∃ found, answer (some "static") (Text.led ["inline"] "int ~();".toList) = .ok found ∧
        answer (some "static") (Text.led ["const", "static"] "int ~();".toList) = .ok found ∧
        answer (some "static") (Text.led ["static", "const"] "int ~();".toList) =
          .error (.nameMismatch "static" "static const int ~") := by
  constructor
  · let signature : Signature := ⟨"f", [], false⟩
    let found : Answer := ⟨some (.ofFunction ⟨.returning ⟨.int, []⟩, "f", [], false⟩), [], none⟩
    let declared (start : Nat) : List Token := [⟨.keyword .int, start, [' ']⟩,
      ⟨.identifier "f", start + 4, []⟩, ⟨.opening .round, start + 5, []⟩,
      ⟨.closing .round, start + 6, []⟩, ⟨.punctuation .semicolon, start + 7, []⟩]
    have lexes : Lexed.ofText (Text.led ["inline"] "int f();".toList) =
        .ok ⟨[], ⟨.keyword .inline, 0, [' ']⟩ :: declared 7⟩ := by cbv
    have lexes' : Lexed.ofText (Text.led ["inline", "static"] "int f();".toList) =
        .ok ⟨[], ⟨.keyword .inline, 0, [' ']⟩ :: ⟨.identifier "static", 7, [' ']⟩ ::
          declared 14⟩ := by cbv
    have lexes'' : Lexed.ofText (Text.led ["static", "inline"] "int f();".toList) =
        .ok ⟨[], ⟨.identifier "static", 0, [' ']⟩ :: ⟨.keyword .inline, 7, [' ']⟩ ::
          declared 14⟩ := by cbv
    have named (start : Nat) : Signature.read [] false (declared start).tail =
        .ok (signature, (declared start).drop 4) := by rfl
    refine ⟨.swap _ _ _, found, ?_, ?_, ?_⟩
    · rw [answer_of_ofText lexes, Item.answer_inline rfl]
      exact Item.answer_declared .top (declared 7) (declared 7).tail ⟨.int, []⟩ (by rfl) (by rfl)
        (named 7) rfl
    · rw [answer_of_ofText lexes', Item.answer_inline rfl]
      exact Item.answer_declared .top (⟨.identifier "static", 7, [' ']⟩ :: declared 14)
        (declared 14).tail ⟨.int, []⟩ (by rfl) (by rfl) (named 14) rfl
    · have starts : Item.kind? none false (⟨.identifier "static", 0, [' ']⟩ ::
          ⟨.keyword .inline, 7, [' ']⟩ :: declared 14) = some .function := by rfl
      rw [answer_of_ofText lexes'']
      exact @Item.answer_of_isPlain .top _ _ _ starts rfl
  · let signature : Signature := ⟨"~", [], false⟩
    let found : Answer := ⟨some (.ofFunction ⟨.returning ⟨.int, []⟩, "~", [], true⟩), [], none⟩
    let declared (start : Nat) : List Token := [⟨.keyword .int, start, [' ']⟩,
      ⟨.punctuation .tilde, start + 4, []⟩, ⟨.opening .round, start + 5, []⟩,
      ⟨.closing .round, start + 6, []⟩, ⟨.punctuation .semicolon, start + 7, []⟩]
    have lexes : Lexed.ofText (Text.led ["inline"] "int ~();".toList) =
        .ok ⟨[], ⟨.keyword .inline, 0, [' ']⟩ :: declared 7⟩ := by cbv
    have lexes' : Lexed.ofText (Text.led ["const", "static"] "int ~();".toList) =
        .ok ⟨[], ⟨.keyword .const, 0, [' ']⟩ :: ⟨.identifier "static", 6, [' ']⟩ ::
          declared 13⟩ := by cbv
    have lexes'' : Lexed.ofText (Text.led ["static", "const"] "int ~();".toList) =
        .ok ⟨[], ⟨.identifier "static", 0, [' ']⟩ :: ⟨.keyword .const, 7, [' ']⟩ ::
          declared 13⟩ := by cbv
    have named (start : Nat) : Signature.read [] false (declared start).tail =
        .ok (signature, (declared start).drop 4) := by rfl
    refine ⟨.swap _ _ _, found, ?_, ?_, ?_⟩
    · rw [answer_of_ofText lexes, Item.answer_inline rfl]
      exact Item.answer_declared (.inClass "static") (declared 7) (declared 7).tail ⟨.int, []⟩
        (by rfl) (by rfl) (named 7) rfl
    · rw [answer_of_ofText lexes']
      exact Item.answer_declared (.inClass "static")
        (⟨.keyword .const, 0, [' ']⟩ :: ⟨.identifier "static", 6, [' ']⟩ :: declared 13)
        (declared 13).tail ⟨.int, []⟩ (by rfl) (by rfl) (named 13) rfl
    · have starts : Item.kind? (some "static") false (⟨.identifier "static", 0, [' ']⟩ ::
          ⟨.keyword .const, 7, [' ']⟩ :: declared 13) = some .constructor := by rfl
      rw [answer_of_ofText lexes'']
      exact @Item.answer_of_isPlain (.inClass "static") _ _ _ starts rfl

end Parser

end PxdStub
