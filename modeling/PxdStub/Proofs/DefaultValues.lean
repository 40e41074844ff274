import PxdStub.Proofs.ParameterLists
import PxdStub.Proofs.Progress

/-!
Default values never change a declaration. A function or constructor is read as the same item, with
the same text left, when some of its parameters are given default values.
-/

namespace PxdStub

variable {later front tokens : List Token} {owner : Option String} {inName : Bool}

/-! ### Kinds are decided in front of a parenthesis -/

theorem Token.dropFunctionSpecifiers_fits (fits : Token.Fits later front tokens)
    (some : dropFunctionSpecifiers front ≠ []) :
    Token.Fits later (dropFunctionSpecifiers front) (dropFunctionSpecifiers tokens) := by
  unfold dropFunctionSpecifiers at some ⊢
  induction fits with
  | nil => exact absurd rfl some
  | @cons token token' rest rest' lexeme gap behind ih =>
      rw [List.dropWhile_cons] at some ⊢
      rw [List.dropWhile_cons, lexeme]
      split at some
      · next specifier =>
          rw [if_pos specifier, if_pos specifier]
          exact ih some
      · next other =>
          rw [if_neg other, if_neg other]
          exact .cons lexeme gap behind

namespace Kind

theorem reachesParenthesis_fits (fits : Token.Fits later front tokens)
    (opens : ∃ token ∈ front, token.lexeme = .opening .round) :
    reachesParenthesis tokens = reachesParenthesis front := by
  induction fits with
  | nil => simp at opens
  | @cons token token' rest rest' lexeme gap behind ih =>
      unfold reachesParenthesis
      rw [lexeme]
      split
      · rfl
      · rfl
      · rfl
      · next noParenthesis _ _ =>
          refine ih ?_
          obtain ⟨opening, mem, round⟩ := opens
          obtain rfl | mem := List.mem_cons.1 mem
          · exact absurd round noParenthesis
          · exact ⟨opening, mem, round⟩

theorem isCallable_fits {braces angles : Nat} (fits : Token.Fits later front tokens)
    (callable : isCallable braces angles inName front) :
    isCallable braces angles inName tokens := by
  induction fits generalizing braces angles inName with
  | nil => cases callable
  | @cons token token' rest rest' lexeme gap behind ih =>
      unfold isCallable at callable ⊢
      rw [lexeme]
      dsimp only at callable ⊢
      split at callable
      · exact ih callable
      · exact ih callable
      · exact ih callable
      · exact ih callable
      · split at callable
        · cases callable
        · next further =>
            rw [if_neg further]
            exact ih callable
      · split at callable
        · next outermost => rw [if_pos outermost]
        · next within =>
            rw [if_neg within]
            exact ih callable
      · split at callable
        · cases callable
        · next within =>
            rw [if_neg within]
            exact ih callable
      · exact ih callable

theorem ofOwner?_fits {owner : String} (fits : Token.Fits later front tokens)
    (opens : ∃ token ∈ front, token.lexeme = .opening .round) :
    ofOwner? owner tokens = ofOwner? owner front := by
  obtain ⟨opening, mem, round⟩ := opens
  have plain : opening.lexeme.isFunctionSpecifier = false := by
    rw [round]
    rfl
  have kept : opening ∈ Token.dropFunctionSpecifiers front := by
    rw [← List.takeWhile_append_dropWhile (p := fun token : Token =>
      token.lexeme.isFunctionSpecifier) (l := front)] at mem
    obtain passed | kept := List.mem_append.1 mem
    · have specifier := List.mem_takeWhile_imp passed
      rw [plain] at specifier
      cases specifier
    · exact kept
  have behind := Token.dropFunctionSpecifiers_fits fits (List.ne_nil_of_mem kept)
  unfold ofOwner?
  generalize Token.dropFunctionSpecifiers front = start at kept behind ⊢
  generalize Token.dropFunctionSpecifiers tokens = start' at behind ⊢
  cases behind with
  | nil => cases kept
  | @cons token token' rest rest' lexeme gap behind =>
      have later : token.lexeme ≠ .opening .round → opening ∈ rest := by
        intro other
        obtain rfl | mem := List.mem_cons.1 kept
        · exact absurd round other
        · exact mem
      have named : (token.lexeme = .identifier owner && reachesParenthesis rest') =
          (token.lexeme = .identifier owner && reachesParenthesis rest) := by
        by_cases name : token.lexeme = .identifier owner
        · rw [reachesParenthesis_fits behind ⟨opening, later (by simp [name]), round⟩]
        · simp [name]
      have next : (token.lexeme = .punctuation .tilde &&
            rest'.head?.any fun next => next.lexeme = .identifier owner) =
          (token.lexeme = .punctuation .tilde &&
            rest.head?.any fun next => next.lexeme = .identifier owner) := by
        by_cases tilde : token.lexeme = .punctuation .tilde
        · have mem := later (by simp [tilde])
          cases behind with
          | nil => cases mem
          | cons lexeme' _ _ =>
              dsimp only [List.head?_cons, Option.any_some]
              rw [lexeme']
        · simp [tilde]
      dsimp only
      rw [lexeme, named, next]

/-- The kind of an item with parameters is decided in front of them. -/
theorem ofTokens_fits {kind : Kind} (fits : Token.Fits later front tokens)
    (opens : ∃ token ∈ front, token.lexeme = .opening .round)
    (decided : ofTokens owner inName front = kind) (other : kind ≠ .variableList) :
    ofTokens owner inName tokens = kind := by
  have named : (owner.bind fun owner => ofOwner? owner tokens) =
      owner.bind fun owner => ofOwner? owner front := by
    cases owner with
    | none => rfl
    | some owner => exact ofOwner?_fits fits opens
  have keyword : ofKeyword? tokens = ofKeyword? front := by
    cases fits with
    | nil => simp at opens
    | cons lexeme _ _ => rw [ofKeyword?, ofKeyword?, lexeme]
  unfold ofTokens at decided ⊢
  rw [named, keyword]
  split at decided
  · exact decided
  · split at decided
    · exact decided
    · split at decided
      · next callable =>
          rw [if_pos (isCallable_fits fits callable)]
          exact decided
      · exact absurd decided.symm other

end Kind

namespace Item

theorem kind?_fits {kind : Kind} (fits : Token.Fits later front tokens)
    (opens : ∃ token ∈ front, token.lexeme = .opening .round)
    (starts : kind? owner inName front = some kind) (other : kind ≠ .variableList) :
    kind? owner inName tokens = some kind := by
  obtain ⟨token, rest, rfl, noSemicolon, decided⟩ := kind?_eq_some_iff.1 starts
  have decided := Kind.ofTokens_fits fits opens decided other
  obtain _ | @⟨_, token', _, rest', lexeme, _, _⟩ := fits
  exact kind?_eq_some_iff.2 ⟨token', rest', rfl, by rwa [lexeme], decided⟩

theorem kind?_of_semicolon {token : Token} {rest : List Token} (here : token.lexeme.isSemicolon) :
    kind? owner inName (token :: rest) = none := by
  rw [kind?, if_pos here]

theorem Reads.of_inline {scope : Scope} {token : Token} {inner rest : List Token}
    {declaration? : Option Declaration} {omissions : List Omission}
    (reads : Reads scope inName (token :: inner) declaration? omissions rest)
    (word : token.lexeme = .keyword .inline) :
    Reads scope (token.lexeme.namesOperator inName) inner declaration? omissions rest := by
  have starts : kind? scope.owner inName (token :: inner) = some .inline :=
    (kind?_eq_iff_keyword rfl).2 word
  cases reads with
  | inline _ inner => exact inner
  | semicolon here => cases (kind?_of_semicolon here).symm.trans starts
  | template starts' | forward starts' | definition starts' => cases starts.symm.trans starts'
  | plain starts' isPlain =>
      cases starts.symm.trans starts'
      cases isPlain

theorem Reads.of_template {scope : Scope} {token : Token} {more rest : List Token}
    {declaration? : Option Declaration} {omissions : List Omission}
    (reads : Reads scope inName (token :: more) declaration? omissions rest)
    (word : token.lexeme = .keyword .template) : ∃ inner,
      dropTemplate scope.beyond (token :: more) = .ok inner ∧
        Reads scope (Token.namesOperator inName (Token.before (token :: more) inner)) inner
          declaration? omissions rest := by
  have starts : kind? scope.owner inName (token :: more) = some .template :=
    (kind?_eq_iff_keyword rfl).2 word
  cases reads with
  | template _ dropped inner => exact ⟨_, dropped, inner⟩
  | semicolon here => cases (kind?_of_semicolon here).symm.trans starts
  | inline starts' | forward starts' | definition starts' => cases starts.symm.trans starts'
  | plain starts' isPlain =>
      cases starts.symm.trans starts'
      cases isPlain

/-- The one rule by which an item of a plain kind is read. -/
theorem Reads.readPlain {scope : Scope} {tokens rest : List Token} {kind : Kind}
    {declaration? : Option Declaration} {omissions : List Omission}
    (reads : Reads scope inName tokens declaration? omissions rest)
    (starts : kind? scope.owner inName tokens = some kind) (isPlain : kind.isPlain) :
    ∃ outcome, Item.readPlain scope inName kind tokens = .ok (outcome, rest) ∧
      declaration? = outcome.declaration? ∧ omissions = Note.omissions outcome.notes := by
  have apart : ∀ {other : Kind}, kind? scope.owner inName tokens = some other → kind = other := by
    intro other starts'
    exact Option.some.inj (starts.symm.trans starts')
  cases reads with
  | semicolon here => cases (kind?_of_semicolon here).symm.trans starts
  | template starts' | inline starts' | forward starts' | definition starts' =>
      rw [apart starts'] at isPlain
      cases isPlain
  | plain starts' _ found =>
      rw [apart starts']
      exact ⟨_, found, rfl, rfl⟩

end Item

/-! ### Declarations up to their parameters -/

namespace Item

/-- Tokens of a declaration up to the parenthesis that opens its parameters. They tell whether it is
a function or a constructor, and `inline` and template parameters may stand in front. -/
inductive OpensParameters (owner : Option String) : Bool → List Token → Prop
  | function {inName : Bool} {front call : List Token} {type : CType} :
      kind? owner inName front = some .function →
      CType.read [] front = .ok (type, call) →
      Signature.OpensCall (Token.namesOperator inName (Token.before front call)) call →
      OpensParameters owner inName front
  | constructor {inName : Bool} {front : List Token} :
      kind? owner inName front = some .constructor →
      Signature.OpensCall false (Token.dropFunctionSpecifiers front) →
      OpensParameters owner inName front
  | inline {inName : Bool} {token : Token} {front : List Token} :
      token.lexeme = .keyword .inline →
      OpensParameters owner (token.lexeme.namesOperator inName) front →
      OpensParameters owner inName (token :: front)
  | template {inName : Bool} {token : Token} {rest front : List Token} :
      token.lexeme = .keyword .template → dropTemplate [] (token :: rest) = .ok front →
      OpensParameters owner (Token.namesOperator inName (Token.before (token :: rest) front))
        front →
      OpensParameters owner inName (token :: rest)

/-- The tokens of a declaration, and those of the same one with default values for some of its
parameters. -/
inductive WithDefaults (owner : Option String) : List Token → List Token → Prop
  | intro {front front' later later' : List Token} :
      OpensParameters owner false front → Token.Fits [] front front' →
      Signature.Calls Token.Moved later later' →
      WithDefaults owner (front ++ later) (front' ++ later')

end Item

/-! ### Items -/

theorem Token.Moved.of_suffix {behind behind' rest rest' : List Token}
    (moved : Moved behind behind') (suffix : rest <:+ behind) (suffix' : rest' <:+ behind')
    (size : rest'.length = rest.length) : Moved rest rest' := by
  rw [List.suffix_iff_eq_drop] at suffix suffix'
  rw [suffix, suffix', moved.length, size]
  exact moved.drop _

variable {scope scope' : Scope} {later' tokens' rest call : List Token} {outcome : Outcome}

namespace Function

theorem read_ok_iff : read scope inName tokens = .ok (outcome, rest) ↔
    ∃ type call signature behind, CType.read scope.beyond tokens = .ok (type, call) ∧
      Signature.read scope.beyond (Token.namesOperator inName (Token.before tokens call)) call =
        .ok (signature, behind) ∧
      dropEnding scope.beyond signature.name behind = .ok rest ∧
      outcome = signature.outcome scope (.returning type) := by
  rw [read, Except.bind_ok_iff]
  constructor
  · rintro ⟨⟨type, call⟩, typed, found⟩
    obtain ⟨⟨signature, behind⟩, named, found⟩ := Except.bind_ok_iff.1 found
    obtain ⟨after, ended, done⟩ := Except.bind_ok_iff.1 found
    cases done
    exact ⟨type, call, signature, behind, typed, named, ended, rfl⟩
  · rintro ⟨type, call, signature, behind, typed, named, ended, rfl⟩
    exact ⟨_, typed, Except.bind_ok_iff.2 ⟨_, named, Except.bind_ok_iff.2 ⟨_, ended, rfl⟩⟩⟩

theorem readConstructor_ok_iff : readConstructor scope tokens = .ok (outcome, rest) ↔
    ∃ signature behind, Signature.read scope.beyond false (Token.dropFunctionSpecifiers tokens) =
        .ok (signature, behind) ∧
      signature.name = scope.owner.getD "" ∧
      dropEnding scope.beyond signature.name behind = .ok rest ∧
      outcome = signature.outcome scope .constructor := by
  rw [readConstructor, Except.bind_ok_iff]
  constructor
  · rintro ⟨⟨signature, behind⟩, named, found⟩
    dsimp only at found
    split at found
    · cases found
    · next same =>
        obtain ⟨after, ended, done⟩ := Except.bind_ok_iff.1 found
        cases done
        exact ⟨signature, behind, named, not_not.1 same, ended, rfl⟩
  · rintro ⟨signature, behind, named, same, ended, rfl⟩
    refine ⟨_, named, ?_⟩
    dsimp only
    rw [if_neg (not_not.2 same)]
    exact Except.bind_ok_iff.2 ⟨_, ended, rfl⟩

/-- Whether function ends that are `related` leave tokens that are `kin`. -/
def EndsAlike (related kin : List Token → List Token → Prop) : Prop :=
  ∀ {behind behind' rest : List Token} {beyond : List Char} (beyond' : List Char) {name : String},
    related behind behind' → dropEnding beyond name behind = .ok rest →
      ∃ rest', dropEnding beyond' name behind' = .ok rest' ∧ kin rest rest'

theorem endsAlike_moved : EndsAlike Token.Moved Token.Moved := by
  intro behind behind' rest beyond beyond' name moved found
  have fits := moved.fits []
  rw [List.append_nil] at fits
  obtain ⟨rest', found', fits'⟩ :=
    @agree_dropEnding _ _ _ beyond beyond' name fits (Or.inl rfl) _ found
  have suffix := endsIn_dropEnding beyond name behind
  have suffix' := endsIn_dropEnding beyond' name behind'
  rw [found] at suffix
  rw [found'] at suffix'
  exact ⟨rest', found', moved.of_suffix suffix suffix' (by simp [fits'.length])⟩

variable {related kin : List Token → List Token → Prop}

theorem read_calls {type : CType} (ends : EndsAlike related kin) (alike : scope.Alike scope')
    (typed : CType.read [] front = .ok (type, call))
    (opens : Signature.OpensCall (Token.namesOperator inName (Token.before front call)) call)
    (calls : Signature.Calls related later later') (fits : Token.Fits later front tokens)
    (fits' : Token.Fits later' front tokens')
    (found : read scope inName tokens = .ok (outcome, rest)) :
    ∃ rest', read scope' inName tokens' = .ok (outcome, rest') ∧ kin rest rest' := by
  have alone : CType.read [] (front ++ []) = .ok (type, call ++ []) := by
    rwa [List.append_nil, List.append_nil]
  have suffix := CType.endsIn_read [] front
  rw [typed] at suffix
  obtain ⟨left, here, within⟩ :=
    @CType.read_within _ _ _ _ _ _ scope.beyond _ fits opens.stops alone
  obtain ⟨left', here', within'⟩ :=
    @CType.read_within _ _ _ _ _ _ scope'.beyond _ fits' opens.stops alone
  obtain ⟨type, left, signature, behind, typed, named, ended, rfl⟩ := read_ok_iff.1 found
  cases here.symm.trans typed
  rw [(fits.before within suffix).namesOperator] at named
  obtain ⟨behind', named', met⟩ :=
    @Signature.read_calls _ _ _ _ scope'.beyond _ _ _ _ _ _ calls opens within within' named
  obtain ⟨rest', ended', left⟩ := ends scope'.beyond met ended
  rw [← (fits'.before within' suffix).namesOperator] at named'
  refine ⟨rest', read_ok_iff.2 ⟨_, _, signature, behind', here', named', ended', ?_⟩, left⟩
  exact (Signature.outcome_alike alike _ signature).symm

theorem readConstructor_calls (ends : EndsAlike related kin) (alike : scope.Alike scope')
    (opens : Signature.OpensCall false (Token.dropFunctionSpecifiers front))
    (calls : Signature.Calls related later later') (fits : Token.Fits later front tokens)
    (fits' : Token.Fits later' front tokens')
    (found : readConstructor scope tokens = .ok (outcome, rest)) :
    ∃ rest', readConstructor scope' tokens' = .ok (outcome, rest') ∧ kin rest rest' := by
  obtain ⟨signature, behind, named, same, ended, rfl⟩ := readConstructor_ok_iff.1 found
  obtain ⟨behind', named', met⟩ := @Signature.read_calls _ _ _ _ scope'.beyond _ _ _ _ _ _
    calls opens (Token.dropFunctionSpecifiers_fits fits opens.stops.1)
    (Token.dropFunctionSpecifiers_fits fits' opens.stops.1) named
  obtain ⟨rest', ended', left⟩ := ends scope'.beyond met ended
  rw [← alike.owner] at same
  refine ⟨rest', readConstructor_ok_iff.2 ⟨signature, behind', named', same, ended', ?_⟩, left⟩
  exact (Signature.outcome_alike alike _ signature).symm

end Function

namespace Item

theorem dropTemplate_fits {token : Token} {rest : List Token} (beyond : List Char)
    (fits : Token.Fits later (token :: rest) tokens)
    (dropped : dropTemplate [] (token :: rest) = .ok front) :
    ∃ inner, dropTemplate beyond tokens = .ok inner ∧ Token.Fits later front inner := by
  obtain _ | ⟨_, _, _ | @⟨opening, opening', more, more', lexeme, gap, behind⟩⟩ := fits
  · cases dropped
  · unfold dropTemplate at dropped ⊢
    dsimp only [List.tail_cons] at dropped ⊢
    rw [lexeme]
    split at dropped
    · next opens =>
        obtain ⟨⟨inside, close, after⟩, here, rfl⟩ := Except.map_ok_iff.1 dropped
        have here : Enclosure.read [] (opening :: more) (opening :: (more ++ [])) =
            .ok ⟨inside, close, after ++ []⟩ := by
          rw [List.append_nil, List.append_nil]
          exact here
        obtain ⟨inside', close', left, here', _, within⟩ :=
          Enclosure.read_within beyond (opening' :: more') behind lexeme here
        rw [if_pos opens]
        exact ⟨left, Except.map_ok_iff.2 ⟨_, here', rfl⟩, within⟩
    · cases dropped

theorem OpensParameters.exists_round (opens : OpensParameters owner inName front) :
    ∃ token ∈ front, token.lexeme = .opening .round := by
  induction opens with
  | @function _ front _ _ _ typed opens =>
      have suffix := CType.endsIn_read [] front
      rw [typed] at suffix
      exact opens.exists_round suffix
  | constructor _ opens => exact opens.exists_round (List.dropWhile_suffix _)
  | inline _ _ ih =>
      obtain ⟨token, mem, round⟩ := ih
      exact ⟨token, List.mem_cons_of_mem _ mem, round⟩
  | @template _ token rest _ _ dropped _ ih =>
      have suffix := endsIn_dropTemplate [] (token :: rest)
      rw [dropped] at suffix
      obtain ⟨token, mem, round⟩ := ih
      exact ⟨token, suffix.subset mem, round⟩

/-- A declaration is read in the same way with default values and without them, and with a related
end. -/
theorem Reads.calls {related kin : List Token → List Token → Prop} {scope scope' : Scope}
    {declaration? : Option Declaration} {omissions : List Omission}
    (ends : Function.EndsAlike related kin) (alike : scope.Alike scope')
    (opens : OpensParameters scope.owner inName front)
    (calls : Signature.Calls related later later') (fits : Token.Fits later front tokens)
    (fits' : Token.Fits later' front tokens')
    (reads : Reads scope inName tokens declaration? omissions rest) :
    ∃ rest', Reads scope' inName tokens' declaration? omissions rest' ∧ kin rest rest' := by
  induction opens generalizing tokens tokens' with
  | @function inName front call type starts typed opens =>
      have round := (OpensParameters.function starts typed opens).exists_round
      have here := kind?_fits fits round starts nofun
      have here' := kind?_fits fits' round starts nofun
      obtain ⟨outcome, found, rfl, rfl⟩ := reads.readPlain here rfl
      obtain ⟨rest', found', left⟩ :=
        Function.read_calls ends alike typed opens calls fits fits' found
      rw [← alike.owner] at here'
      exact ⟨rest', .plain here' rfl found', left⟩
  | constructor starts opens =>
      have round := (OpensParameters.constructor starts opens).exists_round
      have here := kind?_fits fits round starts nofun
      have here' := kind?_fits fits' round starts nofun
      obtain ⟨outcome, found, rfl, rfl⟩ := reads.readPlain here rfl
      obtain ⟨rest', found', left⟩ :=
        Function.readConstructor_calls ends alike opens calls fits fits' found
      rw [← alike.owner] at here'
      exact ⟨rest', .plain here' rfl found', left⟩
  | inline word opens ih =>
      obtain _ | ⟨lexeme, _, behind⟩ := fits
      obtain _ | ⟨lexeme', _, behind'⟩ := fits'
      have inner := reads.of_inline (lexeme.trans word)
      rw [lexeme] at inner
      obtain ⟨rest', inner', left⟩ := ih behind behind' inner
      rw [← lexeme'] at inner'
      exact ⟨rest', .inline ((kind?_eq_iff_keyword rfl).2 (lexeme'.trans word)) inner', left⟩
  | @template inName token rest front word dropped opens ih =>
      have suffix := endsIn_dropTemplate [] (token :: rest)
      rw [dropped] at suffix
      obtain ⟨inner, here, within⟩ := dropTemplate_fits scope.beyond fits dropped
      obtain ⟨inner', here', within'⟩ := dropTemplate_fits scope'.beyond fits' dropped
      -- The tokens passed say whether the item behind them begins within the name of an operator.
      have name := (fits.before within suffix).namesOperator inName
      have name' := (fits'.before within' suffix).namesOperator inName
      obtain _ | ⟨lexeme, _, _⟩ := fits
      obtain _ | ⟨lexeme', _, _⟩ := fits'
      obtain ⟨_, same, inside⟩ := reads.of_template (lexeme.trans word)
      cases here.symm.trans same
      rw [name] at inside
      obtain ⟨rest', inside', left⟩ := ih within within' inside
      rw [← name'] at inside'
      exact ⟨rest', .template ((kind?_eq_iff_keyword rfl).2 (lexeme'.trans word)) here' inside',
        left⟩

/-- What calls on a declaration with default values and without them answer. -/
theorem WithDefaults.reads {scope scope' : Scope} {declaration? : Option Declaration}
    {omissions : List Omission} (alike : scope.Alike scope')
    (defaults : WithDefaults scope.owner tokens tokens')
    (reads : Reads scope false tokens declaration? omissions rest) :
    ∃ rest', Reads scope' false tokens' declaration? omissions rest' ∧ Token.Moved rest rest' := by
  obtain @⟨front, front', later, later', opens, fits, calls⟩ := defaults
  exact reads.calls Function.endsAlike_moved alike opens calls (Token.Moved.fits rfl later)
    (fits.append later')

end Item

namespace Parser

theorem itemAndRest_defaults {text text' : List Char} {lexed lexed' : Lexed}
    {found : Option Declaration × Option (List Char)} (lexes : Lexed.ofText text = .ok lexed)
    (lexes' : Lexed.ofText text' = .ok lexed')
    (defaults : Item.WithDefaults owner lexed.tokens lexed'.tokens)
    (parsed : itemAndRest owner text = .ok found) : itemAndRest owner text' = .ok found := by
  obtain ⟨declaration?, left⟩ := found
  obtain ⟨_, omissions, rest, here, reads, rfl⟩ := itemAndRest_eq_ok_iff.1 parsed
  cases lexes.symm.trans here
  have scope : (Scope.ofOwner owner).owner = owner := by
    cases owner <;> rfl
  rw [← scope] at defaults
  obtain ⟨rest', reads', moved⟩ := defaults.reads ⟨rfl, rfl⟩ reads
  refine itemAndRest_eq_ok_iff.2 ⟨lexed', omissions, rest', lexes', reads', ?_⟩
  rw [moved.sourceOf, moved.isEmpty]

theorem itemAndRest_two_defaults : ∃ function : Function,
    function.arguments = [⟨⟨.int, []⟩, "x", true⟩, ⟨⟨.int, []⟩, "y", true⟩] ∧
    itemAndRest none "void f(int x, int y); A".toList =
      .ok (some (.ofFunction function), some "A".toList) ∧
    itemAndRest none "void f(int x = g(1, 2), int y = {3}); A".toList =
      .ok (some (.ofFunction function), some "A".toList) := by
  let signature : Signature := ⟨"f", [⟨⟨.int, []⟩, "x"⟩, ⟨⟨.int, []⟩, "y"⟩], false⟩
  let front : List Token := [⟨.keyword .void, 0, [' ']⟩, ⟨.identifier "f", 5, []⟩,
    ⟨.opening .round, 6, []⟩]
  let first : List Token := [⟨.keyword .int, 7, [' ']⟩, ⟨.identifier "x", 11, []⟩]
  let second : List Token := [⟨.keyword .int, 14, [' ']⟩, ⟨.identifier "y", 18, []⟩]
  let tokens : List Token := front ++ ((first ++ ⟨.punctuation .comma, 12, [' ']⟩ :: second) ++
    ⟨.closing .round, 19, []⟩ :: [⟨.punctuation .semicolon, 20, [' ']⟩, ⟨.identifier "A", 22, []⟩])
  let value : List Token := [⟨.identifier "g", 15, []⟩, ⟨.opening .round, 16, []⟩,
    ⟨.number "1", 17, []⟩, ⟨.punctuation .comma, 18, [' ']⟩, ⟨.number "2", 20, []⟩,
    ⟨.closing .round, 21, []⟩]
  let value' : List Token := [⟨.opening .curly, 32, []⟩, ⟨.number "3", 33, []⟩,
    ⟨.closing .curly, 34, []⟩]
  let first' : List Token := [⟨.keyword .int, 7, [' ']⟩, ⟨.identifier "x", 11, [' ']⟩] ++
    ⟨.punctuation .equals, 13, [' ']⟩ :: value
  let second' : List Token := [⟨.keyword .int, 24, [' ']⟩, ⟨.identifier "y", 28, [' ']⟩] ++
    ⟨.punctuation .equals, 30, [' ']⟩ :: value'
  let tokens' : List Token := front ++ ((first' ++ ⟨.punctuation .comma, 22, [' ']⟩ :: second') ++
    ⟨.closing .round, 35, []⟩ :: [⟨.punctuation .semicolon, 36, [' ']⟩, ⟨.identifier "A", 38, []⟩])
  have lexes : Lexed.ofText "void f(int x, int y); A".toList = .ok ⟨[], tokens⟩ := by cbv
  have lexes' : Lexed.ofText "void f(int x = g(1, 2), int y = {3}); A".toList =
      .ok ⟨[], tokens'⟩ := by cbv
  have opens : Item.OpensParameters none false front :=
    .function (by rfl) (by rfl) ⟨[⟨.identifier "f", 5, []⟩], _, rfl, by rfl⟩
  have default : Parameter.IsDefault value := ⟨List.cons_ne_nil _ _, by decide, by decide⟩
  have default' : Parameter.IsDefault value' := ⟨List.cons_ne_nil _ _, by decide, by decide⟩
  have given : Parameter.Given first first' :=
    .valued ⟨⟨⟨.int, []⟩, "x"⟩, by rfl, by decide⟩
      (.cons rfl (fun _ => rfl) (.cons rfl (fun none => absurd rfl none) .nil)) rfl default
  have given' : Parameter.Given second second' :=
    .valued ⟨⟨⟨.int, []⟩, "y"⟩, by rfl, by decide⟩
      (.cons rfl (fun _ => rfl) (.cons rfl (fun none => absurd rfl none) .nil)) rfl default'
  have defaults : Item.WithDefaults none tokens tokens' :=
    .intro opens (Token.Moved.fits rfl [])
      (.intro (.cons (by decide) (by decide) (by decide) given rfl rfl (.last (by decide) given'))
        (by decide) rfl rfl (by rfl))
  have named : Signature.read [] false tokens.tail = .ok (signature, tokens.drop 9) := by rfl
  have found : Item.readPlain .top false .function tokens =
      .ok (signature.outcome .top (.returning ⟨.void, []⟩), [⟨.identifier "A", 22, []⟩]) :=
    Function.read_ok_iff.2
      ⟨_, tokens.tail, signature, _, by rfl, named, Function.dropEnding_semicolon rfl, rfl⟩
  let function : Function := ⟨.returning ⟨.void, []⟩, signature.name, signature.parameters, false⟩
  have parsed : itemAndRest none "void f(int x, int y); A".toList =
      .ok (some (.ofFunction function), some "A".toList) :=
    itemAndRest_eq_ok_iff.2
      ⟨_, [], [⟨.identifier "A", 22, []⟩], lexes, .plain (by rfl) rfl found, by rfl⟩
  exact ⟨function, rfl, parsed, itemAndRest_defaults lexes lexes' defaults parsed⟩

/-- The arrow of a value closes its parenthesis for the search for commas. -/
theorem itemAndRest_arrow_in_value :
    itemAndRest none "void f(int x);".toList =
      .ok (some (.ofFunction ⟨.returning ⟨.void, []⟩, "f", [⟨⟨.int, []⟩, "x"⟩], false⟩), none) ∧
    itemAndRest none "void f(int x = g(p->n, 2));".toList =
      .error (.unexpectedToken "a type" "number 2" 23) := by
  let front : List Token := [⟨.keyword .void, 0, [' ']⟩, ⟨.identifier "f", 5, []⟩,
    ⟨.opening .round, 6, []⟩, ⟨.keyword .int, 7, [' ']⟩]
  let signature : Signature := ⟨"f", [⟨⟨.int, []⟩, "x"⟩], false⟩
  constructor
  · let semicolon : Token := ⟨.punctuation .semicolon, 13, []⟩
    let tokens : List Token :=
      front ++ [⟨.identifier "x", 11, []⟩, ⟨.closing .round, 12, []⟩, semicolon]
    have lexes : Lexed.ofText "void f(int x);".toList = .ok ⟨[], tokens⟩ := by cbv
    have typed : CType.read [] tokens = .ok (⟨.void, []⟩, tokens.tail) := by rfl
    have named : Signature.read [] false tokens.tail = .ok (signature, [semicolon]) := by rfl
    have ended : Function.dropEnding [] signature.name [semicolon] = .ok [] :=
      Function.dropEnding_semicolon rfl
    have found : Item.readPlain .top false .function tokens =
        .ok (signature.outcome .top (.returning ⟨.void, []⟩), []) :=
      Function.read_ok_iff.2 ⟨_, _, signature, _, typed, named, ended, rfl⟩
    exact itemAndRest_eq_ok_iff.2 ⟨_, [], [], lexes, .plain (by rfl) rfl found, rfl⟩
  · let value : List Token := [⟨.identifier "g", 15, []⟩, ⟨.opening .round, 16, []⟩,
      ⟨.identifier "p", 17, []⟩, ⟨.symbol '-', 18, []⟩, ⟨.closing .angle, 19, []⟩,
      ⟨.identifier "n", 20, []⟩, ⟨.punctuation .comma, 21, [' ']⟩]
    let behind : List Token := [⟨.number "2", 23, []⟩, ⟨.closing .round, 24, []⟩,
      ⟨.closing .round, 25, []⟩, ⟨.punctuation .semicolon, 26, []⟩]
    let tokens : List Token := front ++
      ⟨.identifier "x", 11, [' ']⟩ :: ⟨.punctuation .equals, 13, [' ']⟩ :: (value ++ behind)
    have lexes : Lexed.ofText "void f(int x = g(p->n, 2));".toList = .ok ⟨[], tokens⟩ := by cbv
    have failed : Item.readPlain .top false .function tokens =
        .error (.unexpected "a type" behind) := by rfl
    have starts : Item.kind? none false tokens = some .function := by rfl
    exact @itemAndRest_of_failure none _ _ _ _ lexes starts rfl failed

end Parser

end PxdStub
