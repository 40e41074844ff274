import PxdStub.Parser
import PxdStub.Proofs.Boundary

/-!
Items as rules. A reading that succeeds has a derivation, in which every kind of item has one rule;
what holds of all readings that succeed is shown by induction on derivations.
-/

namespace PxdStub

/-- The kind of the item that begins at `tokens`; a semicolon has none. -/
def Item.kind? (owner : Option String) (inName : Bool) : List Token → Option Kind
  | [] => none
  | token :: rest =>
      if token.lexeme.isSemicolon then none else some (Kind.ofTokens owner inName (token :: rest))

/-- The kinds whose items hold no further items. -/
def Kind.isPlain : Kind → Bool
  | .template | .inline | .classType => false
  | _ => true

/-- The keyword that begins the items of a kind. -/
def Kind.keyword? : Kind → Option Keyword
  | .template => some .template
  | .inline => some .inline
  | .typedef => some .typedef
  | .classType => some .classKey
  | _ => none

namespace Kind

theorem ofKeyword?_eq_some_iff {token : Token} {rest : List Token} {kind : Kind} :
    ofKeyword? (token :: rest) = some kind ↔
      ∃ word, kind.keyword? = some word ∧ token.lexeme = .keyword word := by
  rw [ofKeyword?]
  cases token.lexeme with
  | keyword word => cases word <;> cases kind <;> simp [keyword?]
  | _ => simp

theorem keyword?_of_ofOwner? {owner : String} {tokens : List Token} {kind : Kind}
    (named : ofOwner? owner tokens = some kind) : kind.keyword? = none := by
  unfold ofOwner? at named
  split at named
  · cases named
  · split at named
    · cases named
      rfl
    · split at named
      · cases named
        rfl
      · cases named

theorem ofOwner?_of_keyword {owner : String} {token : Token} {rest : List Token} {word : Keyword}
    (same : token.lexeme = .keyword word) : ofOwner? owner (token :: rest) = none := by
  have plain : Lexeme.isFunctionSpecifier (.keyword word) = false := rfl
  rw [ofOwner?, Token.dropFunctionSpecifiers, List.dropWhile_cons, same, if_neg (by simp [plain])]
  simp [same]

end Kind

namespace Item

mutual

/-- An item with its declaration, its omissions and the tokens behind it. -/
inductive Reads : Scope → Bool → List Token → Option Declaration → List Omission → List Token → Prop
  | semicolon {scope inName token rest} : token.lexeme.isSemicolon →
      Reads scope inName (token :: rest) none [] rest
  | template {scope inName tokens inner declaration? omissions rest} :
      kind? scope.owner inName tokens = some .template →
      dropTemplate scope.beyond tokens = .ok inner →
      Reads scope (Token.namesOperator inName (Token.before tokens inner)) inner declaration?
        omissions rest →
      Reads scope inName tokens declaration? omissions rest
  | inline {scope inName token inner declaration? omissions rest} :
      kind? scope.owner inName (token :: inner) = some .inline →
      Reads scope (token.lexeme.namesOperator inName) inner declaration? omissions rest →
      Reads scope inName (token :: inner) declaration? omissions rest
  | forward {scope inName tokens name rest} :
      kind? scope.owner inName tokens = some .classType →
      ClassItem.read scope.beyond tokens = .ok (.forward name, rest) →
      Reads scope inName tokens none [] rest
  | definition {scope inName tokens name sections rest declarations omissions} :
      kind? scope.owner inName tokens = some .classType →
      ClassItem.read scope.beyond tokens = .ok (.definition name sections, rest) →
      ReadsSections name (scope.depth + 1) sections declarations omissions →
      Reads scope inName tokens
        (some (.ofClass ⟨name, declarations.filterMap Declaration.member?⟩)) omissions rest
  | plain {scope inName tokens kind outcome rest} :
      kind? scope.owner inName tokens = some kind → kind.isPlain →
      readPlain scope inName kind tokens = .ok (outcome, rest) →
      Reads scope inName tokens outcome.declaration? (Note.omissions outcome.notes) rest

/-- The items of the public sections of a class, one section behind the other. -/
inductive ReadsSections :
    String → Nat → List Section → List Declaration → List Omission → Prop
  | nil {name depth} : ReadsSections name depth [] [] []
  | cons {name depth part parts declarations omissions later laterOmissions} :
      ReadsAll ⟨some name, depth, part.beyond⟩ false part.tokens declarations omissions →
      ReadsSections name depth parts later laterOmissions →
      ReadsSections name depth (part :: parts) (declarations ++ later)
        (omissions ++ laterOmissions)

/-- Items up to the end of the tokens. No operator's name goes on behind an item. -/
inductive ReadsAll : Scope → Bool → List Token → List Declaration → List Omission → Prop
  | nil {scope inName} : ReadsAll scope inName [] [] []
  | cons {scope inName tokens declaration? omissions rest later laterOmissions} :
      Reads scope inName tokens declaration? omissions rest →
      ReadsAll scope false rest later laterOmissions →
      ReadsAll scope inName tokens (declaration?.toList ++ later) (omissions ++ laterOmissions)

end

theorem kind?_eq_some_iff {owner : Option String} {inName : Bool} {tokens : List Token}
    {kind : Kind} : kind? owner inName tokens = some kind ↔ ∃ token rest, tokens = token :: rest ∧
      token.lexeme.isSemicolon = false ∧ Kind.ofTokens owner inName (token :: rest) = kind := by
  cases tokens with
  | nil => simp [kind?]
  | cons token rest =>
      rw [kind?]
      constructor
      · intro found
        split at found
        · cases found
        · next other => exact ⟨token, rest, rfl, by simpa using other, by simpa using found⟩
      · rintro ⟨first, more, same, other, kind⟩
        cases same
        simp [other, kind]

/-- A keyword alone decides for its kind, inside classes too. -/
theorem kind?_eq_iff_keyword {owner : Option String} {inName : Bool} {token : Token}
    {rest : List Token} {kind : Kind} {word : Keyword} (keyed : kind.keyword? = some word) :
    kind? owner inName (token :: rest) = some kind ↔ token.lexeme = .keyword word := by
  constructor
  · intro starts
    obtain ⟨_, _, same, _, decided⟩ := kind?_eq_some_iff.1 starts
    cases same
    unfold Kind.ofTokens at decided
    split at decided
    · next named =>
        obtain ⟨owner, _, named⟩ := Option.bind_eq_some_iff.1 named
        rw [decided] at named
        cases keyed.symm.trans (Kind.keyword?_of_ofOwner? named)
    · split at decided
      · next found =>
          rw [decided] at found
          obtain ⟨word', keyed', same⟩ := Kind.ofKeyword?_eq_some_iff.1 found
          cases keyed.symm.trans keyed'
          exact same
      · split at decided
        · cases decided
          cases keyed
        · cases decided
          cases keyed
  · intro same
    have unnamed : (owner.bind fun owner => Kind.ofOwner? owner (token :: rest)) = none := by
      cases owner with
      | none => rfl
      | some owner => exact Kind.ofOwner?_of_keyword same
    have found := (@Kind.ofKeyword?_eq_some_iff token rest kind).2 ⟨word, keyed, same⟩
    rw [kind?, if_neg (by simp [same, Lexeme.isSemicolon]), Kind.ofTokens, unnamed, found]

/-- A derivation keeps to the boundaries of items. -/
theorem Reads.endsItem {scope : Scope} {inName : Bool} {tokens : List Token}
    {declaration? : Option Declaration} {omissions : List Omission} {rest : List Token}
    (reads : Reads scope inName tokens declaration? omissions rest) : EndsItem tokens rest := by
  induction size : tokens.length using Nat.strong_induction_on
    generalizing inName tokens declaration? omissions with
  | _ size ih =>
      subst size
      cases reads with
      | semicolon here => exact Or.inr ⟨[], _, rfl, by simp [Lexeme.endsItem, here]⟩
      | template _ dropped inner =>
          have suffix := endsIn_dropTemplate scope.beyond tokens
          rw [dropped] at suffix
          exact (ih _ (length_dropTemplate dropped) inner rfl).mono suffix
      | inline _ inner =>
          exact (ih _ (Nat.lt_succ_self _) inner rfl).mono (List.suffix_cons _ _)
      | forward _ found => exact ClassItem.endsItem_of_read found
      | definition _ found _ => exact ClassItem.endsItem_of_read found
      | plain _ _ found => exact endsItem_of_readPlain found

theorem Reads.tokens_ne_nil {scope : Scope} {inName : Bool} {tokens : List Token}
    {declaration? : Option Declaration} {omissions : List Omission} {rest : List Token}
    (reads : Reads scope inName tokens declaration? omissions rest) : tokens ≠ [] := by
  cases reads with
  | semicolon here => exact List.cons_ne_nil _ _
  | inline starts inner => exact List.cons_ne_nil _ _
  | template starts _ _ | forward starts _ | definition starts _ _ | plain starts _ _ =>
      obtain ⟨token, more, rfl, _⟩ := kind?_eq_some_iff.1 starts
      exact List.cons_ne_nil _ _

theorem ReadsAll.eq_nil {scope : Scope} {inName : Bool} {tokens : List Token}
    {declarations : List Declaration} {omissions : List Omission}
    (all : ReadsAll scope inName tokens declarations omissions) (ended : tokens = []) :
    declarations = [] ∧ omissions = [] := by
  cases all with
  | nil => exact ⟨rfl, rfl⟩
  | cons reads _ => exact absurd ended reads.tokens_ne_nil

/-- What each section gives, one behind the other. -/
theorem ReadsSections.answers {name : String} {depth : Nat} {sections : List Section}
    {declarations : List Declaration} {omissions : List Omission}
    (reads : ReadsSections name depth sections declarations omissions) :
    ∃ answers : List (List Declaration × List Omission),
      List.Forall₂ (fun part answer =>
        ReadsAll ⟨some name, depth, part.beyond⟩ false part.tokens answer.1 answer.2)
        sections answers ∧
      declarations = answers.flatMap Prod.fst ∧ omissions = answers.flatMap Prod.snd := by
  induction sections generalizing declarations omissions with
  | nil =>
      cases reads
      exact ⟨[], .nil, rfl, rfl⟩
  | cons part parts ih =>
      cases reads with
      | cons first others =>
          obtain ⟨answers, all, rfl, rfl⟩ := ih others
          exact ⟨(_, _) :: answers, .cons first all, rfl, rfl⟩

end Item

/-! ### Courses that succeed -/

namespace Course

theorem bind_eq_ok {course : Course ε α} {next : α → Course ε β} {notes : List Note} {value : β}
    (found : course.bind next = ⟨notes, .ok value⟩) :
    ∃ first firstNotes laterNotes, course = ⟨firstNotes, .ok first⟩ ∧
      next first = ⟨laterNotes, .ok value⟩ ∧ notes = firstNotes ++ laterNotes := by
  obtain ⟨firstNotes, result⟩ := course
  cases result with
  | error error => simp [bind] at found
  | ok first =>
      simp only [bind, Course.mk.injEq] at found
      exact ⟨first, firstNotes, (next first).notes, rfl, by rw [← found.2], found.1.symm⟩

theorem note_bind_eq_ok {earlier notes : List Note} {next : Unit → Course ε β} {value : β}
    (found : (note earlier).bind next = ⟨notes, .ok value⟩) :
    ∃ laterNotes, next () = ⟨laterNotes, .ok value⟩ ∧ notes = earlier ++ laterNotes := by
  obtain ⟨_, _, laterNotes, first, later, whole⟩ := bind_eq_ok found
  cases first
  exact ⟨laterNotes, later, whole⟩

theorem ofExcept_bind_eq_ok {result : Except ε α} {next : α → Course ε β} {notes : List Note}
    {value : β} (found : (ofExcept result).bind next = ⟨notes, .ok value⟩) :
    ∃ first, result = .ok first ∧ next first = ⟨notes, .ok value⟩ := by
  cases result with
  | error error => cases found
  | ok first => exact ⟨first, rfl, found⟩

theorem ofExcept_ok_bind (value : α) (next : α → Course ε β) :
    (ofExcept (.ok value)).bind next = next value := rfl

theorem bind_of_ok {course : Course ε α} {next : α → Course ε β} {first : α} {value : β}
    {firstNotes laterNotes : List Note} (here : course = ⟨firstNotes, .ok first⟩)
    (later : next first = ⟨laterNotes, .ok value⟩) :
    course.bind next = ⟨firstNotes ++ laterNotes, .ok value⟩ := by
  rw [here]
  simp only [bind, later]

theorem note_bind_of_ok {earlier laterNotes : List Note} {next : Unit → Course ε β} {value : β}
    (later : next () = ⟨laterNotes, .ok value⟩) :
    (note earlier).bind next = ⟨earlier ++ laterNotes, .ok value⟩ :=
  bind_of_ok rfl later

theorem result_losing (course : Course ε α) : course.losing.result = course.result := by
  unfold losing
  split <;> rfl

theorem losing_of_ok {course : Course ε α} {notes : List Note} {value : α}
    (found : course = ⟨notes, .ok value⟩) : course.losing = ⟨notes, .ok value⟩ := by
  rw [found]
  rfl

theorem losing_eq_ok {course : Course ε α} {notes : List Note} {value : α}
    (found : course.losing = ⟨notes, .ok value⟩) : course = ⟨notes, .ok value⟩ := by
  obtain ⟨earlier, result⟩ := course
  cases result with
  | error error => simp [losing] at found
  | ok first => exact found

theorem mapError_of_ok {course : Course ε α} {change : ε → ε'} {notes : List Note} {value : α}
    (found : course = ⟨notes, .ok value⟩) : course.mapError change = ⟨notes, .ok value⟩ := by
  rw [found]
  rfl

theorem mapError_eq_ok {course : Course ε α} {change : ε → ε'} {notes : List Note} {value : α}
    (found : course.mapError change = ⟨notes, .ok value⟩) : course = ⟨notes, .ok value⟩ := by
  obtain ⟨earlier, result⟩ := course
  cases result with
  | error error => simp [mapError, Except.mapError] at found
  | ok first =>
      simp only [mapError, Except.mapError, Course.mk.injEq, Except.ok.injEq] at found
      rw [found.1, found.2]

end Course

@[simp]
theorem Note.omissions_append (left right : List Note) :
    omissions (left ++ right) = omissions left ++ omissions right := by
  simp [omissions]

@[simp]
theorem Note.omissions_item (depth : Nat) (kind : Kind) (text : String) :
    omissions [.item depth kind text] = [] := rfl

theorem nestedNotes_silent (owner : String) (declarations : List Declaration) :
    Note.omissions (declarations.flatMap (Item.nestedNotes owner)) = [] := by
  induction declarations with
  | nil => rfl
  | cons declaration rest ih =>
      cases declaration <;> simpa [Item.nestedNotes, Note.omissions] using ih

namespace Item

theorem readsSections_of_all {name : String} {depth : Nat} {sections : List Section}
    {body : Section → Course Failure (List Declaration)}
    (reads : ∀ part ∈ sections, ∀ declarations notes, body part = ⟨notes, .ok declarations⟩ →
      ReadsAll ⟨some name, depth, part.beyond⟩ false part.tokens declarations
        (Note.omissions notes))
    {notes : List Note} {declarations : List (List Declaration)}
    (found : Course.all (sections.map fun part => (body part).losing) =
      ⟨notes, .ok declarations⟩) :
    ReadsSections name depth sections declarations.flatten (Note.omissions notes) := by
  induction sections generalizing notes declarations with
  | nil =>
      cases found
      exact .nil
  | cons part parts ih =>
      obtain ⟨first, firstNotes, _, here, later, rfl⟩ := Course.bind_eq_ok found
      obtain ⟨more, moreNotes, _, there, done, rfl⟩ := Course.bind_eq_ok later
      cases done
      rw [List.append_nil, Note.omissions_append, List.flatten_cons]
      refine .cons ?_ (ih ?_ there)
      · exact reads part List.mem_cons_self first firstNotes (Course.losing_eq_ok here)
      · exact fun part mem => reads part (List.mem_cons_of_mem _ mem)

theorem readKind_template (scope : Scope) (inName : Bool) (token : Token) (rest : List Token) :
    readKind scope inName .template token rest =
      (Course.ofExcept (dropTemplate scope.beyond (token :: rest))).bind fun inner =>
        read scope (Token.namesOperator inName (Token.before (token :: rest) inner)) inner := by
  rw [readKind.eq_def]
  dsimp only
  split
  · next failed =>
      rw [failed]
      rfl
  · next found =>
      rw [found]
      rw [Course.ofExcept_ok_bind]

theorem readKind_classType (scope : Scope) (inName : Bool) (token : Token) (rest : List Token) :
    readKind scope inName .classType token rest =
      (Course.ofExcept (ClassItem.read scope.beyond (token :: rest))).bind fun found =>
        match found with
        | (.forward name, after) =>
            Course.bind (Course.note [.forwardDeclaration name]) fun _ => Course.pure (none, after)
        | (.definition name sections, after) =>
            let bodies := Course.all (sections.map fun part =>
              (readAll ⟨some name, scope.depth + 1, part.beyond⟩ (nestedNotes name) false
                part.tokens).losing)
            Course.bind (bodies.mapError fun failure => ⟨failure.error, rest.tail⟩)
              fun declarations => Course.pure
                (some (.ofClass ⟨name, declarations.flatten.filterMap Declaration.member?⟩),
                  after) := by
  rw [readKind.eq_def]
  dsimp only
  split
  · next failed =>
      rw [failed]
      rfl
  · next found =>
      rw [found]
      rfl
  · next name sections after found =>
      rw [found, @List.attach_map_val _ _ sections fun part =>
        (readAll ⟨some name, scope.depth + 1, part.beyond⟩ (nestedNotes name) false
          part.tokens).losing]
      rfl

theorem readKind_of_isPlain {kind : Kind} (isPlain : kind.isPlain) (scope : Scope) (inName : Bool)
    (token : Token) (rest : List Token) :
    readKind scope inName kind token rest =
      (Course.ofExcept (readPlain scope inName kind (token :: rest))).bind fun (outcome, after) =>
        (Course.note outcome.notes).bind fun _ => Course.pure (outcome.declaration?, after) := by
  rw [readKind.eq_def]
  cases kind with
  | template | inline | classType => cases isPlain
  | variableList | function | typedef | constructor | destructor => rfl

mutual

theorem reads_of_read {scope : Scope} {inName : Bool} {tokens rest : List Token}
    {declaration? : Option Declaration} {notes : List Note}
    (found : read scope inName tokens = ⟨notes, .ok (declaration?, rest)⟩) :
    Reads scope inName tokens declaration? (Note.omissions notes) rest := by
  match tokens, found with
  | [], found =>
      rw [read] at found
      cases found
  | token :: more, found =>
      rw [read] at found
      split at found
      · next semicolon =>
          cases found
          exact .semicolon semicolon
      · next other =>
          obtain ⟨later, course, rfl⟩ := Course.note_bind_eq_ok found
          rw [Note.omissions_append, Note.omissions_item, List.nil_append]
          exact reads_of_readKind
            (kind?_eq_some_iff.2 ⟨token, more, rfl, by simpa using other, rfl⟩) course
termination_by (tokens.length, 1)

theorem reads_of_readKind {scope : Scope} {inName : Bool} {kind : Kind} {token : Token}
    {more rest : List Token} {declaration? : Option Declaration} {notes : List Note}
    (starts : kind? scope.owner inName (token :: more) = some kind)
    (found : readKind scope inName kind token more = ⟨notes, .ok (declaration?, rest)⟩) :
    Reads scope inName (token :: more) declaration? (Note.omissions notes) rest := by
  cases kind with
  | template =>
      rw [readKind_template] at found
      obtain ⟨inner, dropped, found⟩ := Course.ofExcept_bind_eq_ok found
      have shorter := length_dropTemplate dropped
      exact .template starts dropped (reads_of_read found)
  | inline =>
      rw [readKind] at found
      exact .inline starts (reads_of_read found)
  | classType =>
      rw [readKind_classType] at found
      obtain ⟨⟨item, after⟩, defined, found⟩ := Course.ofExcept_bind_eq_ok found
      cases item with
      | forward name =>
          obtain ⟨_, done, rfl⟩ := Course.note_bind_eq_ok found
          cases done
          exact .forward starts defined
      | definition name sections =>
          obtain ⟨declarations, _, _, bodies, done, rfl⟩ := Course.bind_eq_ok found
          cases done
          rw [List.append_nil]
          refine .definition starts defined (readsSections_of_all ?_ (Course.mapError_eq_ok bodies))
          intro part mem declarations notes body
          have shorter := ClassItem.length_of_mem_sections defined mem
          exact readsAll_of_readAll (nestedNotes_silent name) body
  | variableList | function | typedef | constructor | destructor =>
      rw [readKind_of_isPlain rfl] at found
      obtain ⟨⟨outcome, after⟩, plain, later⟩ := Course.ofExcept_bind_eq_ok found
      obtain ⟨_, done, rfl⟩ := Course.note_bind_eq_ok later
      cases done
      rw [List.append_nil]
      exact .plain starts rfl plain
termination_by ((token :: more).length, 0)

theorem readsAll_of_readAll {scope : Scope} {notesOf : Declaration → List Note} {inName : Bool}
    {tokens : List Token} {declarations : List Declaration} {notes : List Note}
    (silent : ∀ declarations : List Declaration,
      Note.omissions (declarations.flatMap notesOf) = [])
    (found : readAll scope notesOf inName tokens = ⟨notes, .ok declarations⟩) :
    ReadsAll scope inName tokens declarations (Note.omissions notes) := by
  match tokens, found with
  | [], found =>
      rw [readAll] at found
      cases found
      exact .nil
  | token :: more, found =>
      rw [readAll] at found
      obtain ⟨⟨declaration?, after⟩, itemNotes, _, item, later, rfl⟩ := Course.bind_eq_ok found
      obtain ⟨_, course, rfl⟩ := Course.note_bind_eq_ok later
      have first := reads_of_read item
      have shorter := first.endsItem.length_lt (List.cons_ne_nil token more)
      rw [if_pos shorter] at course
      obtain ⟨others, otherNotes, _, rest, done, rfl⟩ := Course.bind_eq_ok course
      cases done
      rw [List.append_nil, Note.omissions_append, Note.omissions_append, silent, List.nil_append]
      refine .cons first ?_
      have all := readsAll_of_readAll silent rest
      by_cases ended : after = []
      · obtain ⟨none, silence⟩ := all.eq_nil ended
        rw [none, silence, ended]
        exact .nil
      · rwa [first.endsItem.namesOperator_before ended] at all
termination_by (tokens.length, 2)

end

theorem read_of_kind? {scope : Scope} {inName : Bool} {token : Token} {rest : List Token}
    {kind : Kind} (starts : kind? scope.owner inName (token :: rest) = some kind) :
    read scope inName (token :: rest) =
      (Course.note [.item scope.depth kind
        (Text.excerpt (Token.sourceOf (token :: rest)))]).bind fun _ =>
          readKind scope inName kind token rest := by
  obtain ⟨_, _, same, other, rfl⟩ := kind?_eq_some_iff.1 starts
  cases same
  rw [read, if_neg (by simp [other])]

theorem read_of_readKind {scope : Scope} {inName : Bool} {tokens : List Token} {kind : Kind}
    {value : Option Declaration × List Token} {omissions : List Omission}
    (starts : kind? scope.owner inName tokens = some kind)
    (found : ∀ token more, tokens = token :: more → ∃ notes,
      readKind scope inName kind token more = ⟨notes, .ok value⟩ ∧
        Note.omissions notes = omissions) :
    ∃ notes, read scope inName tokens = ⟨notes, .ok value⟩ ∧
      Note.omissions notes = omissions := by
  obtain ⟨token, more, rfl, _⟩ := kind?_eq_some_iff.1 starts
  obtain ⟨notes, course, same⟩ := found token more rfl
  rw [read_of_kind? starts]
  exact ⟨_, Course.note_bind_of_ok course, same⟩

mutual

theorem read_of_reads {scope : Scope} {inName : Bool} {tokens : List Token}
    {declaration? : Option Declaration} {omissions : List Omission} {rest : List Token}
    (reads : Reads scope inName tokens declaration? omissions rest) :
    ∃ notes, read scope inName tokens = ⟨notes, .ok (declaration?, rest)⟩ ∧
      Note.omissions notes = omissions := by
  match reads with
  | .semicolon here => exact ⟨[], by rw [read, if_pos here]; rfl, rfl⟩
  | .template starts dropped inner =>
      have course := read_of_reads inner
      refine read_of_readKind starts ?_
      rintro token more rfl
      rw [readKind_template, dropped]
      exact course
  | .inline starts inner =>
      have course := read_of_reads inner
      refine read_of_readKind starts ?_
      intro token more same
      cases same
      rw [readKind]
      exact course
  | .forward starts forward =>
      refine read_of_readKind starts ?_
      rintro token more rfl
      rw [readKind_classType, forward, Course.ofExcept_ok_bind]
      exact ⟨_, Course.note_bind_of_ok rfl, rfl⟩
  | .definition starts defined bodies =>
      obtain ⟨notes, declarations, course, rfl, same⟩ := all_of_readsSections bodies
      refine read_of_readKind starts ?_
      rintro token more rfl
      rw [readKind_classType, defined, Course.ofExcept_ok_bind]
      refine ⟨_, Course.bind_of_ok (Course.mapError_of_ok course) rfl, ?_⟩
      rw [List.append_nil]
      exact same
  | .plain starts isPlain plain =>
      refine read_of_readKind starts ?_
      rintro token more rfl
      rw [readKind_of_isPlain isPlain, plain]
      refine ⟨_, rfl, ?_⟩
      simp [Course.ofExcept, Course.note, Course.pure, Course.bind, Note.omissions]

theorem all_of_readsSections {name : String} {depth : Nat} {sections : List Section}
    {declarations : List Declaration} {omissions : List Omission}
    (reads : ReadsSections name depth sections declarations omissions) :
    ∃ notes parts, Course.all (sections.map fun part =>
        (readAll ⟨some name, depth, part.beyond⟩ (nestedNotes name) false part.tokens).losing) =
          ⟨notes, .ok parts⟩ ∧ parts.flatten = declarations ∧ Note.omissions notes = omissions := by
  match reads with
  | .nil => exact ⟨[], [], rfl, rfl, rfl⟩
  | .cons first others =>
      obtain ⟨notes, course, same⟩ := readAll_of_readsAll first (nestedNotes_silent name)
      obtain ⟨later, parts, courses, rfl, same'⟩ := all_of_readsSections others
      refine ⟨notes ++ (later ++ []), _ :: parts, ?_, rfl, ?_⟩
      · exact Course.bind_of_ok (Course.losing_of_ok course) (Course.bind_of_ok courses rfl)
      · rw [List.append_nil, Note.omissions_append, same, same']

theorem readAll_of_readsAll {scope : Scope} {notesOf : Declaration → List Note} {inName : Bool}
    {tokens : List Token} {declarations : List Declaration} {omissions : List Omission}
    (reads : ReadsAll scope inName tokens declarations omissions)
    (silent : ∀ declarations : List Declaration,
      Note.omissions (declarations.flatMap notesOf) = []) :
    ∃ notes, readAll scope notesOf inName tokens = ⟨notes, .ok declarations⟩ ∧
      Note.omissions notes = omissions := by
  match reads with
  | .nil => exact ⟨[], by rw [readAll]; rfl, rfl⟩
  | @ReadsAll.cons _ _ _ declaration? _ rest declarations _ first others =>
      obtain ⟨notes, course, same⟩ := read_of_reads first
      obtain ⟨later, courses, same'⟩ := readAll_of_readsAll others silent
      obtain ⟨token, more, rfl⟩ := List.exists_cons_of_ne_nil first.tokens_ne_nil
      have shorter := first.endsItem.length_lt (List.cons_ne_nil token more)
      have courses : readAll scope notesOf
          (Token.namesOperator inName (Token.before (token :: more) rest)) rest =
            ⟨later, .ok declarations⟩ := by
        by_cases ended : rest = []
        · rw [ended, readAll] at courses ⊢
          exact courses
        · rwa [first.endsItem.namesOperator_before ended]
      refine ⟨notes ++ (declaration?.toList.flatMap notesOf ++ (later ++ [])), ?_, ?_⟩
      · rw [readAll]
        refine Course.bind_of_ok course (Course.note_bind_of_ok ?_)
        rw [if_pos shorter]
        exact Course.bind_of_ok courses rfl
      · rw [List.append_nil, Note.omissions_append, Note.omissions_append, silent, same, same',
          List.nil_append]

end

end Item

/-! ### Whole texts -/

namespace Parser

theorem run_eq_ok_iff {parser : Parser} {declarations : List Declaration}
    {omissions : List Omission} :
    (parser.run.result = .ok declarations ∧ Note.omissions parser.run.notes = omissions) ↔
      Item.ReadsAll parser.scope parser.inName parser.tokens declarations omissions := by
  have silent : ∀ declarations : List Declaration,
      Note.omissions (declarations.flatMap fun _ => []) = [] := by
    intro declarations
    simp [Note.omissions]
  constructor
  · rintro ⟨found, rfl⟩
    have course : parser.run = ⟨parser.run.notes, .ok declarations⟩ := by rw [← found]
    exact Item.readsAll_of_readAll silent (Course.mapError_eq_ok course)
  · intro reads
    obtain ⟨notes, course, same⟩ := Item.readAll_of_readsAll reads silent
    have found : parser.run = ⟨notes, .ok declarations⟩ := Course.mapError_of_ok course
    rw [found]
    exact ⟨rfl, same⟩

theorem emission_eq_ok_iff {parser : Parser} {declarations : List Declaration}
    {omissions : List Omission} (fresh : parser.notes = []) :
    parser.emission = .ok (declarations, omissions) ↔
      Item.ReadsAll parser.scope parser.inName parser.tokens declarations omissions := by
  rw [← run_eq_ok_iff]
  constructor
  · intro found
    obtain ⟨⟨_, after⟩, parsed, found⟩ := Except.map_ok_iff.1 found
    obtain ⟨_, result, same⟩ := Except.map_ok_iff.1 parsed
    cases found
    cases same
    refine ⟨result, ?_⟩
    change _ = Note.omissions (parser.notes ++ parser.run.notes)
    rw [fresh, List.nil_append]
  · rintro ⟨result, same⟩
    refine Except.map_ok_iff.2 ⟨_, Except.map_ok_iff.2 ⟨declarations, result, rfl⟩, ?_⟩
    change (declarations, Note.omissions (parser.notes ++ parser.run.notes)) = _
    rw [fresh, List.nil_append, same]

theorem ofText_eq_ok_iff {owner : Option String} {text : List Char} {parser : Parser} :
    ofText owner text = .ok parser ↔ ∃ lexed, Lexed.ofText text = .ok lexed ∧
      parser = ⟨Scope.ofOwner owner, [], lexed.tokens, []⟩ := by
  rw [ofText, Except.map_ok_iff]
  simp only [eq_comm]

/-- The declarations of a text are those that a derivation over its tokens gives. -/
theorem declarationsOf_eq_ok_iff {owner : Option String} {text : List Char}
    {declarations : List Declaration} {omissions : List Omission} :
    declarationsOf owner text = .ok (declarations, omissions) ↔
      ∃ lexed, Lexed.ofText text = .ok lexed ∧
        Item.ReadsAll (Scope.ofOwner owner) false lexed.tokens declarations omissions := by
  rw [declarationsOf, Except.bind_ok_iff]
  constructor
  · rintro ⟨parser, start, found⟩
    obtain ⟨lexed, whole, rfl⟩ := ofText_eq_ok_iff.1 start
    exact ⟨lexed, whole, (emission_eq_ok_iff rfl).1 found⟩
  · rintro ⟨lexed, whole, reads⟩
    exact ⟨_, ofText_eq_ok_iff.2 ⟨lexed, whole, rfl⟩, (emission_eq_ok_iff rfl).2 reads⟩

end Parser

end PxdStub
