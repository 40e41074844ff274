import PxdStub.Proofs.Relexing

/-!
Progress. A parser only ever moves on through the tokens it was given: a step that succeeds takes a
token at least, and the parsers of class bodies have fewer tokens. So the loop over items ends.
-/

namespace PxdStub

namespace Course

theorem ok_bind (notes : List Note) (value : α) (next : α → Course ε β) :
    (mk notes (.ok value)).bind next = ⟨notes ++ (next value).notes, (next value).result⟩ := rfl

theorem note_nil_bind (next : Unit → Course ε β) : (note []).bind next = next () := rfl

theorem bind_pure (course : Course ε α) (change : α → β) :
    (course.bind fun value => pure (change value)) = ⟨course.notes, course.result.map change⟩ := by
  obtain ⟨notes, result⟩ := course
  cases result with
  | error error => rfl
  | ok value => simp [bind, pure, Except.map]

end Course

namespace Item

theorem endsIn_bind {tokens : List Token} {restOf : α → List Token} {restOf' : β → List Token}
    {course : Course Failure α} {next : α → Course Failure β}
    (ends : EndsIn tokens restOf course.result)
    (later : ∀ value, restOf value <:+ tokens → EndsIn tokens restOf' (next value).result) :
    EndsIn tokens restOf' (course.bind next).result := by
  obtain ⟨notes, result⟩ := course
  cases result with
  | error failure => exact ends
  | ok value => exact later value ends

mutual

theorem endsIn_read (scope : Scope) (inName : Bool) (tokens : List Token) :
    EndsIn tokens Prod.snd (read scope inName tokens).result := by
  match tokens with
  | [] =>
      rw [read]
      exact List.suffix_refl []
  | token :: rest =>
      rw [read]
      split
      · exact List.suffix_cons token rest
      · exact endsIn_readKind scope inName _ token rest
termination_by (tokens.length, 1)

theorem endsIn_readKind (scope : Scope) (inName : Bool) (kind : Kind) (token : Token)
    (rest : List Token) :
    EndsIn (token :: rest) Prod.snd (readKind scope inName kind token rest).result := by
  have plain : ∀ kind, EndsIn (token :: rest) Prod.snd
      (Course.ofExcept (readPlain scope inName kind (token :: rest))).result :=
    fun kind => endsIn_readPlain scope inName kind (token :: rest)
  rw [readKind.eq_def]
  cases kind with
  | template =>
      have suffix := endsIn_dropTemplate scope.beyond (token :: rest)
      dsimp only
      split
      · next failure failed =>
          rw [failed] at suffix
          exact suffix
      · next inner dropped =>
          have shorter := length_dropTemplate dropped
          rw [dropped] at suffix
          exact (endsIn_read scope _ inner).mono suffix
  | inline => exact (endsIn_read scope _ rest).mono (List.suffix_cons token rest)
  | classType =>
      have suffix := ClassItem.endsIn_read scope.beyond (token :: rest)
      dsimp only
      split
      · next failure failed =>
          rw [failed] at suffix
          exact suffix
      · next name after forward =>
          rw [forward] at suffix
          exact suffix
      · next name sections after defined =>
          rw [defined] at suffix
          generalize Course.all _ = bodies
          obtain ⟨notes, result⟩ := bodies
          cases result with
          | error failure => exact (List.tail_suffix rest).trans (List.suffix_cons token rest)
          | ok declarations => exact suffix
  | variableList | function | typedef | constructor | destructor =>
      exact endsIn_bind (plain _) fun _ suffix => suffix
termination_by ((token :: rest).length, 0)

end

end Item

namespace Parser

/-! ### Places -/

/-- The tokens a parser was given, with `none` as the mark behind the last one. -/
def stream (parser : Parser) : List (Option Token) :=
  (parser.passed ++ parser.tokens).map some ++ [none]

def position (parser : Parser) : Nat :=
  parser.passed.length

def endIndex (parser : Parser) : Nat :=
  parser.stream.length - 1

theorem endIndex_eq (parser : Parser) :
    parser.endIndex = parser.position + parser.tokens.length := by
  simp [endIndex, stream, position]

theorem stream_one_end (parser : Parser) :
    parser.stream.count none = 1 ∧ parser.stream.getLast? = some none := by
  constructor
  · rw [stream, List.count_append, List.count_eq_zero_of_not_mem (by simp)]
    rfl
  · rw [stream, List.getLast?_concat]

theorem before_append {tokens rest : List Token} (suffix : rest <:+ tokens) :
    Token.before tokens rest ++ rest = tokens := by
  obtain ⟨front, whole⟩ := suffix
  rw [← whole, Token.before]
  have size : (front ++ rest).length - rest.length = front.length := by
    rw [List.length_append]
    omega
  rw [size, List.take_left]

theorem moveTo_stream {parser : Parser} {rest : List Token} (suffix : rest <:+ parser.tokens)
    (notes : List Note) : (parser.moveTo rest notes).stream = parser.stream := by
  have whole := before_append suffix
  rw [stream, stream, moveTo, List.append_assoc, whole]

theorem moveTo_inName (parser : Parser) (rest : List Token) (notes : List Note) :
    (parser.moveTo rest notes).inName =
      Token.namesOperator parser.inName (Token.before parser.tokens rest) := by
  rw [inName, moveTo, Token.namesOperator, List.foldl_append]
  rfl

theorem step_result (parser : Parser) : parser.step.1 =
    ((Item.read parser.scope parser.inName parser.tokens).result.mapError Failure.error).map
      Prod.fst := by
  rw [step]
  generalize Item.read parser.scope parser.inName parser.tokens = course
  obtain ⟨notes, error | ⟨declaration?, rest⟩⟩ := course <;> rfl

theorem step_omissions (parser : Parser) : parser.step.2.omissions = parser.omissions ++
    Note.omissions (Item.read parser.scope parser.inName parser.tokens).notes := by
  rw [step]
  generalize Item.read parser.scope parser.inName parser.tokens = course
  obtain ⟨notes, error | ⟨declaration?, rest⟩⟩ := course <;> exact Note.omissions_append _ _

/-- What one step does: it ends at a later place, behind one item when it succeeds. -/
theorem step_cases (parser : Parser) :
    ∃ rest notes, parser.step.2 = parser.moveTo rest notes ∧ rest <:+ parser.tokens ∧
      (Item.read parser.scope parser.inName parser.tokens).notes = notes ∧
      ((∃ declaration?, parser.step.1 = .ok declaration? ∧
          (Item.read parser.scope parser.inName parser.tokens).result = .ok (declaration?, rest) ∧
          rest.length < parser.tokens.length) ∨
        ∃ error, parser.step.1 = .error error ∧
          (Item.read parser.scope parser.inName parser.tokens).result = .error ⟨error, rest⟩) := by
  have suffix := Item.endsIn_read parser.scope parser.inName parser.tokens
  rw [step]
  cases course : Item.read parser.scope parser.inName parser.tokens with
  | mk notes result =>
      rw [course] at suffix
      cases result with
      | ok value =>
          obtain ⟨declaration?, rest⟩ := value
          have reads := Item.reads_of_read course
          have shorter := reads.endsItem.length_lt reads.tokens_ne_nil
          exact ⟨rest, notes, rfl, suffix, rfl, Or.inl ⟨declaration?, rfl, rfl, shorter⟩⟩
      | error failure =>
          exact ⟨failure.rest, notes, rfl, suffix, rfl, Or.inr ⟨failure.error, rfl, rfl⟩⟩

/-- A step that succeeds reads one item, and adds what that omits. -/
theorem reads_of_step {parser : Parser} {declaration? : Option Declaration}
    (found : parser.step.1 = .ok declaration?) :
    ∃ omissions, Item.Reads parser.scope parser.inName parser.tokens declaration? omissions
        parser.step.2.tokens ∧ parser.step.2.omissions = parser.omissions ++ omissions := by
  obtain ⟨rest, notes, after, _, same, ⟨_, found', result, _⟩ | ⟨_, failed, _⟩⟩ := parser.step_cases
  · cases found.symm.trans found'
    have course : Item.read parser.scope parser.inName parser.tokens =
        ⟨notes, .ok (declaration?, rest)⟩ := by
      rw [← same, ← result]
    rw [after]
    exact ⟨_, Item.reads_of_read course, Note.omissions_append _ _⟩
  · cases found.symm.trans failed

theorem step_of_reads {parser : Parser} {declaration? : Option Declaration}
    {omissions : List Omission} {rest : List Token} (reads : Item.Reads parser.scope parser.inName
      parser.tokens declaration? omissions rest) :
    parser.step.1 = .ok declaration? ∧ parser.step.2.tokens = rest ∧
      parser.step.2.omissions = parser.omissions ++ omissions := by
  obtain ⟨notes, course, rfl⟩ := Item.read_of_reads reads
  rw [step_omissions, step, course]
  exact ⟨rfl, rfl, rfl⟩

/-- Text is left where a token is. -/
theorem rest?_of_areLexed {parser : Parser} (lexed : Token.AreLexed parser.tokens) :
    parser.rest? = if parser.tokens.isEmpty then none else some parser.remaining := by
  rw [rest?, remaining, lexed.isEmpty_trim]

/-- The first item of a text is the one that a derivation over its tokens gives. -/
theorem itemAndRest_eq_ok_iff {owner : Option String} {text : List Char}
    {declaration? : Option Declaration} {left : Option (List Char)} :
    itemAndRest owner text = .ok (declaration?, left) ↔ ∃ lexed omissions rest,
      Lexed.ofText text = .ok lexed ∧
        Item.Reads (Scope.ofOwner owner) false lexed.tokens declaration? omissions rest ∧
          left = if rest.isEmpty then none else some (Text.trim (Token.sourceOf rest)) := by
  rw [itemAndRest, Except.bind_ok_iff]
  constructor
  · rintro ⟨parser, start, found⟩
    obtain ⟨lexed, lexes, rfl⟩ := ofText_eq_ok_iff.1 start
    obtain ⟨⟨_, after⟩, next, done⟩ := Except.bind_ok_iff.1 found
    obtain ⟨_, here, same⟩ := Except.map_ok_iff.1 next
    cases same
    cases done
    obtain ⟨omissions, reads, _⟩ := reads_of_step here
    have behind := (Token.areLexed_of_ofText lexes).suffix reads.endsItem.suffix
    exact ⟨lexed, omissions, _, lexes, reads, rest?_of_areLexed behind⟩
  · rintro ⟨lexed, omissions, rest, lexes, reads, rfl⟩
    refine ⟨_, ofText_eq_ok_iff.2 ⟨lexed, lexes, rfl⟩, ?_⟩
    obtain ⟨here, left, _⟩ :=
      @step_of_reads ⟨Scope.ofOwner owner, [], lexed.tokens, []⟩ _ _ _ reads
    refine Except.bind_ok_iff.2 ⟨_, Except.map_ok_iff.2 ⟨_, here, rfl⟩, ?_⟩
    have behind := (Token.areLexed_of_ofText lexes).suffix reads.endsItem.suffix
    dsimp only
    rw [rest?_of_areLexed (by rwa [left]), remaining, left]
    rfl

/-- An item of a plain kind that cannot be read fails with what its reader meets. -/
theorem itemAndRest_of_failure {owner : Option String} {text : List Char} {lexed : Lexed}
    {kind : Kind} {failure : Failure} (lexes : Lexed.ofText text = .ok lexed)
    (starts : Item.kind? owner false lexed.tokens = some kind) (isPlain : kind.isPlain)
    (failed : Item.readPlain (Scope.ofOwner owner) false kind lexed.tokens = .error failure) :
    itemAndRest owner text = .error failure.error := by
  have scope : (Scope.ofOwner owner).owner = owner := by
    cases owner <;> rfl
  obtain ⟨token, rest, same, _⟩ := Item.kind?_eq_some_iff.1 starts
  have course : (Item.read (Scope.ofOwner owner) false lexed.tokens).result = .error failure := by
    rw [same] at starts failed ⊢
    rw [Item.read_of_kind? (by rwa [scope]), Item.readKind_of_isPlain isPlain, failed]
    rfl
  let parser : Parser := ⟨Scope.ofOwner owner, [], lexed.tokens, []⟩
  have stepped : parser.step.1 = .error failure.error := by
    rw [step_result]
    change ((Item.read (Scope.ofOwner owner) false lexed.tokens).result.mapError _).map _ = _
    rw [course]
    rfl
  rw [itemAndRest, ofText_eq_ok_iff.2 ⟨lexed, lexes, rfl⟩]
  change (parser.next >>= _) = _
  rw [next, stepped]
  rfl

theorem step_stream (parser : Parser) : parser.step.2.stream = parser.stream := by
  obtain ⟨rest, notes, after, suffix, _⟩ := parser.step_cases
  rw [after]
  exact moveTo_stream suffix notes

theorem step_scope (parser : Parser) : parser.step.2.scope = parser.scope := by
  obtain ⟨rest, notes, after, _⟩ := parser.step_cases
  rw [after]
  rfl

theorem step_endIndex (parser : Parser) : parser.step.2.endIndex = parser.endIndex := by
  rw [endIndex, endIndex, step_stream]

theorem position_lt_of_step {parser : Parser} {declaration? : Option Declaration}
    (found : parser.step.1 = .ok declaration?) : parser.position < parser.step.2.position := by
  have same := parser.step_endIndex
  rw [endIndex_eq, endIndex_eq] at same
  obtain ⟨rest, notes, after, _, _, ⟨_, _, _, shorter⟩ | ⟨error, failed, _⟩⟩ := parser.step_cases
  · have left : parser.step.2.tokens = rest := by rw [after]; rfl
    rw [left] at same
    omega
  · rw [failed] at found
    cases found

/-! ### The loop over items -/

theorem readAll_of_error {scope : Scope} {notesOf : Declaration → List Note} {inName : Bool}
    {tokens : List Token} {notes : List Note} {failure : Failure} (some : tokens ≠ [])
    (course : Item.read scope inName tokens = ⟨notes, .error failure⟩) :
    Item.readAll scope notesOf inName tokens = ⟨notes, .error failure⟩ := by
  obtain ⟨token, more, rfl⟩ := List.exists_cons_of_ne_nil some
  rw [Item.readAll, course]
  rfl

theorem readAll_of_ok {scope : Scope} {inName : Bool} {tokens rest : List Token}
    {notes : List Note} {declaration? : Option Declaration} (shorter : rest.length < tokens.length)
    (course : Item.read scope inName tokens = ⟨notes, .ok (declaration?, rest)⟩) :
    let later := Item.readAll scope (fun _ => [])
      (Token.namesOperator inName (Token.before tokens rest)) rest
    Item.readAll scope (fun _ => []) inName tokens =
      ⟨notes ++ later.notes, later.result.map (declaration?.toList ++ ·)⟩ := by
  intro later
  have some : tokens ≠ [] := by
    intro none
    rw [none] at shorter
    simp at shorter
  obtain ⟨token, more, rfl⟩ := List.exists_cons_of_ne_nil some
  have silent : declaration?.toList.flatMap (fun _ => ([] : List Note)) = [] := by simp
  rw [Item.readAll, course, Course.ok_bind]
  dsimp only
  rw [silent, Course.note_nil_bind, if_pos shorter, Course.bind_pure]

theorem run_of_ended {parser : Parser} (ended : parser.tokens = []) :
    parser.run = ⟨[], .ok []⟩ := by
  rw [run, ended, Item.readAll]
  rfl

theorem run_of_step_error {parser : Parser} {error : ParseError} (some : parser.tokens ≠ [])
    (failed : parser.step.1 = .error error) :
    parser.run.result = .error error ∧ parser.notes ++ parser.run.notes = parser.step.2.notes := by
  obtain ⟨rest, notes, after, _, same, ⟨_, found, _⟩ | ⟨_, failed', result⟩⟩ := parser.step_cases
  · rw [failed] at found
    cases found
  · cases failed.symm.trans failed'
    have course : Item.read parser.scope parser.inName parser.tokens =
        ⟨notes, .error ⟨error, rest⟩⟩ := by
      rw [← same, ← result]
    rw [run, readAll_of_error some course, after]
    exact ⟨rfl, rfl⟩

theorem run_of_step_ok {parser : Parser} {declaration? : Option Declaration}
    (found : parser.step.1 = .ok declaration?) :
    parser.run.result = parser.step.2.run.result.map (declaration?.toList ++ ·) ∧
      parser.notes ++ parser.run.notes = parser.step.2.notes ++ parser.step.2.run.notes := by
  obtain ⟨rest, notes, after, _, same, ⟨_, found', result, shorter⟩ | ⟨_, failed, _⟩⟩ :=
    parser.step_cases
  · cases found.symm.trans found'
    have course : Item.read parser.scope parser.inName parser.tokens =
        ⟨notes, .ok (declaration?, rest)⟩ := by
      rw [← same, ← result]
    have unfolded := readAll_of_ok shorter course
    have later : parser.step.2.run = (Item.readAll parser.scope (fun _ => [])
        (Token.namesOperator parser.inName (Token.before parser.tokens rest)) rest).mapError
          Failure.error := by
      rw [after, run, moveTo_inName]
      rfl
    rw [run, unfolded, later]
    refine ⟨?_, ?_⟩
    · dsimp only [Course.mapError]
      generalize (Item.readAll _ _ _ _).result = result
      cases result <;> rfl
    · rw [after]
      exact (List.append_assoc _ _ _).symm
  · rw [failed] at found
    cases found

/-- The loop as a plain repetition of steps, which gives up after `count` of them. -/
def loop : Nat → Parser → Option (Except ParseError (List Declaration) × Parser)
  | 0, parser => if parser.tokens = [] then some (.ok [], parser) else none
  | count + 1, parser =>
      if parser.tokens = [] then some (.ok [], parser)
      else match parser.step with
        | (.error error, after) => some (.error error, after)
        | (.ok declaration?, after) =>
            (loop count after).map fun (result, last) =>
              (result.map (declaration?.toList ++ ·), last)

theorem loop_eq_run {count : Nat} {parser : Parser} (enough : parser.tokens.length ≤ count) :
    ∃ last, parser.loop count = some (parser.run.result, last) ∧
      last.notes = parser.notes ++ parser.run.notes := by
  induction count generalizing parser with
  | zero =>
      have ended : parser.tokens = [] := List.length_eq_zero_iff.1 (by omega)
      rw [run_of_ended ended, loop, if_pos ended]
      exact ⟨parser, rfl, by rw [List.append_nil]⟩
  | succ count ih =>
      rw [loop]
      by_cases ended : parser.tokens = []
      · rw [run_of_ended ended, if_pos ended]
        exact ⟨parser, rfl, by rw [List.append_nil]⟩
      · rw [if_neg ended]
        cases stepped : parser.step with
        | mk result after =>
            have place : parser.step.2 = after := by rw [stepped]
            cases result with
            | error error =>
                obtain ⟨failed, notes⟩ := run_of_step_error ended (by rw [stepped])
                rw [failed, notes, place]
                exact ⟨after, rfl, rfl⟩
            | ok declaration? =>
                have found : parser.step.1 = .ok declaration? := by rw [stepped]
                obtain ⟨run, notes⟩ := run_of_step_ok found
                have further := position_lt_of_step found
                have ends := parser.step_endIndex
                rw [endIndex_eq, endIndex_eq] at ends
                rw [place] at run notes further ends
                obtain ⟨last, looped, lastNotes⟩ := @ih after (by omega)
                rw [run, notes]
                dsimp only
                rw [looped]
                exact ⟨last, rfl, lastNotes⟩

end Parser

/-! ### The parsers of class bodies -/

theorem Section.infix_of_mem_publicFrom {beyond : List Char} {tokens : List Token} {part : Section}
    (mem : part ∈ publicFrom beyond tokens) : part.tokens <:+: tokens := by
  fun_induction publicFrom beyond tokens with
  | case1 word colon rest parts later kept ih =>
      have whole := splitLabel_append 0 rest
      rcases List.mem_cons.1 mem with rfl | old
      · exact ⟨[word, colon], parts.2, by rw [← whole]; simp [parts]⟩
      · have inner := (ih old).trans (List.IsSuffix.isInfix ⟨parts.1, whole⟩)
        exact inner.trans (List.IsSuffix.isInfix ⟨[word, colon], rfl⟩)
  | case2 word colon rest parts later dropped ih =>
      have whole := splitLabel_append 0 rest
      have inner := (ih mem).trans (List.IsSuffix.isInfix ⟨parts.1, whole⟩)
      exact inner.trans (List.IsSuffix.isInfix ⟨[word, colon], rfl⟩)
  | case3 => cases mem

theorem ClassItem.infix_of_mem_sections {beyond : List Char} {tokens rest : List Token}
    {item : ClassItem} (found : read beyond tokens = .ok (item, rest)) {part : Section}
    (mem : part ∈ item.sections) : part.tokens <:+: tokens := by
  unfold read at found
  split at found
  · next word name behind =>
      split at found
      · split at found
        · unfold readBody at found
          dsimp only at found
          have suffix := Token.splitOutside_suffix
            (fun lexeme => lexeme.isSemicolon || lexeme = .opening .curly) 0 behind
          split at found
          · cases found
          · next token more split =>
              rw [split] at suffix
              split at found
              · cases found
                cases mem
              · obtain ⟨body, enclosed, same⟩ := Except.map_ok_iff.1 found
                cases same
                have whole := Enclosure.eq_of_read enclosed
                have label := Section.splitLabel_append 0 body.inside
                have inside : body.inside <:+: token :: more :=
                  ⟨[token], body.close :: body.after, by rw [whole]; simp⟩
                have labelled := (Section.infix_of_mem_publicFrom mem).trans
                  (List.IsSuffix.isInfix ⟨_, label⟩)
                exact ((labelled.trans inside).trans suffix.isInfix).trans
                  (List.IsSuffix.isInfix ⟨[word, name], rfl⟩)
        · cases found
      · cases found
  · split at found <;> cases found
  · cases found

/-- The parser of a section in the body of the class `owner`. -/
def Parser.ofSection (owner : String) (depth : Nat) (part : Section) : Parser :=
  ⟨⟨some owner, depth, part.beyond⟩, [], part.tokens, []⟩

/-- The parsers that are made for the sections of the class at the start of the tokens, which may
stand behind wrappers. -/
inductive Item.Opens (scope : Scope) : Bool → List Token → Parser → Prop
  | template {inName tokens inner child} : kind? scope.owner inName tokens = some .template →
      dropTemplate scope.beyond tokens = .ok inner →
      Opens scope (Token.namesOperator inName (Token.before tokens inner)) inner child →
      Opens scope inName tokens child
  | inline {inName token inner child} :
      kind? scope.owner inName (token :: inner) = some .inline →
      Opens scope (token.lexeme.namesOperator inName) inner child →
      Opens scope inName (token :: inner) child
  | body {inName tokens name sections rest part} :
      kind? scope.owner inName tokens = some .classType →
      ClassItem.read scope.beyond tokens = .ok (.definition name sections, rest) →
      part ∈ sections → Opens scope inName tokens (.ofSection name (scope.depth + 1) part)

theorem Item.Opens.within {scope : Scope} {inName : Bool} {tokens : List Token} {child : Parser}
    (opens : Opens scope inName tokens child) :
    child.passed = [] ∧ child.tokens <:+: tokens ∧ child.tokens.length < tokens.length := by
  induction opens with
  | @template _ tokens _ _ _ dropped _ ih =>
      obtain ⟨fresh, inner, shorter⟩ := ih
      have suffix := endsIn_dropTemplate scope.beyond tokens
      rw [dropped] at suffix
      have further := length_dropTemplate dropped
      exact ⟨fresh, inner.trans (List.IsSuffix.isInfix suffix), by omega⟩
  | inline _ _ ih =>
      obtain ⟨fresh, inner, shorter⟩ := ih
      refine ⟨fresh, inner.trans (List.IsSuffix.isInfix (List.suffix_cons _ _)), ?_⟩
      rw [List.length_cons]
      omega
  | body _ found mem =>
      exact ⟨rfl, ClassItem.infix_of_mem_sections found mem,
        ClassItem.length_of_mem_sections found mem⟩

theorem Item.Opens.in_class {scope : Scope} {inName : Bool} {tokens : List Token} {child : Parser}
    (opens : Opens scope inName tokens child) :
    child.scope.isNested ∧ child.scope.owner.isSome := by
  induction opens with
  | template _ _ _ ih => exact ih
  | inline _ _ ih => exact ih
  | body _ _ _ => exact ⟨by simp [Parser.ofSection, Scope.isNested], rfl⟩

namespace Parser

def Opens (parser child : Parser) : Prop :=
  Item.Opens parser.scope parser.inName parser.tokens child

/-- Every parser that can be met while a text is read: at its start, behind any step, and at the
start of the public sections of its classes. -/
inductive Reachable (text : List Char) : Parser → Prop
  | start {owner parser} : ofText owner text = .ok parser → Reachable text parser
  | step {parser} : Reachable text parser → Reachable text parser.step.2
  | child {parser child} : Reachable text parser → parser.Opens child → Reachable text child

structure Progresses (text : List Char) (parser : Parser) : Prop where
  part_of_text : ∃ lexed, Lexed.ofText text = .ok lexed ∧
    parser.passed ++ parser.tokens <:+: lexed.tokens
  one_end : parser.stream.count none = 1 ∧ parser.stream.getLast? = some none
  in_range : parser.position ≤ parser.endIndex
  keeps : parser.step.2.stream = parser.stream
  advances : ∀ declaration?, parser.step.1 = .ok declaration? →
    parser.position < parser.endIndex ∧ parser.position < parser.step.2.position
  children : ∀ child, parser.Opens child → child.stream.length < parser.stream.length
  loop_ends : ∃ last, parser.loop parser.endIndex = some (parser.run.result, last)

theorem Reachable.part_of_text {text : List Char} {parser : Parser}
    (reachable : parser.Reachable text) : ∃ lexed, Lexed.ofText text = .ok lexed ∧
      parser.passed ++ parser.tokens <:+: lexed.tokens := by
  induction reachable with
  | start found =>
      obtain ⟨lexed, whole, rfl⟩ := ofText_eq_ok_iff.1 found
      exact ⟨lexed, whole, List.infix_refl _⟩
  | @step parser _ ih =>
      obtain ⟨lexed, whole, inside⟩ := ih
      obtain ⟨rest, notes, after, suffix, _⟩ := parser.step_cases
      have same := before_append suffix
      refine ⟨lexed, whole, ?_⟩
      rw [after, moveTo, List.append_assoc, same]
      exact inside
  | child _ opens ih =>
      obtain ⟨lexed, whole, inside⟩ := ih
      obtain ⟨fresh, within, _⟩ := opens.within
      refine ⟨lexed, whole, ?_⟩
      rw [fresh]
      exact (within.trans (List.IsSuffix.isInfix (List.suffix_append _ _))).trans inside

/-- Steps only move on, and the loop over them ends, for every parser over every text. -/
theorem progresses_of_reachable {text : List Char} {parser : Parser}
    (reachable : parser.Reachable text) : parser.Progresses text where
  part_of_text := reachable.part_of_text
  one_end := parser.stream_one_end
  in_range := by
    rw [endIndex_eq]
    omega
  keeps := parser.step_stream
  advances := by
    intro declaration? found
    have further := position_lt_of_step found
    have same := parser.step_endIndex
    have bound := parser.step.2.endIndex_eq
    omega
  children := by
    intro child opens
    obtain ⟨fresh, _, shorter⟩ := opens.within
    simp only [stream, fresh, List.length_append, List.length_map, List.length_cons,
      List.length_nil]
    omega
  loop_ends := by
    have enough : parser.tokens.length ≤ parser.endIndex := by
      rw [endIndex_eq]
      omega
    obtain ⟨last, ends, _⟩ := loop_eq_run enough
    exact ⟨last, ends⟩

theorem progresses_in_class_body : ∃ child : Parser,
    child.tokens.map Token.lexeme =
      [.keyword .int, .identifier "x", .punctuation .semicolon] ∧
    child.Progresses "class A{public:int x;};".toList := by
  let member : List Token :=
    [⟨.keyword .int, 15, [' ']⟩, ⟨.identifier "x", 19, []⟩, ⟨.punctuation .semicolon, 20, []⟩]
  let tokens : List Token :=
    [⟨.keyword .classKey, 0, [' ']⟩, ⟨.identifier "A", 6, []⟩, ⟨.opening .curly, 7, []⟩,
      ⟨.keyword .publicKey, 8, []⟩, ⟨.punctuation .colon, 14, []⟩] ++ member ++
      [⟨.closing .curly, 21, []⟩, ⟨.punctuation .semicolon, 22, []⟩]
  have start : ofText none "class A{public:int x;};".toList = .ok ⟨.top, [], tokens, []⟩ := by cbv
  have kind : Item.kind? none false tokens = some .classType := by cbv
  have found : ClassItem.read [] tokens =
      .ok (.definition "A" [⟨member, ['}', ';']⟩], []) := by cbv
  have opens : Parser.Opens ⟨.top, [], tokens, []⟩ (.ofSection "A" 1 ⟨member, ['}', ';']⟩) :=
    .body kind found (List.mem_singleton.2 rfl)
  exact ⟨_, rfl, progresses_of_reachable (.child (.start start) opens)⟩

end Parser

end PxdStub
