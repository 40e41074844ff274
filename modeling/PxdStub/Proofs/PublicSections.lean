import PxdStub.Proofs.ClassLayout
import PxdStub.Proofs.DefaultValues
import PxdStub.Proofs.SourceLayout

/-!
A class is what its public sections make of it. Bases and private parts have no say in it, and each
public section is read as a text of its own would be.
-/

namespace PxdStub

/-! ### Two definitions -/

/-- A class definition that is read has its sections read. -/
theorem Item.Reads.of_definition {scope : Scope} {inName : Bool} {tokens rest after : List Token}
    {item? : Option Declaration} {omissions : List Omission} {name : String}
    {sections : List Section} (reads : Reads scope inName tokens item? omissions rest)
    (starts : kind? scope.owner inName tokens = some .classType)
    (found : ClassItem.read scope.beyond tokens = .ok (.definition name sections, after)) :
    ∃ declarations, item? = some (.ofClass ⟨name, declarations.filterMap Declaration.member?⟩) ∧
      ReadsSections name (scope.depth + 1) sections declarations omissions := by
  cases reads with
  | semicolon here =>
      obtain ⟨_, _, same, other, _⟩ := kind?_eq_some_iff.1 starts
      cases same
      rw [here] at other
      cases other
  | template starts' _ _ | inline starts' _ => cases starts.symm.trans starts'
  | forward _ found' => cases found.symm.trans found'
  | definition _ found' bodies =>
      cases found.symm.trans found'
      exact ⟨_, rfl, bodies⟩
  | plain starts' isPlain _ =>
      cases starts.symm.trans starts'
      cases isPlain

theorem Section.infix_of_mem_publicOf {beyond : List Char} {body : List Token} {part : Section}
    (mem : part ∈ publicOf beyond body) : part.tokens <:+: body :=
  (infix_of_mem_publicFrom mem).trans (List.IsSuffix.isInfix ⟨_, splitLabel_append 0 body⟩)

namespace Item

variable {definition definition' : ClassDefinition} {name : String}

theorem read_definition (formed : definition.IsFormed name) (scope : Scope) (inName : Bool)
    (behind : List Token) :
    ∃ (text : String) (failed : List Token), read scope inName (definition.tokens ++ behind) =
      (Course.note [.item scope.depth .classType text]).bind fun _ =>
        ((Course.all ((Section.publicOf (Token.sourceOf (definition.close :: behind) ++ scope.beyond)
          definition.body).map fun part =>
            (readAll ⟨some name, scope.depth + 1, part.beyond⟩ (nestedNotes name) false
              part.tokens).losing)).mapError fun failure => ⟨failure.error, failed⟩).bind
          fun declarations => Course.pure
            (some (.ofClass ⟨name, declarations.flatten.filterMap Declaration.member?⟩),
              Token.dropSemicolon behind) := by
  have starts := definition.kind?_append formed scope.owner inName behind
  have found := definition.read_append formed scope.beyond behind
  rw [definition.tokens_append] at starts found ⊢
  rw [read_of_kind? starts, readKind_classType, found]
  exact ⟨_, _, rfl⟩

/-- Definitions with twin public runs are read alike, whatever else they hold. -/
theorem twins_definition {written : String → String → Prop} {exact : Prop}
    {layout layout' : BodyLayout}
    (formed : definition.IsFormed name) (formed' : definition'.IsFormed name)
    (lays : layout.Lays definition.body) (lays' : layout'.Lays definition'.body)
    (names : Token.Names Eq written exact definition.body definition'.body)
    (areRead : Token.AreRead definition.body)
    (runs : List.Forall₂ (Token.Alike exact) layout.publicRuns layout'.publicRuns)
    (scope scope' : Scope) (inName inName' : Bool) (behind behind' : List Token) :
    Course.Mirrors written (Failure.Alike (exact ∧ False))
      (fun found found' => Option.Rel (Declaration.Alike written) found.1 found'.1)
      (read scope inName (definition.tokens ++ behind))
      (read scope' inName' (definition'.tokens ++ behind')) := by
  obtain ⟨text, failed, here⟩ := read_definition formed scope inName behind
  obtain ⟨text', failed', there⟩ := read_definition formed' scope' inName' behind'
  rw [here, there]
  rw [← BodyLayout.map_publicOf lays (Token.sourceOf (definition.close :: behind) ++ scope.beyond),
    ← BodyLayout.map_publicOf lays'
      (Token.sourceOf (definition'.close :: behind') ++ scope'.beyond),
    List.forall₂_map_left_iff, List.forall₂_map_right_iff] at runs
  refine (Course.Mirrors.note .nil).bind fun _ _ _ _ _ => ?_
  refine Course.Mirrors.bind (Course.Mirrors.mapError (twins_sections ?_ runs)
    fun _ _ alike => alike) ?_
  · intro part part' mem mem' alike
    have inside := Section.infix_of_mem_publicOf mem
    have inside' := Section.infix_of_mem_publicOf mem'
    exact twins_readAll ⟨rfl, rfl⟩ (names.among inside inside') (nestedNotes_silent name)
      (nestedNotes_silent name) (areRead.subset inside.subset) (.of_alike alike _ _)
  · intro _ _ _ _ all
    exact .pure (.some (.ofClass ⟨rfl, Declaration.Alike.members (List.rel_flatten all)⟩))

end Item

namespace Parser

/-- A parser in front of the definition of the class `name`, whose body has the given layout. -/
structure Faces (parser : Parser) (name : String) (definition : ClassDefinition)
    (layout : BodyLayout) : Prop where
  formed : definition.IsFormed name
  lays : layout.Lays definition.body
  stands : definition.tokens <+: parser.tokens

theorem Faces.infix_body {parser : Parser} {name : String} {definition : ClassDefinition}
    {layout : BodyLayout} (faces : parser.Faces name definition layout) :
    definition.body <:+: parser.tokens :=
  definition.infix_body.trans faces.stands.isInfix

theorem Reachable.within {text : List Char} {parser : Parser} (reachable : parser.Reachable text) :
    ∃ tokens, Token.AreLexed tokens ∧ parser.tokens <:+: tokens ∧ Token.sourceOf tokens <:+ text := by
  obtain ⟨lexed, lexes, inside⟩ := reachable.part_of_text
  refine ⟨lexed.tokens, Token.areLexed_of_ofText lexes, ?_, ?_⟩
  · exact (List.suffix_append _ _).isInfix.trans inside
  · rw [← Token.source_of_ofText lexes]
    exact List.suffix_append _ _

/-- Parsers that go over any texts take names that are made of the same lexemes from the same
tokens. -/
theorem Reachable.names {text text' : List Char} {parser parser' : Parser}
    (reachable : parser.Reachable text) (reachable' : parser'.Reachable text') :
    Token.Names Eq Text.SameLexemes False parser.tokens parser'.tokens := by
  obtain ⟨_, lexed, inside, _⟩ := reachable.within
  obtain ⟨_, lexed', inside', _⟩ := reachable'.within
  exact (Token.Names.of_areLexed lexed lexed').among inside inside'

/-- Steps over definitions with twin public runs. -/
theorem twins_step {written : String → String → Prop} {exact : Prop} {text : List Char}
    {parser parser' : Parser} {name : String} {definition definition' : ClassDefinition}
    {layout layout' : BodyLayout} (reachable : parser.Reachable text)
    (faces : parser.Faces name definition layout) (faces' : parser'.Faces name definition' layout')
    (names : Token.Names Eq written exact parser.tokens parser'.tokens)
    (runs : List.Forall₂ (Token.Alike exact) layout.publicRuns layout'.publicRuns) :
    Mirrors (ParseError.Alike (exact ∧ False)) (Option.Rel (Declaration.Alike written))
        parser.step.1 parser'.step.1 ∧
      ∃ omissions omissions', parser.step.2.omissions = parser.omissions ++ omissions ∧
        parser'.step.2.omissions = parser'.omissions ++ omissions' ∧
        List.Forall₂ (Omission.Alike written) omissions omissions' := by
  obtain ⟨behind, whole⟩ := faces.stands
  obtain ⟨behind', whole'⟩ := faces'.stands
  have areRead := reachable.areRead.subset faces.infix_body.subset
  obtain ⟨result, omissions⟩ := Item.twins_definition faces.formed faces'.formed faces.lays
    faces'.lays (names.among faces.infix_body faces'.infix_body) areRead runs parser.scope
    parser'.scope parser.inName parser'.inName behind behind'
  rw [whole, whole'] at result omissions
  refine ⟨?_, _, _, parser.step_omissions, parser'.step_omissions, omissions⟩
  rw [step_result, step_result]
  exact Mirrors.map (result.mapError fun _ _ alike => alike) fun _ _ alike => alike

/-- Steps over definitions with twin public runs give classes with members that are alike. -/
theorem twins_members {written : String → String → Prop} {exact : Prop} {text : List Char}
    {parser parser' : Parser} {name : String} {definition definition' : ClassDefinition}
    {layout layout' : BodyLayout} {members members' : List Member}
    (reachable : parser.Reachable text) (faces : parser.Faces name definition layout)
    (faces' : parser'.Faces name definition' layout')
    (names : Token.Names Eq written exact parser.tokens parser'.tokens)
    (runs : List.Forall₂ (Token.Alike exact) layout.publicRuns layout'.publicRuns)
    (found : parser.step.1 = .ok (some (.ofClass ⟨name, members⟩)))
    (found' : parser'.step.1 = .ok (some (.ofClass ⟨name, members'⟩))) :
    List.Forall₂ (Member.Alike written) members members' := by
  obtain ⟨results, _⟩ := twins_step reachable faces faces' names runs
  rw [found, found'] at results
  cases results with
  | ok related =>
      cases related with
      | some alike =>
          cases alike with
          | ofClass declared => exact declared.members

/-- A definition that can be read gives a class with its name. -/
theorem Faces.class_of_step {parser : Parser} {name : String} {definition : ClassDefinition}
    {layout : BodyLayout} (faces : parser.Faces name definition layout)
    {item? : Option Declaration} (found : parser.step.1 = .ok item?) :
    ∃ members, item? = some (.ofClass ⟨name, members⟩) := by
  obtain ⟨behind, whole⟩ := faces.stands
  obtain ⟨_, reads, _⟩ := reads_of_step found
  rw [← whole] at reads
  obtain ⟨_, item, _⟩ := reads.of_definition (definition.kind?_append faces.formed _ _ _)
    (definition.read_append faces.formed _ _)
  exact ⟨_, item⟩

/-- Bases and private parts of a class decide neither whether it can be read nor what comes of it.
Of definitions with the same tokens in their public runs both can be read or none. Both give the
same members and the same omissions, but for what stands between the tokens of function names and
template arguments; where the source text in the runs is the same too, nothing differs. -/
theorem step_of_publicRuns {text text' : List Char} {parser parser' : Parser} {name : String}
    {definition definition' : ClassDefinition} {layout layout' : BodyLayout}
    (reachable : parser.Reachable text) (reachable' : parser'.Reachable text')
    (faces : parser.Faces name definition layout)
    (faces' : parser'.Faces name definition' layout')
    (runs : List.Forall₂ (Token.Alike False) layout.publicRuns layout'.publicRuns) :
    ((∃ item?, parser.step.1 = .ok item?) ↔ ∃ item?, parser'.step.1 = .ok item?) ∧
      ∀ item? item?', parser.step.1 = .ok item? → parser'.step.1 = .ok item?' →
        ∃ members members' omissions omissions',
          item? = some (.ofClass ⟨name, members⟩) ∧ item?' = some (.ofClass ⟨name, members'⟩) ∧
          parser.step.2.omissions = parser.omissions ++ omissions ∧
          parser'.step.2.omissions = parser'.omissions ++ omissions' ∧
          List.Forall₂ (Member.Alike Text.SameLexemes) members members' ∧
          List.Forall₂ (Omission.Alike Text.SameLexemes) omissions omissions' ∧
          (List.Forall₂ (Token.Alike True) layout.publicRuns layout'.publicRuns →
            members = members' ∧ omissions = omissions') := by
  have names := reachable.names reachable'
  obtain ⟨results, omissions, omissions', added, added', alike⟩ :=
    twins_step reachable faces faces' names runs
  refine ⟨results.ok_iff, fun item? item?' found found' => ?_⟩
  obtain ⟨members, rfl⟩ := faces.class_of_step found
  obtain ⟨members', rfl⟩ := faces'.class_of_step found'
  have declared := twins_members reachable faces faces' names runs found found'
  refine ⟨members, members', omissions, omissions', rfl, rfl, added, added', declared, alike,
    fun same => ?_⟩
  have exactly := twins_members reachable faces faces' (.exactly _ _) same found found'
  obtain ⟨_, others, others', here, here', again⟩ :=
    twins_step reachable faces faces' (.exactly _ _) same
  constructor
  · exact List.Forall₂.eq_of (fun _ _ alike => alike.eq_of_fixed (.of_exactly trivial _)) exactly
  · rw [List.append_cancel_left (added.symm.trans here),
      List.append_cancel_left (added'.symm.trans here')]
    exact List.Forall₂.eq_of (fun _ _ alike => Omission.Alike.eq alike trivial) again

/-- A class at the start of a text, whose only public run is one item. -/
theorem step_of_single {tokens run after : List Token} {beyond : List Char} {name : String}
    {kind : Kind} {declared : Declaration}
    (starts : Item.kind? none false tokens = some .classType)
    (defined : ClassItem.read [] tokens = .ok (.definition name [⟨run, beyond⟩], after))
    (member : Item.kind? (some name) false run = some kind) (plain : kind.isPlain)
    (read : Item.readPlain ⟨some name, 1, beyond⟩ false kind run = .ok (.emitted declared, [])) :
    (step ⟨.top, [], tokens, []⟩).1 =
      .ok (some (.ofClass ⟨name, [declared].filterMap Declaration.member?⟩)) := by
  have body : Item.ReadsAll ⟨some name, 1, beyond⟩ false run [declared] [] :=
    .cons (.plain member plain read) .nil
  have reads := @Item.Reads.definition .top false tokens _ _ _ _ _ starts defined (.cons body .nil)
  exact (@step_of_reads ⟨.top, [], tokens, []⟩ _ _ _ reads).1

theorem step_eq_of_private_parts : ∃ parser parser' : Parser,
    ofText none "class A:B{int p;public:int x;}".toList = .ok parser ∧
    ofText none "class A{class C{public:P q;};public:int x;private:P z;};".toList = .ok parser' ∧
    parser.step.1 = .ok (some (.ofClass ⟨"A", [.ofVariable ⟨⟨.int, []⟩, "x", true⟩]⟩)) ∧
    parser'.step.1 = .ok (some (.ofClass ⟨"A", [.ofVariable ⟨⟨.int, []⟩, "x", true⟩]⟩)) := by
  let token := fun (lexeme : Lexeme) (start : Nat) => Token.mk lexeme start []
  let spaced := fun (lexeme : Lexeme) (start : Nat) => Token.mk lexeme start [' ']
  let word := fun (text : String) (start : Nat) => token (.identifier text) start
  let label := fun (access : Keyword) (start : Nat) (content : List Token) =>
    AccessPart.mk (token (.keyword access) start)
      (token (.punctuation .colon) (start + access.spelling.length)) content
  let member := fun start => [spaced (.keyword .int) start, word "x" (start + 4),
    token (.punctuation .semicolon) (start + 5)]
  let layout : BodyLayout :=
    ⟨[spaced (.keyword .int) 10, word "p" 14, token (.punctuation .semicolon) 15],
      [label .publicKey 16 (member 23)]⟩
  let layout' : BodyLayout :=
    ⟨[spaced (.keyword .classKey) 8, word "C" 14, token (.opening .curly) 15,
        token (.keyword .publicKey) 16, token (.punctuation .colon) 22, spaced (.identifier "P") 23,
        word "q" 25, token (.punctuation .semicolon) 26, token (.closing .curly) 27,
        token (.punctuation .semicolon) 28],
      [label .publicKey 29 (member 36), label .privateKey 42
        [spaced (.identifier "P") 50, word "z" 52, token (.punctuation .semicolon) 53]]⟩
  let definition : ClassDefinition :=
    ⟨spaced (.keyword .classKey) 0, word "A" 6, [token (.punctuation .colon) 7, word "B" 8],
      token (.opening .curly) 9, layout.tokens, token (.closing .curly) 29⟩
  let definition' : ClassDefinition :=
    ⟨spaced (.keyword .classKey) 0, word "A" 6, [], token (.opening .curly) 7, layout'.tokens,
      token (.closing .curly) 54⟩
  have start : ofText none "class A:B{int p;public:int x;}".toList =
      .ok ⟨.top, [], definition.tokens, []⟩ := by cbv
  have start' : ofText none "class A{class C{public:P q;};public:int x;private:P z;};".toList =
      .ok ⟨.top, [], definition'.tokens ++ [token (.punctuation .semicolon) 55], []⟩ := by cbv
  have formed : definition.IsFormed "A" :=
    ⟨rfl, rfl, .of_plain (by decide) rfl, rfl, by decide, rfl⟩
  have formed' : definition'.IsFormed "A" :=
    ⟨rfl, rfl, .of_plain (by decide) rfl, rfl, by decide, rfl⟩
  have lays : layout.Lays definition.body :=
    ⟨by decide, List.forall_mem_singleton.2 ⟨rfl, rfl, by decide⟩, rfl⟩
  have lays' : layout'.Lays definition'.body :=
    ⟨by decide, List.forall_mem_cons.2 ⟨⟨rfl, rfl, by decide⟩,
      List.forall_mem_singleton.2 ⟨rfl, rfl, by decide⟩⟩, rfl⟩
  have runs : ∀ {exact}, List.Forall₂ (Token.Alike exact) [member 23] [member 36] := fun {_} =>
    .cons (.cons rfl (fun _ _ => rfl) False.elim (.cons rfl (fun _ _ => rfl) False.elim
      (.cons rfl (fun _ _ => rfl) False.elim (.nil False.elim)))) .nil
  have read : Item.readPlain ⟨some "A", 1, ['}']⟩ false .variableList (member 23) =
      .ok (.emitted (.ofVariable ⟨⟨.int, []⟩, "x", true⟩), []) := by rfl
  have defined : ClassItem.read [] definition.tokens =
      .ok (.definition "A" [⟨member 23, ['}']⟩], []) := by cbv
  have found := step_of_single ((Item.kind?_eq_iff_keyword rfl).2 rfl) defined (by rfl) rfl read
  obtain ⟨both, alike⟩ := step_of_publicRuns (.start start) (.start start')
    ⟨formed, lays, List.prefix_refl _⟩ ⟨formed', lays', List.prefix_append _ _⟩ runs
  obtain ⟨item?', found'⟩ := both.1 ⟨_, found⟩
  obtain ⟨members, members', _, _, item, rfl, _, _, _, _, same⟩ := alike _ _ found found'
  obtain ⟨rfl, _⟩ := same runs
  rw [← item] at found'
  exact ⟨_, _, start, start', found, found'⟩

/-- Tokens alone do not fix the class: names of operators keep the blanks inside them. -/
theorem step_of_spaced_operator : ∃ parser parser' definition definition' layout layout',
    ofText none "class A{int z;public:int operator <(int a);};".toList = .ok parser ∧
    ofText none "class A{public:int operator<(int a);};".toList = .ok parser' ∧
    parser.Faces "A" definition layout ∧ parser'.Faces "A" definition' layout' ∧
    List.Forall₂ (Token.Alike False) layout.publicRuns layout'.publicRuns ∧
    parser.step.1 = .ok (some (.ofClass ⟨"A", [.ofFunction
      ⟨.returning ⟨.int, []⟩, "operator <", [⟨⟨.int, []⟩, "a"⟩], true⟩]⟩)) ∧
    parser'.step.1 = .ok (some (.ofClass ⟨"A", [.ofFunction
      ⟨.returning ⟨.int, []⟩, "operator<", [⟨⟨.int, []⟩, "a"⟩], true⟩]⟩)) := by
  let token := fun (lexeme : Lexeme) (start : Nat) => Token.mk lexeme start []
  let spaced := fun (lexeme : Lexeme) (start : Nat) => Token.mk lexeme start [' ']
  let word := fun (text : String) (start : Nat) => token (.identifier text) start
  let member := fun (start : Nat) (gap : List Char) => [spaced (.keyword .int) start,
    ⟨.identifier "operator", start + 4, gap⟩, token (.opening .angle) (start + 12 + gap.length),
    token (.opening .round) (start + 13 + gap.length),
    spaced (.keyword .int) (start + 14 + gap.length), word "a" (start + 18 + gap.length),
    token (.closing .round) (start + 19 + gap.length),
    token (.punctuation .semicolon) (start + 20 + gap.length)]
  let label := fun (start : Nat) (content : List Token) =>
    AccessPart.mk (token (.keyword .publicKey) start) (token (.punctuation .colon) (start + 6)) content
  let layout : BodyLayout := ⟨[spaced (.keyword .int) 8, word "z" 12,
    token (.punctuation .semicolon) 13], [label 14 (member 21 [' '])]⟩
  let layout' : BodyLayout := ⟨[], [label 8 (member 15 [])]⟩
  let definition := fun (layout : BodyLayout) (stop : Nat) => ClassDefinition.mk
    (spaced (.keyword .classKey) 0) (word "A" 6) [] (token (.opening .curly) 7) layout.tokens
      (token (.closing .curly) stop)
  let last := fun (start : Nat) => [token (.punctuation .semicolon) start]
  have start : ofText none "class A{int z;public:int operator <(int a);};".toList =
      .ok ⟨.top, [], (definition layout 43).tokens ++ last 44, []⟩ := by cbv
  have start' : ofText none "class A{public:int operator<(int a);};".toList =
      .ok ⟨.top, [], (definition layout' 36).tokens ++ last 37, []⟩ := by cbv
  have formed : (definition layout 43).IsFormed "A" :=
    ⟨rfl, rfl, .of_plain (by decide) rfl, rfl, by decide, rfl⟩
  have formed' : (definition layout' 36).IsFormed "A" :=
    ⟨rfl, rfl, .of_plain (by decide) rfl, rfl, by decide, rfl⟩
  have lays : layout.Lays (definition layout 43).body :=
    ⟨by decide, List.forall_mem_singleton.2 ⟨rfl, rfl, by decide⟩, rfl⟩
  have lays' : layout'.Lays (definition layout' 36).body :=
    ⟨by decide, List.forall_mem_singleton.2 ⟨rfl, rfl, by decide⟩, rfl⟩
  have runs : List.Forall₂ (Token.Alike False) layout.publicRuns layout'.publicRuns :=
    .cons (.of_lexemes rfl) .nil
  let signature := fun name => Signature.mk name [⟨⟨.int, []⟩, "a"⟩] false
  have read : Item.readPlain ⟨some "A", 1, ['}', ';']⟩ false .function (member 21 [' ']) =
      .ok ((signature "operator <").outcome ⟨some "A", 1, ['}', ';']⟩ (.returning ⟨.int, []⟩), []) :=
    Function.read_ok_iff.2 ⟨_, (member 21 [' ']).tail, signature "operator <", _, by rfl, by rfl,
      Function.dropEnding_semicolon rfl, rfl⟩
  have read' : Item.readPlain ⟨some "A", 1, ['}', ';']⟩ false .function (member 15 []) =
      .ok ((signature "operator<").outcome ⟨some "A", 1, ['}', ';']⟩ (.returning ⟨.int, []⟩), []) :=
    Function.read_ok_iff.2 ⟨_, (member 15 []).tail, signature "operator<", _, by rfl, by rfl,
      Function.dropEnding_semicolon rfl, rfl⟩
  refine ⟨_, _, definition layout 43, definition layout' 36, layout, layout', start, start',
    ⟨formed, lays, List.prefix_append _ _⟩, ⟨formed', lays', List.prefix_append _ _⟩, runs, ?_, ?_⟩
  · exact step_of_single ((Item.kind?_eq_iff_keyword rfl).2 rfl) (by cbv) (by rfl) rfl read
  · exact step_of_single ((Item.kind?_eq_iff_keyword rfl).2 rfl) (by cbv) (by rfl) rfl read'

end Parser

/-! ### Sections as texts -/

namespace Parser

/-- What a run of tokens gives in the body of a class, its source text gives in a class. -/
theorem declarationsOf_textOf {name : String} {scope : Scope} {run run' : List Token}
    {declarations : List Declaration} {omissions : List Omission} (owner : scope.owner = some name)
    (nested : scope.isNested) (areRead : Token.AreRead run)
    (lexes : Lexed.ofText (Token.textOf run) = .ok ⟨[], run'⟩) (alike : Token.Alike True run run')
    (reads : Item.ReadsAll scope false run declarations omissions) :
    declarationsOf (some name) (Token.textOf run) = .ok (declarations, omissions) := by
  obtain ⟨notes, course, same⟩ := Item.readAll_of_readsAll reads (nestedNotes_silent name)
  have peers : scope.Peers (Scope.inClass name) := ⟨owner, nested⟩
  have mirrors := @Item.twins_readAll _ _ _ _ _ _ _ false _ _ peers (.exactly _ _)
    (nestedNotes_silent name) (nestedNotes_silent name) areRead (.of_alike alike _ _)
  rw [course] at mirrors
  refine declarationsOf_eq_ok_iff.2 ⟨_, lexes, ?_⟩
  obtain ⟨result, omitted⟩ := mirrors
  cases again : Item.readAll (Scope.inClass name) (Item.nestedNotes name) false run' with
  | mk notes' result' =>
      rw [again] at result omitted
      cases result with
      | ok all =>
          obtain rfl := List.Forall₂.eq_of (fun _ _ alike => Declaration.Alike.eq alike trivial) all
          have whole := List.Forall₂.eq_of (fun _ _ alike => Omission.Alike.eq alike trivial) omitted
          rw [← same, whole]
          exact Item.readsAll_of_readAll (nestedNotes_silent name) again

/-- What the text of a public run gives on its own: part of the text as it is. -/
def Gives (name : String) (text : List Char) (run : List Token)
    (answer : List Declaration × List Omission) : Prop :=
  Token.textOf run <:+: text ∧ declarationsOf (some name) (Token.textOf run) = .ok answer

/-- A class has the members and the omissions that the texts of its public runs give, one run behind
the other; classes among the declarations are no members. -/
theorem class_of_publicRuns {text : List Char} {parser : Parser} {name : String}
    {definition : ClassDefinition} (reachable : parser.Reachable text)
    (formed : definition.IsFormed name) (stands : definition.tokens <+: parser.tokens)
    {item? : Option Declaration} (found : parser.step.1 = .ok item?) :
    (∃ layout : BodyLayout, layout.Lays definition.body) ∧
      ∀ layout : BodyLayout, layout.Lays definition.body →
        ∃ answers, List.Forall₂ (Gives name text) layout.publicRuns answers ∧
          item? = some (.ofClass
            ⟨name, (answers.flatMap Prod.fst).filterMap Declaration.member?⟩) ∧
          parser.step.2.omissions = parser.omissions ++ answers.flatMap Prod.snd := by
  refine ⟨BodyLayout.exists_lays formed.body, fun layout lays => ?_⟩
  obtain ⟨behind, whole⟩ := stands
  obtain ⟨omissions, reads, added⟩ := reads_of_step found
  have starts := definition.kind?_append formed parser.scope.owner parser.inName behind
  have defined := definition.read_append formed parser.scope.beyond behind
  rw [whole] at starts defined
  obtain ⟨declarations, rfl, bodies⟩ := reads.of_definition starts defined
  obtain ⟨tokens, lexed, inside, source⟩ := reachable.within
  have runs := BodyLayout.map_publicOf lays
    (Token.sourceOf (definition.close :: behind) ++ parser.scope.beyond)
  obtain ⟨answers, all, rfl, rfl⟩ := bodies.answers
  refine ⟨answers, ?_, rfl, added⟩
  rw [← runs, List.forall₂_map_left_iff]
  have among := (List.forall₂_and_left _ _).2 ⟨fun part mem => mem, all⟩
  refine among.imp fun part answer ⟨mem, read⟩ => ?_
  have run : part.tokens ∈ layout.publicRuns := by
    rw [← runs]
    exact List.mem_map_of_mem mem
  have body := (Section.infix_of_mem_publicOf mem).trans definition.infix_body
  have within : part.tokens <:+: tokens := by
    refine (body.trans ?_).trans inside
    rw [← whole]
    exact (List.prefix_append _ _).isInfix
  obtain ⟨part_of_text, run', lexes, alike⟩ := lexed.ofText_infix within (layout.ne_nil_of_mem run)
  exact ⟨part_of_text.trans source.isInfix, declarationsOf_textOf rfl (by simp [Scope.isNested])
    (lexed.areRead.subset within.subset) lexes alike read⟩

theorem class_of_two_publicRuns : ∃ parser : Parser,
    ofText none "class A{public:int x;private:int p;public:P z;};".toList = .ok parser ∧
    ∃ item?, parser.step.1 = .ok item? ∧ ∃ runs answers,
      runs.map Token.textOf = ["int x;".toList, "P z;".toList] ∧
      List.Forall₂ (Gives "A" "class A{public:int x;private:int p;public:P z;};".toList) runs
        answers ∧
      item? = some (.ofClass
        ⟨"A", (answers.flatMap Prod.fst).filterMap Declaration.member?⟩) ∧
      parser.step.2.omissions = parser.omissions ++ answers.flatMap Prod.snd := by
  let token := fun (lexeme : Lexeme) (start : Nat) => Token.mk lexeme start []
  let spaced := fun (lexeme : Lexeme) (start : Nat) => Token.mk lexeme start [' ']
  let word := fun (text : String) (start : Nat) => token (.identifier text) start
  let label := fun (access : Keyword) (start : Nat) (content : List Token) =>
    AccessPart.mk (token (.keyword access) start)
      (token (.punctuation .colon) (start + access.spelling.length)) content
  let first := [spaced (.keyword .int) 15, word "x" 19, token (.punctuation .semicolon) 20]
  let second := [spaced (.identifier "P") 42, word "z" 44, token (.punctuation .semicolon) 45]
  let layout : BodyLayout :=
    ⟨[], [label .publicKey 8 first, label .privateKey 21 [spaced (.keyword .int) 29, word "p" 33,
      token (.punctuation .semicolon) 34], label .publicKey 35 second]⟩
  let definition : ClassDefinition :=
    ⟨spaced (.keyword .classKey) 0, word "A" 6, [], token (.opening .curly) 7, layout.tokens,
      token (.closing .curly) 46⟩
  let tokens := definition.tokens ++ [token (.punctuation .semicolon) 47]
  have start : ofText none "class A{public:int x;private:int p;public:P z;};".toList =
      .ok ⟨.top, [], tokens, []⟩ := by cbv
  have formed : definition.IsFormed "A" :=
    ⟨rfl, rfl, .of_plain (by decide) rfl, rfl, by decide, rfl⟩
  have lays : layout.Lays definition.body :=
    ⟨by decide, List.forall_mem_cons.2 ⟨⟨rfl, rfl, by decide⟩, List.forall_mem_cons.2
      ⟨⟨rfl, rfl, by decide⟩, List.forall_mem_singleton.2 ⟨rfl, rfl, by decide⟩⟩⟩, rfl⟩
  let behind := "private:int p;public:P z;\x7d;".toList
  have read : Item.readPlain ⟨some "A", 1, behind⟩ false .variableList first =
      .ok (.emitted (.ofVariable ⟨⟨.int, []⟩, "x", true⟩), []) := by rfl
  have read' : Item.readPlain ⟨some "A", 1, "\x7d;".toList⟩ false .variableList second =
      .ok (.omitted ⟨"z", "P"⟩, []) := by rfl
  have defined : ClassItem.read [] tokens =
      .ok (.definition "A" [⟨first, behind⟩, ⟨second, "\x7d;".toList⟩], []) := by cbv
  have body : Item.ReadsAll ⟨some "A", 1, behind⟩ false first
      [.ofVariable ⟨⟨.int, []⟩, "x", true⟩] [] :=
    .cons (.plain (by rfl) rfl read) .nil
  have body' : Item.ReadsAll ⟨some "A", 1, "\x7d;".toList⟩ false second [] [⟨"z", "P"⟩] :=
    .cons (.plain (by rfl) rfl read') .nil
  have reads := @Item.Reads.definition .top false tokens _ _ _ _ _
    ((Item.kind?_eq_iff_keyword rfl).2 rfl) defined (.cons body (.cons body' .nil))
  have found := (@step_of_reads ⟨.top, [], tokens, []⟩ _ _ _ reads).1
  obtain ⟨answers, all, item, added⟩ := (class_of_publicRuns (.start start) formed
    (List.prefix_append _ _) found).2 layout lays
  exact ⟨_, start, _, found, layout.publicRuns, answers, by cbv, all, item, added⟩

end Parser

end PxdStub
