import PxdStub.Log
import PxdStub.Proofs.Accounting
import PxdStub.Proofs.Bindable
import PxdStub.Proofs.Splicing

/-!
The log of a parse. The items that the parser comes to form an outline, in which the items inside a
wrapper or a class stand below it; the log shows the outline line by line, and it warns of what the
header has left out.
-/

namespace PxdStub

/-! ### Outlines -/

/-- Items in the order in which a parser comes to them: the first with those inside it, and those
behind it. -/
inductive Outline where
  | nil
  | cons (kind : Kind) (text : String) (inner later : Outline)
  deriving DecidableEq, Repr

namespace Outline

def append : Outline → Outline → Outline
  | nil, more => more
  | cons kind text inner later, more => cons kind text inner (later.append more)

/-- The lines of an outline that stands in the given number of classes. An item comes before those
inside it, and its members are one class deeper. -/
def lines (depth : Nat) : Outline → List LogLine
  | nil => []
  | cons kind text inner later =>
      let margin := String.ofList (List.replicate (2 * depth) ' ')
      ⟨.debug, .items, margin ++ kind.label ++ ": " ++ text⟩ ::
        (inner.lines (if kind = .classType then depth + 1 else depth) ++ later.lines depth)

theorem lines_append (depth : Nat) (outline more : Outline) :
    (outline.append more).lines depth = outline.lines depth ++ more.lines depth := by
  induction outline with
  | nil => rfl
  | cons kind text inner later _ ih =>
      rw [append, lines, lines, ih, List.cons_append, List.append_assoc]

end Outline

namespace Item

mutual

/-- The outline of reading the item at the start of some tokens, and the tokens behind the item when
it can be read. A semicolon of its own is no item. -/
inductive Outlines : Scope → Bool → List Token → Outline → Option (List Token) → Prop
  | ended {scope inName} : Outlines scope inName [] .nil none
  | semicolon {scope inName token rest} : token.lexeme.isSemicolon →
      Outlines scope inName (token :: rest) .nil (some rest)
  | item {scope inName tokens kind inner rest?} : kind? scope.owner inName tokens = some kind →
      OutlinesInner scope inName kind tokens inner rest? →
      Outlines scope inName tokens
        (.cons kind (Text.excerpt (Token.sourceOf tokens)) inner .nil) rest?

/-- The items inside the item at the start of some tokens: behind the word or the parameters of a
wrapper, and in the public sections of a class. -/
inductive OutlinesInner : Scope → Bool → Kind → List Token → Outline → Option (List Token) → Prop
  | template {scope inName tokens behind outline rest?} :
      dropTemplate scope.beyond tokens = .ok behind →
      Outlines scope (Token.namesOperator inName (Token.before tokens behind)) behind outline
        rest? →
      OutlinesInner scope inName .template tokens outline rest?
  | brokenTemplate {scope inName tokens failure} :
      dropTemplate scope.beyond tokens = .error failure →
      OutlinesInner scope inName .template tokens .nil none
  | inline {scope inName token behind outline rest?} :
      Outlines scope (token.lexeme.namesOperator inName) behind outline rest? →
      OutlinesInner scope inName .inline (token :: behind) outline rest?
  | forward {scope inName tokens name rest} :
      ClassItem.read scope.beyond tokens = .ok (.forward name, rest) →
      OutlinesInner scope inName .classType tokens .nil (some rest)
  | definition {scope inName tokens name sections rest outline done} :
      ClassItem.read scope.beyond tokens = .ok (.definition name sections, rest) →
      OutlinesSections name (scope.depth + 1) sections outline done →
      OutlinesInner scope inName .classType tokens outline (if done then some rest else none)
  | brokenClass {scope inName tokens failure} :
      ClassItem.read scope.beyond tokens = .error failure →
      OutlinesInner scope inName .classType tokens .nil none
  | plain {scope inName kind tokens} : kind.isPlain →
      OutlinesInner scope inName kind tokens .nil
        ((readPlain scope inName kind tokens).toOption.map Prod.snd)

/-- The items of sections up to the end, or up to a section that cannot be read. -/
inductive OutlinesSections : String → Nat → List Section → Outline → Bool → Prop
  | nil {name depth} : OutlinesSections name depth [] .nil true
  | cons {name depth part parts outline later done} :
      OutlinesAll ⟨some name, depth, part.beyond⟩ false part.tokens outline true →
      OutlinesSections name depth parts later done →
      OutlinesSections name depth (part :: parts) (outline.append later) done
  | stopped {name depth part parts outline} :
      OutlinesAll ⟨some name, depth, part.beyond⟩ false part.tokens outline false →
      OutlinesSections name depth (part :: parts) outline false

/-- Items up to the end of the tokens, or up to one that cannot be read. -/
inductive OutlinesAll : Scope → Bool → List Token → Outline → Bool → Prop
  | nil {scope inName} : OutlinesAll scope inName [] .nil true
  | cons {scope inName token more outline rest later done} :
      Outlines scope inName (token :: more) outline (some rest) →
      OutlinesAll scope false rest later done →
      OutlinesAll scope inName (token :: more) (outline.append later) done
  | stopped {scope inName token more outline} :
      Outlines scope inName (token :: more) outline none →
      OutlinesAll scope inName (token :: more) outline false

end

end Item

/-- The outline of a whole header: that of its body, when the parser comes to it. -/
inductive Header.Outlines (raw : List Char) : Outline → Prop
  | unprepared {error} : prepare raw = .error error → Outlines raw .nil
  | prepared {name? parser outline done} : prepare raw = .ok (name?, parser) →
      Item.OutlinesAll .top false parser.tokens outline done → Outlines raw outline

/-! ### There is one outline -/

namespace Item

mutual

theorem Outlines.unique {scope : Scope} {inName : Bool} {tokens : List Token}
    {outline outline' : Outline} {rest? rest?' : Option (List Token)}
    (first : Outlines scope inName tokens outline rest?)
    (second : Outlines scope inName tokens outline' rest?') :
    outline = outline' ∧ rest? = rest?' := by
  match first, second with
  | .ended, .ended => exact ⟨rfl, rfl⟩
  | .ended, .item starts _ => cases starts
  | .semicolon _, .semicolon _ => exact ⟨rfl, rfl⟩
  | .semicolon here, .item starts _ =>
      rw [kind?, if_pos here] at starts
      cases starts
  | .item starts _, .ended => cases starts
  | .item starts _, .semicolon here =>
      rw [kind?, if_pos here] at starts
      cases starts
  | .item starts inner, .item starts' inner' =>
      obtain rfl := Option.some.inj (starts.symm.trans starts')
      obtain ⟨rfl, rfl⟩ := inner.unique inner'
      exact ⟨rfl, rfl⟩
termination_by structural first

theorem OutlinesInner.unique {scope : Scope} {inName : Bool} {kind : Kind} {tokens : List Token}
    {outline outline' : Outline} {rest? rest?' : Option (List Token)}
    (first : OutlinesInner scope inName kind tokens outline rest?)
    (second : OutlinesInner scope inName kind tokens outline' rest?') :
    outline = outline' ∧ rest? = rest?' := by
  match first, second with
  | .template dropped inner, .template dropped' inner' =>
      obtain rfl := Except.ok.inj (dropped.symm.trans dropped')
      exact inner.unique inner'
  | .template dropped _, .brokenTemplate failed => cases dropped.symm.trans failed
  | .template _ _, .plain isPlain => cases isPlain
  | .brokenTemplate failed, .template dropped _ => cases dropped.symm.trans failed
  | .brokenTemplate _, .brokenTemplate _ => exact ⟨rfl, rfl⟩
  | .brokenTemplate _, .plain isPlain => cases isPlain
  | .inline inner, .inline inner' => exact inner.unique inner'
  | .inline _, .plain isPlain => cases isPlain
  | .forward found, .forward found' =>
      cases found.symm.trans found'
      exact ⟨rfl, rfl⟩
  | .forward found, .definition found' _ => cases found.symm.trans found'
  | .forward found, .brokenClass failed => cases found.symm.trans failed
  | .forward _, .plain isPlain => cases isPlain
  | .definition found _, .forward found' => cases found.symm.trans found'
  | .definition found bodies, .definition found' bodies' =>
      cases found.symm.trans found'
      obtain ⟨rfl, rfl⟩ := bodies.unique bodies'
      exact ⟨rfl, rfl⟩
  | .definition found _, .brokenClass failed => cases found.symm.trans failed
  | .definition _ _, .plain isPlain => cases isPlain
  | .brokenClass failed, .forward found => cases found.symm.trans failed
  | .brokenClass failed, .definition found _ => cases found.symm.trans failed
  | .brokenClass _, .brokenClass _ => exact ⟨rfl, rfl⟩
  | .brokenClass _, .plain isPlain => cases isPlain
  | .plain _, .plain _ => exact ⟨rfl, rfl⟩
  | .plain isPlain, .template _ _ | .plain isPlain, .brokenTemplate _ | .plain isPlain, .inline _
  | .plain isPlain, .forward _ | .plain isPlain, .definition _ _
  | .plain isPlain, .brokenClass _ => cases isPlain
termination_by structural first

theorem OutlinesSections.unique {name : String} {depth : Nat} {sections : List Section}
    {outline outline' : Outline} {done done' : Bool}
    (first : OutlinesSections name depth sections outline done)
    (second : OutlinesSections name depth sections outline' done') :
    outline = outline' ∧ done = done' := by
  match first, second with
  | .nil, .nil => exact ⟨rfl, rfl⟩
  | .cons here there, .cons here' there' =>
      obtain ⟨rfl, -⟩ := here.unique here'
      obtain ⟨rfl, rfl⟩ := there.unique there'
      exact ⟨rfl, rfl⟩
  | .cons here _, .stopped here' => cases (here.unique here').2
  | .stopped here, .cons here' _ => cases (here.unique here').2
  | .stopped here, .stopped here' => exact ⟨(here.unique here').1, rfl⟩
termination_by structural first

theorem OutlinesAll.unique {scope : Scope} {inName : Bool} {tokens : List Token}
    {outline outline' : Outline} {done done' : Bool}
    (first : OutlinesAll scope inName tokens outline done)
    (second : OutlinesAll scope inName tokens outline' done') :
    outline = outline' ∧ done = done' := by
  match first, second with
  | .nil, .nil => exact ⟨rfl, rfl⟩
  | .cons here there, .cons here' there' =>
      obtain ⟨rfl, same⟩ := here.unique here'
      obtain rfl := Option.some.inj same
      obtain ⟨rfl, rfl⟩ := there.unique there'
      exact ⟨rfl, rfl⟩
  | .cons here _, .stopped here' => cases (here.unique here').2
  | .stopped here, .cons here' _ => cases (here.unique here').2
  | .stopped here, .stopped here' => exact ⟨(here.unique here').1, rfl⟩
termination_by structural first

end

end Item

/-! ### Notes -/

namespace Note

/-- The lines of notes on items. -/
def itemLines (notes : List Note) : List LogLine :=
  (notes.map line).filter fun line => line.origin = .items

theorem itemLines_append (notes more : List Note) :
    itemLines (notes ++ more) = itemLines notes ++ itemLines more := by
  rw [itemLines, List.map_append, List.filter_append]
  rfl

/-- Notes that tell of no item, and of no omission that is lost. -/
def IsAside : Note → Prop
  | item _ _ _ | lost _ => False
  | _ => True

theorem itemLines_of_isAside {notes : List Note} (aside : ∀ note ∈ notes, note.IsAside) :
    itemLines notes = [] := by
  rw [itemLines, List.filter_eq_nil_iff]
  intro line inside
  obtain ⟨note, among, rfl⟩ := List.mem_map.1 inside
  have here := aside note among
  cases note with
  | item depth kind text => cases here
  | lost omission => cases here
  | skipped | forwardDeclaration | nestedClass | omitted => simp [line]

theorem line_lose (note : Note) : note.lose.line = note.line := by
  cases note <;> rfl

theorem itemLines_lose (notes : List Note) : itemLines (notes.map lose) = itemLines notes := by
  rw [itemLines, List.map_map]
  exact congrArg _ (List.map_congr_left fun note _ => line_lose note)

end Note

/-! ### Courses and their outlines -/

namespace Course

def isDone (course : Course ε α) : Bool :=
  course.result.toBool

/-- The tokens behind an item that is read. -/
def rest? (course : Course ε (α × List Token)) : Option (List Token) :=
  course.result.toOption.map Prod.snd

theorem bind_pure_eq (course : Course ε α) (change : α → β) :
    (course.bind fun value => Course.pure (change value)) =
      ⟨course.notes, course.result.map change⟩ := by
  unfold Course.bind
  cases course.result with
  | error error => rfl
  | ok value => simp [Course.pure, Except.map]

theorem isDone_bind_of_error {course : Course ε α} {next : α → Course ε β} {error : ε}
    (failed : course.result = .error error) : (course.bind next).isDone = false := by
  rw [isDone, Course.bind, failed]
  rfl

theorem isDone_bind_of_ok {course : Course ε α} {next : α → Course ε β} {value : α}
    (done : course.result = .ok value) : (course.bind next).isDone = (next value).isDone := by
  rw [isDone, Course.bind, done]
  rfl

theorem isDone_map (course : Course ε α) (change : α → β) :
    isDone ⟨course.notes, course.result.map change⟩ = course.isDone := by
  rw [isDone, isDone]
  cases course.result <;> rfl

theorem isDone_mapError (course : Course ε α) (change : ε → ε') :
    (course.mapError change).isDone = course.isDone := by
  rw [isDone, isDone, Course.mapError]
  cases course.result <;> rfl

theorem rest?_map (course : Course ε α) (change : α → β) (rest : List Token) :
    rest? ⟨course.notes, course.result.map fun value => (change value, rest)⟩ =
      if course.isDone then some rest else none := by
  rw [rest?, isDone]
  cases course.result <;> rfl

/-- The lines of a course are those of an outline. It loses omissions only when it fails. -/
structure Shows (course : Course ε α) (depth : Nat) (outline : Outline) : Prop where
  items : Note.itemLines course.notes = outline.lines depth
  kept : course.isDone → ∀ omission, Note.lost omission ∉ course.notes

namespace Shows

variable {course : Course ε α} {next : α → Course ε β} {depth : Nat} {outline more : Outline}

theorem pure (value : α) (depth : Nat) : (Course.pure value : Course ε α).Shows depth .nil :=
  ⟨rfl, fun _ _ => List.not_mem_nil⟩

theorem fail (error : ε) (depth : Nat) : (Course.fail error : Course ε α).Shows depth .nil :=
  ⟨rfl, fun _ _ => List.not_mem_nil⟩

theorem note {notes : List Note} (aside : ∀ note ∈ notes, note.IsAside) (depth : Nat) :
    (Course.note notes : Course ε Unit).Shows depth .nil :=
  ⟨Note.itemLines_of_isAside aside, fun _ _ inside => aside _ inside⟩

theorem bind_of_error (first : course.Shows depth outline) {error : ε}
    (failed : course.result = .error error) : (course.bind next).Shows depth outline := by
  have whole : course.bind next = ⟨course.notes, .error error⟩ := by
    rw [Course.bind, failed]
  rw [whole]
  exact ⟨first.items, nofun⟩

theorem bind_of_ok (first : course.Shows depth outline) {value : α}
    (done : course.result = .ok value) (second : (next value).Shows depth more) :
    (course.bind next).Shows depth (outline.append more) := by
  have whole : course.bind next =
      ⟨course.notes ++ (next value).notes, (next value).result⟩ := by
    rw [Course.bind, done]
  rw [whole]
  constructor
  · rw [Note.itemLines_append, first.items, second.items, Outline.lines_append]
  · intro ended omission inside
    rcases List.mem_append.1 inside with here | there
    · exact first.kept (by rw [isDone, done]; rfl) omission here
    · exact second.kept ended omission there

theorem losing (first : course.Shows depth outline) : course.losing.Shows depth outline := by
  unfold Course.losing
  split
  · exact first
  · next failed =>
      refine ⟨(Note.itemLines_lose course.notes).trans first.items, fun done => ?_⟩
      rw [isDone, failed] at done
      cases done

theorem mapError (first : course.Shows depth outline) (change : ε → ε') :
    (course.mapError change).Shows depth outline :=
  ⟨first.items, fun done => first.kept (isDone_mapError course change ▸ done)⟩

theorem map (first : course.Shows depth outline) (change : α → β) :
    Shows ⟨course.notes, course.result.map change⟩ depth outline :=
  ⟨first.items, fun done => first.kept (isDone_map course change ▸ done)⟩

end Shows

end Course

namespace Item

/-! ### Every course has an outline -/

theorem exists_outline_sections {name : String} {depth : Nat} {sections : List Section}
    {body : Section → Course Failure (List Declaration)}
    (reads : ∀ part ∈ sections, ∃ outline,
      OutlinesAll ⟨some name, depth, part.beyond⟩ false part.tokens outline (body part).isDone ∧
        (body part).Shows depth outline) :
    ∃ outline,
      OutlinesSections name depth sections outline
        (Course.all (sections.map fun part => (body part).losing)).isDone ∧
      (Course.all (sections.map fun part => (body part).losing)).Shows depth outline := by
  induction sections with
  | nil => exact ⟨.nil, .nil, .pure [] depth⟩
  | cons part parts ih =>
      obtain ⟨⟨first, own, shows'⟩, others⟩ := List.forall_mem_cons.1 reads
      obtain ⟨later, rest, more⟩ := ih others
      rw [List.map_cons, Course.all]
      simp only [Course.bind_pure_eq]
      cases result : (body part).losing.result with
      | error error =>
          have stopped : (body part).isDone = false := by
            rw [Course.isDone, ← Course.result_losing, result]
            rfl
          rw [stopped] at own
          rw [Course.isDone_bind_of_error result]
          exact ⟨first, .stopped own, shows'.losing.bind_of_error result⟩
      | ok value =>
          have done : (body part).isDone = true := by
            rw [Course.isDone, ← Course.result_losing, result]
            rfl
          rw [done] at own
          rw [Course.isDone_bind_of_ok result, Course.isDone_map]
          exact ⟨_, .cons own rest, shows'.losing.bind_of_ok result (more.map _)⟩

theorem OutlinesAll.of_nil {scope : Scope} {inName inName' : Bool} {outline : Outline} {done : Bool}
    (all : OutlinesAll scope inName [] outline done) :
    OutlinesAll scope inName' [] outline done := by
  cases all with
  | nil => exact .nil

theorem shows_item {course : Course Failure α} {depth : Nat} {kind : Kind} {inner : Outline}
    (inside : course.Shows (if kind = .classType then depth + 1 else depth) inner) (text : String) :
    ((Course.note [.item depth kind text]).bind fun _ => course).Shows depth
      (.cons kind text inner .nil) := by
  constructor
  · show Note.itemLines ([.item depth kind text] ++ course.notes) = _
    rw [Note.itemLines_append, inside.items, Outline.lines, Outline.lines, List.append_nil]
    rfl
  · intro done omission among
    rcases List.mem_append.1 among with here | there
    · cases List.mem_singleton.1 here
    · exact inside.kept done omission there

theorem isAside_of_readPlain {scope : Scope} {inName : Bool} {kind : Kind}
    {tokens rest : List Token} {outcome : Outcome} (isPlain : kind.isPlain)
    (starts : kind? scope.owner inName tokens = some kind)
    (found : readPlain scope inName kind tokens = .ok (outcome, rest)) :
    ∀ note ∈ outcome.notes, note.IsAside := by
  cases fate_of_readPlain isPlain starts found with
  | emitted => nofun
  | omitted =>
      intro note inside
      obtain rfl := List.mem_singleton.1 inside
      trivial
  | passed _ skipped =>
      intro note inside
      obtain ⟨text, rfl⟩ := skipped note inside
      trivial

theorem exists_outline_plain {scope : Scope} {inName : Bool} {kind : Kind} {token : Token}
    {rest : List Token} (isPlain : kind.isPlain)
    (starts : kind? scope.owner inName (token :: rest) = some kind) (depth : Nat) :
    ∃ outline,
      OutlinesInner scope inName kind (token :: rest) outline
        (readKind scope inName kind token rest).rest? ∧
      (readKind scope inName kind token rest).Shows depth outline := by
  have inside := @OutlinesInner.plain scope inName kind (token :: rest) isPlain
  rw [readKind_of_isPlain isPlain]
  cases found : readPlain scope inName kind (token :: rest) with
  | error failure =>
      rw [found] at inside
      exact ⟨.nil, inside, .fail _ _⟩
  | ok read =>
      obtain ⟨outcome, after⟩ := read
      rw [found] at inside
      rw [Course.ofExcept_ok_bind]
      dsimp only
      rw [Course.bind_pure_eq]
      exact ⟨.nil, inside, (Course.Shows.note (isAside_of_readPlain isPlain starts found) _).map _⟩

theorem isAside_of_nestedNotes (owner : String) (declaration : Declaration) :
    ∀ note ∈ nestedNotes owner declaration, note.IsAside := by
  cases declaration with
  | ofClass inner =>
      intro note inside
      obtain rfl := List.mem_singleton.1 inside
      trivial
  | ofVariable | ofFunction => nofun

/-- A class has an outline when its sections have them. -/
theorem exists_outline_class (scope : Scope) (inName : Bool) {token : Token} {rest : List Token}
    (bodies : ∀ (name : String) (part : Section), part.tokens.length < (token :: rest).length →
      let body := readAll ⟨some name, scope.depth + 1, part.beyond⟩ (nestedNotes name) false
        part.tokens
      ∃ outline,
        OutlinesAll ⟨some name, scope.depth + 1, part.beyond⟩ false part.tokens outline
          body.isDone ∧
        body.Shows (scope.depth + 1) outline) :
    ∃ outline,
      OutlinesInner scope inName .classType (token :: rest) outline
        (readKind scope inName .classType token rest).rest? ∧
      (readKind scope inName .classType token rest).Shows (scope.depth + 1) outline := by
  rw [readKind_classType]
  cases found : ClassItem.read scope.beyond (token :: rest) with
  | error failure => exact ⟨.nil, .brokenClass found, .fail _ _⟩
  | ok item =>
      obtain ⟨item, after⟩ := item
      rw [Course.ofExcept_ok_bind]
      cases item with
      | forward name =>
          dsimp only
          rw [Course.bind_pure_eq]
          refine ⟨.nil, .forward found, (Course.Shows.note ?_ _).map _⟩
          intro note inside
          obtain rfl := List.mem_singleton.1 inside
          trivial
      | definition name sections =>
          obtain ⟨outline, parts, shows'⟩ := exists_outline_sections fun part mem =>
            bodies name part (ClassItem.length_of_mem_sections found mem)
          dsimp only
          rw [Course.bind_pure_eq]
          refine ⟨outline, ?_, (shows'.mapError _).map _⟩
          rw [Course.rest?_map, Course.isDone_mapError]
          exact .definition found parts

-- By induction on the number of tokens: behind a wrapper, in a section and behind an item there are
-- fewer of them.
mutual

theorem exists_outline (scope : Scope) (inName : Bool) (tokens : List Token) :
    ∃ outline, Outlines scope inName tokens outline (read scope inName tokens).rest? ∧
      (read scope inName tokens).Shows scope.depth outline := by
  match tokens with
  | [] =>
      rw [read]
      exact ⟨.nil, .ended, .fail _ _⟩
  | token :: rest =>
      by_cases semicolon : token.lexeme.isSemicolon
      · rw [read, if_pos semicolon]
        exact ⟨.nil, .semicolon semicolon, .pure _ _⟩
      · have starts : kind? scope.owner inName (token :: rest) =
            some (Kind.ofTokens scope.owner inName (token :: rest)) :=
          kind?_eq_some_iff.2 ⟨token, rest, rfl, by simpa using semicolon, rfl⟩
        obtain ⟨inner, inside, shows'⟩ := exists_outline_inner starts
        rw [read_of_kind? starts]
        exact ⟨_, .item starts inside, shows_item shows' _⟩
termination_by (tokens.length, 1)

theorem exists_outline_inner {scope : Scope} {inName : Bool} {kind : Kind} {token : Token}
    {rest : List Token} (starts : kind? scope.owner inName (token :: rest) = some kind) :
    ∃ outline,
      OutlinesInner scope inName kind (token :: rest) outline
        (readKind scope inName kind token rest).rest? ∧
      (readKind scope inName kind token rest).Shows
        (if kind = .classType then scope.depth + 1 else scope.depth) outline := by
  cases kind with
  | template =>
      rw [readKind_template]
      cases dropped : dropTemplate scope.beyond (token :: rest) with
      | error failure => exact ⟨.nil, .brokenTemplate dropped, .fail _ _⟩
      | ok behind =>
          have shorter := length_dropTemplate dropped
          rw [Course.ofExcept_ok_bind]
          obtain ⟨outline, inside, shows'⟩ := exists_outline scope
            (Token.namesOperator inName (Token.before (token :: rest) behind)) behind
          exact ⟨outline, .template dropped inside, shows'⟩
  | inline =>
      rw [readKind]
      obtain ⟨outline, inside, shows'⟩ :=
        exists_outline scope (token.lexeme.namesOperator inName) rest
      exact ⟨outline, .inline inside, shows'⟩
  | classType =>
      exact exists_outline_class scope inName fun name part shorter =>
        exists_outline_items _ (isAside_of_nestedNotes name) false part.tokens
  | variableList | function | typedef | constructor | destructor =>
      exact exists_outline_plain rfl starts scope.depth
termination_by ((token :: rest).length, 0)

theorem exists_outline_items (scope : Scope) {notesOf : Declaration → List Note}
    (aside : ∀ declaration, ∀ note ∈ notesOf declaration, note.IsAside) (inName : Bool)
    (tokens : List Token) :
    ∃ outline,
      OutlinesAll scope inName tokens outline (readAll scope notesOf inName tokens).isDone ∧
      (readAll scope notesOf inName tokens).Shows scope.depth outline := by
  match tokens with
  | [] =>
      rw [readAll]
      exact ⟨.nil, .nil, .pure _ _⟩
  | token :: rest =>
      obtain ⟨outline, here, shows'⟩ := exists_outline scope inName (token :: rest)
      rw [readAll]
      cases result : (read scope inName (token :: rest)).result with
      | error failure =>
          rw [Course.rest?, result] at here
          rw [Course.isDone_bind_of_error result]
          exact ⟨outline, .stopped here, shows'.bind_of_error result⟩
      | ok read =>
          obtain ⟨declaration?, after⟩ := read
          have reads := reads_of_read (show Item.read scope inName (token :: rest) =
            ⟨_, .ok (declaration?, after)⟩ by rw [← result])
          have shorter := reads.endsItem.length_lt (List.cons_ne_nil token rest)
          obtain ⟨later, there, more⟩ := exists_outline_items scope aside
            (Token.namesOperator inName (Token.before (token :: rest) after)) after
          rw [Course.rest?, result] at here
          rw [Course.isDone_bind_of_ok result]
          dsimp only
          rw [if_pos shorter, Course.bind_pure_eq, Course.isDone_bind_of_ok rfl, Course.isDone_map]
          have asides : ∀ note ∈ declaration?.toList.flatMap notesOf, note.IsAside := by
            intro note inside
            obtain ⟨declaration, -, among⟩ := List.mem_flatMap.1 inside
            exact aside declaration note among
          refine ⟨outline.append later, .cons here ?_, shows'.bind_of_ok result ?_⟩
          · -- No operator's name goes on behind an item, unless no token is left to tell.
            by_cases ended : after = []
            · rw [ended] at there ⊢
              exact there.of_nil
            · have bare := reads.endsItem.namesOperator_before ended inName
              dsimp only
              rwa [bare] at there ⊢
          · refine (Course.Shows.note asides _).bind_of_ok rfl ?_
            dsimp only
            rw [if_pos shorter, Course.bind_pure_eq]
            exact more.map _
termination_by (tokens.length, 2)

end

end Item

/-! ### Whole headers -/

/-- Where nothing is lost, the warnings of the log are the omissions. -/
theorem Note.warnings_eq {notes : List Note} (kept : ∀ omission, .lost omission ∉ notes) :
    ((notes.map line).filter fun line => line.level = .warn).map LogLine.text =
      (omissions notes).map Omission.message := by
  induction notes with
  | nil => rfl
  | cons note rest ih =>
      have later := ih fun omission inside => kept omission (.tail _ inside)
      cases note with
      | lost omission => exact absurd (.head _) (kept omission)
      | omitted omission => simpa [omissions, line] using later
      | item | skipped | forwardDeclaration | nestedClass =>
          simpa [omissions, line] using later

namespace Header

theorem Outlines.unique {raw : List Char} {outline outline' : Outline}
    (first : Outlines raw outline) (second : Outlines raw outline') : outline = outline' := by
  cases first with
  | unprepared failed =>
      cases second with
      | unprepared _ => rfl
      | prepared prepared _ => cases failed.symm.trans prepared
  | prepared prepared inside =>
      cases second with
      | unprepared failed => cases failed.symm.trans prepared
      | prepared prepared' inside' =>
          cases prepared.symm.trans prepared'
          exact (inside.unique inside').1

/-- A parser for a header stands at its start. -/
theorem eq_of_prepare {raw : List Char} {name? : Option String} {parser : Parser}
    (prepared : prepare raw = .ok (name?, parser)) :
    parser.scope = .top ∧ parser.inName = false := by
  obtain ⟨code, -, found⟩ := Except.bind_ok_iff.1 prepared
  obtain ⟨⟨_, body⟩, -, found⟩ := Except.bind_ok_iff.1 found
  obtain ⟨_, start, found⟩ := Except.bind_ok_iff.1 found
  cases found
  obtain ⟨lexed, -, rfl⟩ := Parser.ofText_eq_ok_iff.1 start
  exact ⟨rfl, rfl⟩

theorem exists_outline (raw : List Char) :
    ∃ outline, Outlines raw outline ∧ (ofText raw).Shows 0 outline := by
  unfold ofText
  cases prepared : prepare raw with
  | error error => exact ⟨.nil, .unprepared prepared, .fail _ _⟩
  | ok pair =>
      obtain ⟨name?, parser⟩ := pair
      obtain ⟨scope, inName⟩ := eq_of_prepare prepared
      obtain ⟨outline, inside, shows'⟩ := @Item.exists_outline_items .top (fun _ => [])
        (fun _ _ among => absurd among List.not_mem_nil) false parser.tokens
      rw [Course.ofExcept_ok_bind]
      dsimp only
      rw [Course.bind_pure_eq, Parser.run, scope, inName]
      exact ⟨outline, .prepared prepared inside, (shows'.mapError _).map _⟩

theorem readsAll_of_ofText {raw : List Char} {header : Header}
    (found : (ofText raw).result = .ok header) :
    header.omissions = Note.omissions (ofText raw).notes ∧
      ∃ parser, prepare raw = .ok (header.namespaceName, parser) ∧
        Item.ReadsAll .top false parser.tokens header.declarations header.omissions := by
  have course : ofText raw = ⟨(ofText raw).notes, .ok header⟩ := by rw [← found]
  obtain ⟨⟨name?, parser⟩, prepared, course⟩ := Course.ofExcept_bind_eq_ok course
  obtain ⟨declarations, notes, later, run, done, whole⟩ := Course.bind_eq_ok course
  cases done
  obtain ⟨scope, inName⟩ := eq_of_prepare prepared
  have reads := Parser.run_eq_ok_iff.1 ⟨congrArg Course.result run, rfl⟩
  rw [scope, inName] at reads
  refine ⟨?_, parser, prepared, reads⟩
  rw [whole, List.append_nil, run]

/-- What the log shows while a header is read. -/
def log (raw : List Char) : List LogLine :=
  (ofText raw).notes.map Note.line

/-- The log of a header warns of what the header has left out, and shows its items as they stand in
each other, also when one of them cannot be read. -/
theorem log_outline (raw : List Char) :
    (∀ header, (ofText raw).result = .ok header →
      ((log raw).filter fun line => line.level = .warn).map LogLine.text =
          header.omissions.map Omission.message ∧
        ∃ parser, prepare raw = .ok (header.namespaceName, parser) ∧
          Item.ReadsAll .top false parser.tokens header.declarations header.omissions) ∧
    ∃ outline, Outlines raw outline ∧ (∀ other, Outlines raw other → other = outline) ∧
      ((log raw).filter fun line => line.origin = .items) = outline.lines 0 := by
  obtain ⟨outline, outlines, shows'⟩ := exists_outline raw
  refine ⟨fun header found => ?_, outline, outlines, fun _ other => other.unique outlines,
    shows'.items⟩
  obtain ⟨omissions, reads⟩ := readsAll_of_ofText found
  refine ⟨?_, reads⟩
  rw [omissions]
  exact Note.warnings_eq (shows'.kept (by rw [Course.isDone, found]; rfl))

set_option maxRecDepth 1000 in
theorem log_outline_class : ∃ header,
    (ofText "class A{public:inline P z;};Q w;".toList).result = .ok header ∧
    header.omissions = [⟨"z", "P"⟩, ⟨"w", "Q"⟩] ∧
    ((log "class A{public:inline P z;};Q w;".toList).filter fun line => line.level = .warn).map
        LogLine.text = header.omissions.map Omission.message ∧
    ((log "class A{public:inline P z;};Q w;".toList).filter fun line => line.origin = .items).map
        LogLine.text = ["Class: class A{public:inline P z;};Q w;", "  Inline: inline P z;",
          "  Variable: P z;", "Variable: Q w;"] := by
  let listed : List Token := [⟨.identifier "P", 22, [' ']⟩, ⟨.identifier "z", 24, []⟩,
    ⟨.punctuation .semicolon, 25, []⟩]
  let inlined : List Token := ⟨.keyword .inline, 15, [' ']⟩ :: listed
  let last : List Token := [⟨.identifier "Q", 28, [' ']⟩, ⟨.identifier "w", 30, []⟩,
    ⟨.punctuation .semicolon, 31, []⟩]
  let tokens : List Token := [⟨.keyword .classKey, 0, [' ']⟩, ⟨.identifier "A", 6, []⟩,
    ⟨.opening .curly, 7, []⟩, ⟨.keyword .publicKey, 8, []⟩, ⟨.punctuation .colon, 14, []⟩] ++
    inlined ++ [⟨.closing .curly, 26, []⟩, ⟨.punctuation .semicolon, 27, []⟩] ++ last
  let beyond : List Char := ['}', ';', 'Q', ' ', 'w', ';']
  have lexes : Lexed.ofText "class A{public:inline P z;};Q w;".toList = .ok ⟨[], tokens⟩ := by cbv
  have normal : normalize "class A{public:inline P z;};Q w;".toList =
      .ok "class A{public:inline P z;};Q w;".toList := by
    have lines : Text.trim ((codeLines "class A{public:inline P z;};Q w;".toList).flatMap
        (' ' :: ·)) = "class A{public:inline P z;};Q w;".toList := by cbv
    rw [normalize_eq, lines]
    exact withoutComments_of_cut? (by cbv)
  have outside : extractNamespace "class A{public:inline P z;};Q w;".toList =
      .ok (none, "class A{public:inline P z;};Q w;".toList) := by cbv
  have start : Parser.ofText none "class A{public:inline P z;};Q w;".toList =
      .ok ⟨.top, [], tokens, []⟩ := Parser.ofText_eq_ok_iff.2 ⟨_, lexes, rfl⟩
  have prepared : prepare "class A{public:inline P z;};Q w;".toList =
      .ok (none, ⟨.top, [], tokens, []⟩) :=
    Except.bind_ok_iff.2 ⟨_, normal, Except.bind_ok_iff.2 ⟨_, outside,
        Except.bind_ok_iff.2 ⟨_, start, rfl⟩⟩⟩
  have starts : Item.kind? none false tokens = some .classType :=
    (Item.kind?_eq_iff_keyword rfl).2 rfl
  have inlines : Item.kind? (some "A") false inlined = some .inline :=
    (Item.kind?_eq_iff_keyword rfl).2 rfl
  have defined : ClassItem.read [] tokens = .ok (.definition "A" [⟨inlined, beyond⟩], last) := by
    cbv
  have kindListed : Item.kind? (some "A") false listed = some .variableList := by rfl
  have kindLast : Item.kind? none false last = some .variableList := by rfl
  have readListed : Item.readPlain ⟨some "A", 1, beyond⟩ false .variableList listed =
      .ok (.omitted ⟨"z", "P"⟩, []) := by rfl
  have readLast : Item.readPlain .top false .variableList last = .ok (.omitted ⟨"w", "Q"⟩, []) := by
    rfl
  have found : (ofText "class A{public:inline P z;};Q w;".toList).result =
      .ok ⟨none, [.ofClass ⟨"A", []⟩], [⟨"z", "P"⟩, ⟨"w", "Q"⟩]⟩ := by
    refine ofText_eq_ok_iff.2 ⟨_, _, normal, outside,
      Parser.declarationsOf_eq_ok_iff.2 ⟨_, lexes, ?_⟩⟩
    exact .cons (.definition starts defined
      (.cons (.cons (.inline inlines (.plain kindListed rfl readListed)) .nil) .nil))
      (.cons (.plain kindLast rfl readLast) .nil)
  have inner : Item.OutlinesAll ⟨some "A", 1, beyond⟩ false inlined
      (.cons .inline "inline P z;" (.cons .variableList "P z;" .nil .nil) .nil) true := by
    have behind := @Item.OutlinesInner.plain ⟨some "A", 1, beyond⟩ false .variableList listed rfl
    rw [readListed] at behind
    exact .cons (.item inlines (.inline (.item kindListed behind))) .nil
  have outer : Item.OutlinesAll .top false last (.cons .variableList "Q w;" .nil .nil) true := by
    have behind := @Item.OutlinesInner.plain .top false .variableList last rfl
    rw [readLast] at behind
    exact .cons (.item kindLast behind) .nil
  have outlined : Outlines "class A{public:inline P z;};Q w;".toList
      (.cons .classType "class A{public:inline P z;};Q w;"
        (.cons .inline "inline P z;" (.cons .variableList "P z;" .nil .nil) .nil)
        (.cons .variableList "Q w;" .nil .nil)) := by
    have quoted : Text.excerpt (Token.sourceOf tokens) = "class A{public:inline P z;};Q w;" := by
      cbv
    have first := @Item.Outlines.item .top false tokens _ _ _ starts
      (.definition defined (.cons inner .nil))
    rw [quoted] at first
    exact .prepared prepared (.cons first outer)
  obtain ⟨warned, outline, _, only, items⟩ := log_outline "class A{public:inline P z;};Q w;".toList
  refine ⟨_, found, rfl, (warned _ found).1, ?_⟩
  rw [items, ← only _ outlined]
  rfl

end Header

end PxdStub
