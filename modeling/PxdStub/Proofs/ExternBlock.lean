import PxdStub.Proofs.OneLine
import PxdStub.Stub

/-!
The last block of a stub. Declarations are rendered as lines that are indented by two spaces or more,
so that whatever stands behind the head of the block belongs to it.
-/

namespace PxdStub

/-! ### Pieces of lines -/

namespace Text

/-- Text that may stand at the end of a line: it has no line feed, and does not end in a carriage
return, which would belong to the line end. -/
structure IsPiece (text : List Char) : Prop where
  oneLine : '\n' ∉ text
  closed : text.getLast? ≠ some '\r'

/-- A line that is indented by two spaces at least. -/
structure IsBlockLine (line : List Char) : Prop extends IsPiece line where
  indented : [' ', ' '] <+: line

/-- Text that consists of these lines, with line feeds between them. -/
structure IsBlock (text : List Char) (lines : List (List Char)) : Prop where
  some : lines ≠ []
  text_eq : text = ['\n'].intercalate lines
  each : ∀ line ∈ lines, IsBlockLine line

namespace IsPiece

variable {front back : List Char}

theorem of_notMem (oneLine : '\n' ∉ back) (closed : '\r' ∉ back) : IsPiece back :=
  ⟨oneLine, fun last => closed (List.mem_of_getLast? last)⟩

theorem of_append (oneLine : '\n' ∉ front) (piece : IsPiece back) (some : back ≠ []) :
    IsPiece (front ++ back) := by
  constructor
  · rw [List.mem_append, not_or]
    exact ⟨oneLine, piece.oneLine⟩
  · rw [List.getLast?_append_of_ne_nil front some]
    exact piece.closed

theorem append (piece : IsPiece front) (piece' : IsPiece back) : IsPiece (front ++ back) := by
  by_cases some : back = []
  · rwa [some, List.append_nil]
  · exact of_append piece.oneLine piece' some

theorem intercalate {separator : List Char} {parts : List (List Char)}
    (between : IsPiece separator) (within : ∀ part ∈ parts, IsPiece part) :
    IsPiece (separator.intercalate parts) := by
  induction parts with
  | nil => exact ⟨List.not_mem_nil, nofun⟩
  | cons first rest ih =>
      obtain ⟨here, there⟩ := List.forall_mem_cons.1 within
      cases rest with
      | nil => rwa [List.intercalate_singleton]
      | cons second rest =>
          rw [List.intercalate_cons_cons]
          exact (here.append between).append (ih there)

theorem lines_eq (piece : IsPiece front) (rest : List Char) :
    lines (front ++ '\n' :: rest) = front :: lines rest := by
  obtain ⟨start, rfl | ending, found⟩ := lines_append_feed piece.oneLine rest
  · exact found
  · exact absurd (by rw [ending, List.getLast?_concat]) piece.closed

end IsPiece

theorem IsBlockLine.indent {line : List Char} (piece : IsPiece line) :
    IsBlockLine (' ' :: ' ' :: line) :=
  ⟨@IsPiece.append [' ', ' '] line (.of_notMem (by decide) (by decide)) piece,
    List.prefix_append [' ', ' '] line⟩

theorem IsBlockLine.of_notMem {line : List Char} (oneLine : '\n' ∉ line) (closed : '\r' ∉ line) :
    IsBlockLine (' ' :: ' ' :: line) :=
  .indent (.of_notMem oneLine closed)

theorem IsBlockLine.append {line more : List Char} (start : IsBlockLine line) (piece : IsPiece more) :
    IsBlockLine (line ++ more) :=
  ⟨start.toIsPiece.append piece, start.indented.trans (List.prefix_append line more)⟩

theorem IsBlockLine.ne_nil {line : List Char} (start : IsBlockLine line) : line ≠ [] := by
  rintro rfl
  exact absurd start.indented (by decide)

/-! ### Blocks -/

theorem intercalate_feed (line : List Char) (more : List (List Char)) :
    ['\n'].intercalate (line :: more) = line ++ more.flatMap ('\n' :: ·) := by
  induction more generalizing line with
  | nil => simp
  | cons next more ih =>
      rw [List.intercalate_cons_cons, ih, List.flatMap_cons, List.append_assoc]
      rfl

namespace IsBlock

variable {text line : List Char} {lines : List (List Char)}

theorem singleton (start : IsBlockLine line) : IsBlock line [line] :=
  ⟨List.cons_ne_nil _ _, (List.intercalate_singleton ..).symm, List.forall_mem_singleton.2 start⟩

theorem lines_append (block : IsBlock text lines) (rest : List Char) :
    Text.lines (text ++ '\n' :: rest) = lines ++ Text.lines rest := by
  obtain ⟨some, rfl, each⟩ := block
  induction lines with
  | nil => exact absurd rfl some
  | cons first more ih =>
      obtain ⟨here, there⟩ := List.forall_mem_cons.1 each
      cases more with
      | nil =>
          rw [List.intercalate_singleton]
          exact here.lines_eq rest
      | cons second more =>
          have behind := ih (List.cons_ne_nil _ _) there
          rw [List.intercalate_cons_cons, List.append_assoc, List.append_assoc,
            List.singleton_append, here.lines_eq, behind]
          rfl

theorem lines_eq (block : IsBlock text lines) : Text.lines text = lines := by
  obtain ⟨some, rfl, each⟩ := block
  induction lines with
  | nil => exact absurd rfl some
  | cons first more ih =>
      obtain ⟨here, there⟩ := List.forall_mem_cons.1 each
      cases more with
      | nil =>
          rw [List.intercalate_singleton]
          exact lines_of_not_mem here.oneLine here.ne_nil
      | cons second more =>
          rw [List.intercalate_cons_cons, List.append_assoc, List.singleton_append, here.lines_eq,
            ih (List.cons_ne_nil _ _) there]

end IsBlock

/-- Wrapped pieces are the lines of a block. -/
theorem blockLines_wrapBehind {width : Nat} {line : String} {words : List String}
    (start : IsBlockLine line.toList) (pieces : ∀ word ∈ words, IsPiece word.toList) :
    ∀ wrapped ∈ wrapBehind width "    " line words, IsBlockLine wrapped.toList := by
  induction words generalizing line with
  | nil => exact List.forall_mem_singleton.2 start
  | cons word rest ih =>
      obtain ⟨here, there⟩ := List.forall_mem_cons.1 pieces
      have blank : IsPiece " ".toList := .of_notMem (by decide) (by decide)
      rw [wrapBehind]
      split
      · refine ih ?_ there
        rw [String.toList_append, String.toList_append]
        exact (start.append blank).append here
      · refine List.forall_mem_cons.2 ⟨start, ih ?_ there⟩
        rw [String.toList_append]
        have margin : IsBlockLine "    ".toList :=
          @IsBlockLine.of_notMem [' ', ' '] (by decide) (by decide)
        exact margin.append here

theorem wrapBehind_ne_nil {width : Nat} {indent line : String} {words : List String} :
    wrapBehind width indent line words ≠ [] := by
  induction words generalizing line with
  | nil => exact List.cons_ne_nil _ _
  | cons word rest ih =>
      rw [wrapBehind]
      split
      · exact ih
      · exact List.cons_ne_nil _ _

theorem lines_ne_nil {text : List Char} (some : text ≠ []) : lines text ≠ [] := by
  unfold lines
  split
  · exact absurd rfl some
  · exact List.cons_ne_nil _ _
  · exact List.cons_ne_nil _ _
  · split <;> exact List.cons_ne_nil _ _

theorem lines_cons {c : Char} {text line : List Char} {more : List (List Char)} (feed : c ≠ '\n')
    (ends : ∀ rest, c = '\r' → text ≠ '\n' :: rest) (found : lines text = line :: more) :
    lines (c :: text) = (c :: line) :: more := by
  rw [lines, found]
  · exact feed
  · exact ends

theorem lines_feed_append (text rest : List Char) :
    lines (text ++ '\n' :: rest) = lines (text ++ ['\n']) ++ lines rest := by
  fun_induction lines text with
  | case1 => rfl
  | case2 text ih => simp [lines, ih]
  | case3 text ih => simp [lines, ih]
  | case4 c text feed ends line more found ih =>
      have some : text ≠ [] := by
        rintro rfl
        cases found
      have apart : ∀ behind rest, c = '\r' → text ++ behind ≠ '\n' :: rest := by
        intro behind rest same whole
        obtain ⟨first, others, rfl⟩ := List.exists_cons_of_ne_nil some
        obtain ⟨rfl, _⟩ := List.cons.inj whole
        exact ends others same rfl
      obtain ⟨start, others, split⟩ := List.exists_cons_of_ne_nil
        (lines_ne_nil (List.append_ne_nil_of_left_ne_nil some ['\n']))
      rw [split] at ih
      rw [List.cons_append, List.cons_append, lines_cons feed (apart _) ih,
        lines_cons feed (apart _) split]
      rfl
  | case5 c text feed ends found ih =>
      have none : text = [] := by
        by_contra some
        exact lines_ne_nil some found
      subst none
      by_cases same : c = '\r'
      · subst same
        rfl
      · rw [List.singleton_append, List.singleton_append,
          lines_cons feed (fun _ other => absurd other same) (lines.eq_2 rest),
          lines_cons feed (fun _ other => absurd other same) (lines.eq_2 [])]
        rfl

end Text

open Text (IsPiece IsBlockLine IsBlock)

/-! ### Names and types -/

theorem Lexeme.isPiece_of_isName {name : String} (named : isName name) :
    IsPiece name.toList ∧ name.toList ≠ [] := by
  unfold isName at named
  split at named
  · cases named
  · next c rest spelled =>
      rw [Bool.and_eq_true, Bool.and_eq_true, List.all_eq_true] at named
      rw [spelled]
      have parts : ∀ d ∈ c :: rest, isWordStart d ∨ isWordPart d :=
        List.forall_mem_cons.2 ⟨.inl named.1.1, fun d mem => .inr (named.1.2 d mem)⟩
      refine ⟨.of_notMem ?_ ?_, List.cons_ne_nil _ _⟩
      · exact fun mem => absurd (parts _ mem) (by decide)
      · exact fun mem => absurd (parts _ mem) (by decide)

theorem BaseType.oneLine_of_isBuiltin {base : BaseType} (builtin : base.isBuiltin) :
    '\n' ∉ base.render.toList := by
  cases base with
  | void | int | double => decide
  | named | tagged | generic => cases builtin

/-! ### Declarations -/

namespace Variable

theorem isBlock_render {declared : Variable} {nested : Bool} (bindable : declared.IsBindable nested) :
    IsBlock declared.render.toList [declared.render.toList] := by
  obtain ⟨names, some, areNames, same⟩ := bindable.named
  have type := CType.oneLine_render (BaseType.oneLine_of_isBuiltin bindable.builtin)
  have name : IsPiece declared.name.toList ∧ declared.name.toList ≠ [] := by
    rw [same, String.toList_intercalate]
    constructor
    · refine .intercalate (.of_notMem (by decide) (by decide)) ?_
      intro part mem
      obtain ⟨word, among, rfl⟩ := List.mem_map.1 mem
      exact (Lexeme.isPiece_of_isName (areNames word among)).1
    · obtain ⟨first, rest, rfl⟩ := List.exists_cons_of_ne_nil some
      obtain ⟨_, filled⟩ := Lexeme.isPiece_of_isName (areNames first (List.mem_cons_self ..))
      cases rest with
      | nil => rwa [List.map_singleton, List.intercalate_singleton]
      | cons second rest =>
          rw [List.map_cons, List.map_cons, List.intercalate_cons_cons, List.append_assoc]
          exact List.append_ne_nil_of_left_ne_nil filled _
  have line : declared.render.toList = ' ' :: ' ' :: ((if declared.nested then "" else "cdef ").toList ++
      declared.type.render.toList ++ [' '] ++ declared.name.toList) := by
    simp [render, indent]
  refine .singleton ?_
  rw [line]
  refine .indent (.of_append ?_ name.1 name.2)
  have keyword : '\n' ∉ (if declared.nested then "" else "cdef ").toList := by
    split <;> decide
  simp [keyword, type]

end Variable

namespace Function

theorem oneLine_of_isArgument {parameter : Parameter}
    (argument : parameter.asVariable.IsArgument) : '\n' ∉ parameter.name.toList := by
  obtain none | named := argument.named
  · rw [show parameter.name = "" from none]
    decide
  · exact (Lexeme.isPiece_of_isName named).1.oneLine

theorem oneLine_render {parameter : Parameter} (base : '\n' ∉ parameter.type.base.render.toList)
    (name : '\n' ∉ parameter.name.toList) : '\n' ∉ parameter.render.toList := by
  rw [Parameter.render, String.toList_ofList]
  refine fun mem => absurd ((Text.isInfix_trim _).subset mem) ?_
  simp [CType.oneLine_render base, name]

theorem isPiece_callPieces {start last : String} {parameters : List String}
    (starts : '\n' ∉ start.toList) (ends : IsPiece last.toList) (filled : last.toList ≠ [])
    (oneLine : ∀ parameter ∈ parameters, '\n' ∉ parameter.toList) :
    ∀ piece ∈ callPieces start last parameters, IsPiece piece.toList := by
  induction parameters generalizing start with
  | nil =>
      refine List.forall_mem_singleton.2 ?_
      rw [String.toList_append]
      exact .of_append starts ends filled
  | cons parameter more ih =>
      obtain ⟨here, there⟩ := List.forall_mem_cons.1 oneLine
      have front : '\n' ∉ (start ++ parameter).toList := by
        rw [String.toList_append, List.mem_append, not_or]
        exact ⟨starts, here⟩
      cases more with
      | nil =>
          refine List.forall_mem_singleton.2 ?_
          rw [String.toList_append]
          exact .of_append front ends filled
      | cons next more =>
          rw [callPieces]
          · refine List.forall_mem_cons.2 ⟨?_, ih (by decide) there⟩
            rw [String.toList_append]
            exact .of_append front (.of_notMem (by decide) (by decide)) (by decide)
          · simp

theorem callPieces_ne_nil (start last : String) (parameters : List String) :
    callPieces start last parameters ≠ [] := by
  unfold callPieces
  split <;> exact List.cons_ne_nil _ _

theorem pieces_ne_nil (declared : Function) : declared.pieces ≠ [] := by
  unfold pieces
  exact List.append_ne_nil_of_right_ne_nil _ (callPieces_ne_nil _ _ _)

theorem isPiece_of_mem_pieces {declared : Function} (name : '\n' ∉ declared.name.toList)
    (parameters : ∀ parameter ∈ declared.parameters, '\n' ∉ parameter.render.toList) :
    ∀ piece ∈ declared.pieces, IsPiece piece.toList := by
  intro piece mem
  unfold pieces at mem
  rw [List.mem_append, List.mem_append] at mem
  obtain (keyword | type) | call := mem
  · split at keyword
    · cases keyword
    · cases List.mem_singleton.1 keyword
      exact .of_notMem (by decide) (by decide)
  · obtain ⟨word, among, rfl⟩ := List.mem_map.1 type
    rw [String.toList_ofList]
    have ink := fun c => @Text.not_isBlank_of_mem_words _ word c among
    exact .of_notMem (fun mem => absurd (ink _ mem) (by decide))
      fun mem => absurd (ink _ mem) (by decide)
  · refine isPiece_callPieces ?_ ?_ ?_ ?_ piece call
    · simp [name]
    · split <;> exact .of_notMem (by decide) (by decide)
    · split <;> decide
    · intro text mem
      obtain ⟨parameter, among, rfl⟩ := List.mem_map.1 mem
      exact parameters parameter among

theorem isBlock_of_oneLine {declared : Function} (name : '\n' ∉ declared.name.toList)
    (parameters : ∀ parameter ∈ declared.parameters, '\n' ∉ parameter.render.toList) :
    IsBlock declared.render.toList (declared.renderLines.map String.toList) := by
  have within := isPiece_of_mem_pieces name parameters
  obtain ⟨first, rest, whole⟩ := List.exists_cons_of_ne_nil declared.pieces_ne_nil
  rw [whole] at within
  obtain ⟨here, there⟩ := List.forall_mem_cons.1 within
  have lines : declared.renderLines = Text.wrapBehind lineWidth "    " ("  " ++ first) rest := by
    rw [renderLines, whole]
    rfl
  have start : IsBlockLine ("  " ++ first).toList := by
    rw [String.toList_append]
    exact .indent here
  refine ⟨?_, ?_, ?_⟩
  · rw [lines, ne_eq, List.map_eq_nil_iff]
    exact Text.wrapBehind_ne_nil
  · rw [render, String.toList_intercalate]
    rfl
  · rw [lines]
    intro line mem
    obtain ⟨wrapped, among, rfl⟩ := List.mem_map.1 mem
    exact Text.blockLines_wrapBehind start there wrapped among

theorem isBlock_render {declared : Function} {owner : Option String}
    (bindable : declared.IsBindable owner) (oneLine : declared.IsOneLine) :
    IsBlock declared.render.toList (declared.renderLines.map String.toList) :=
  isBlock_of_oneLine oneLine.name fun parameter among =>
    oneLine_render (oneLine.parameters parameter among)
      (oneLine_of_isArgument (bindable.arguments _ (List.mem_map_of_mem among)))

end Function

theorem Member.exists_isBlock {member : Member} {owner : String} (bindable : member.IsBindable owner)
    (oneLine : member.IsOneLine) : ∃ lines, IsBlock member.render.toList lines := by
  cases member with
  | ofVariable declared => exact ⟨_, Variable.isBlock_render bindable⟩
  | ofFunction declared => exact ⟨_, Function.isBlock_render bindable oneLine⟩

namespace Class

theorem exists_isBlock {declared : Class}
    (bindable : ∀ member ∈ declared.members, member.IsBindable declared.name)
    (name : '\n' ∉ declared.name.toList)
    (oneLine : ∀ member ∈ declared.members, member.IsOneLine) :
    ∃ lines, IsBlock declared.render.toList lines := by
  have head : IsBlockLine ("  cdef cppclass " ++ declared.name ++ ":").toList := by
    have inside : IsPiece ("cdef cppclass ".toList ++ declared.name.toList ++ ":".toList) :=
      .of_append (by simp [name]) (.of_notMem (by decide) (by decide)) (by decide)
    rw [String.toList_append, String.toList_append]
    exact .indent inside
  have block : ∀ text (more : List (List Char)), (∀ line ∈ more, IsBlockLine line) →
      text = ("  cdef cppclass " ++ declared.name ++ ":").toList ++ more.flatMap ('\n' :: ·) →
      ∃ lines, IsBlock text lines := fun _ more each same =>
    ⟨_ :: more, List.cons_ne_nil _ _, same.trans (Text.intercalate_feed _ _).symm,
      List.forall_mem_cons.2 ⟨head, each⟩⟩
  unfold render
  dsimp only
  split
  · have pass : IsBlockLine "    pass".toList :=
      @IsBlockLine.of_notMem "  pass".toList (by decide) (by decide)
    refine block _ ["    pass".toList] (List.forall_mem_singleton.2 pass) ?_
    simp [indent]
  · have inner : ∀ line ∈ declared.members.flatMap fun member => Text.lines member.render.toList,
        IsBlockLine line := by
      intro line mem
      obtain ⟨member, among, inside⟩ := List.mem_flatMap.1 mem
      obtain ⟨lines, block⟩ := Member.exists_isBlock (bindable member among) (oneLine member among)
      exact block.each line (block.lines_eq ▸ inside)
    generalize (declared.members.flatMap fun member => Text.lines member.render.toList) = lines
      at inner ⊢
    refine block _ (lines.map fun line => ' ' :: ' ' :: line) ?_ ?_
    · intro line mem
      obtain ⟨line, among, rfl⟩ := List.mem_map.1 mem
      exact .indent (inner line among).toIsPiece
    · simp [indent, String.toList_join, List.flatMap_map]

end Class

theorem Declaration.exists_isBlock {declaration : Declaration} {owner : Option String}
    (bindable : declaration.IsBindable owner) (oneLine : declaration.IsOneLine) :
    ∃ lines, IsBlock declaration.render.toList lines := by
  cases declaration with
  | ofVariable declared => exact ⟨_, Variable.isBlock_render bindable⟩
  | ofFunction declared => exact ⟨_, Function.isBlock_render bindable oneLine⟩
  | ofClass declared => exact Class.exists_isBlock bindable oneLine.1 oneLine.2

/-! ### Stubs -/

/-- The head of a block, which stands in the first column. -/
def Text.isBlockHead (line : List Char) : Bool :=
  "cdef extern from".toList.isPrefixOf line

/-- The last head among some lines, and the lines behind it. -/
structure Text.IsLastBlock (lines : List (List Char)) (head : List Char) (body : List (List Char)) :
    Prop where
  behind : head :: body <:+ lines
  isHead : isBlockHead head
  last : ∀ line ∈ body, ¬isBlockHead line

namespace Header

theorem feed_notMem_namespaceName {raw : List Char} {header : Header} {name : String}
    (found : (ofText raw).result = .ok header) (named : header.namespaceName = some name) :
    '\n' ∉ name.toList := by
  obtain ⟨code, body, _, inside, _⟩ := ofText_eq_ok_iff.1 found
  rw [named] at inside
  obtain ⟨none, _⟩ | ⟨_, _, _, _, _, start, _, called, _⟩ := extractNamespace_cases inside
  · cases none
  · cases called
    rw [namespaceName?] at start
    split at start
    · cases start
      rw [String.toList_ofList]
      exact fun mem => absurd (List.mem_takeWhile_imp mem) (by decide)
    · cases start

end Header

namespace Stub

variable {stub : Stub}

theorem exists_headLine (header : '\n' ∉ stub.header.text)
    (name : ∀ name, stub.namespaceName = some name → '\n' ∉ name.toList) :
    ∃ line, stub.blockHead.toList = line ++ ['\n'] ∧ IsPiece line ∧ Text.isBlockHead line := by
  have whole : ∀ within : List Char, '\n' ∉ within →
      IsPiece ("cdef extern from".toList ++ within ++ [':']) ∧
        Text.isBlockHead ("cdef extern from".toList ++ within ++ [':']) := by
    intro within oneLine
    constructor
    · exact .of_append (by simp [oneLine]) (.of_notMem (by decide) (by decide)) (by decide)
    · rw [Text.isBlockHead, List.isPrefixOf_iff_prefix, List.append_assoc]
      exact List.prefix_append _ _
  have origin : '\n' ∉ " r\"".toList ++ stub.header.text ++ ['"'] := by simp [header]
  cases named : stub.namespaceName with
  | none =>
      refine ⟨_, ?_, whole _ origin⟩
      simp [blockHead, named, Path.toString]
  | some space =>
      have oneLine := name space named
      refine ⟨_, ?_, whole (" r\"".toList ++ stub.header.text ++ ['"'] ++
        " namespace \"".toList ++ space.toList ++ ['"']) ?_⟩
      · simp [blockHead, named, Path.toString]
      · simp [header, oneLine]

theorem lines_render {line : List Char} (same : stub.blockHead.toList = line ++ ['\n'])
    (piece : IsPiece line) :
    line :: Text.lines stub.block.toList <:+ Text.lines stub.render.toList := by
  have whole : stub.render.toList =
      (stub.head ++ stub.imports ++ stub.sourceBlock ++ "\n" ++ banner "End of Source Files" ++
        "\n\n# " ++ rule ++ "--\n# C++ Header files + exported definitions\n# " ++ rule ++
        "--\n").toList ++ '\n' :: (line ++ '\n' :: stub.block.toList) := by
    simp [render, middle, same]
  rw [whole, Text.lines_feed_append, piece.lines_eq]
  exact List.suffix_append _ _

theorem lines_declarations {declarations : List Declaration}
    (blocks : ∀ declaration ∈ declarations, ∃ lines, IsBlock declaration.render.toList lines) :
    Text.lines (String.join
        (declarations.map fun declaration => declaration.render ++ "\n\n")).toList =
      declarations.flatMap fun declaration => Text.lines declaration.render.toList ++ [[]] := by
  rw [String.toList_join, List.flatMap_map]
  induction declarations with
  | nil => rfl
  | cons first more ih =>
      obtain ⟨here, there⟩ := List.forall_mem_cons.1 blocks
      obtain ⟨lines, block⟩ := here
      have split : (first.render ++ "\n\n").toList =
          first.render.toList ++ '\n' :: ['\n'] := by
        rw [String.toList_append]
        rfl
      rw [List.flatMap_cons, List.flatMap_cons, split, List.append_assoc, List.cons_append,
        block.lines_append, block.lines_eq, List.singleton_append, Text.lines, ih there,
        List.append_assoc, List.singleton_append]

/-- What stands in a block: lines that belong to it, among them those of the declarations that it
shows, and nothing else. -/
structure IsBody (stub : Stub) (body : List (List Char)) : Prop where
  inside : ∀ line ∈ body, line = [] ∨ [' ', ' '] <+: line
  some : ∃ line ∈ body, line ≠ []
  shown : stub.showContent → body.filter (· ≠ []) =
    if stub.declarations = [] then ["  pass".toList]
    else stub.declarations.flatMap fun declaration => Text.lines declaration.render.toList

theorem isBody_pass (hides : stub.showContent → stub.declarations = []) :
    stub.IsBody ["  pass".toList] where
  inside := List.forall_mem_singleton.2 (.inr (by decide))
  some := ⟨_, List.mem_singleton_self _, by decide⟩
  shown shows := by
    rw [if_pos (hides shows)]
    rfl

theorem isBody_declarations (some : stub.declarations ≠ [])
    (blocks : ∀ declaration ∈ stub.declarations,
      ∃ lines, IsBlock declaration.render.toList lines) :
    stub.IsBody (stub.declarations.flatMap fun declaration =>
      Text.lines declaration.render.toList ++ [[]]) := by
  have each : ∀ declaration ∈ stub.declarations,
      Text.lines declaration.render.toList ≠ [] ∧
        ∀ line ∈ Text.lines declaration.render.toList, IsBlockLine line := by
    intro declaration mem
    obtain ⟨lines, block⟩ := blocks declaration mem
    rw [block.lines_eq]
    exact ⟨block.some, block.each⟩
  refine ⟨?_, ?_, fun _ => ?_⟩
  · intro line mem
    obtain ⟨declaration, among, here⟩ := List.mem_flatMap.1 mem
    obtain shown | blank := List.mem_append.1 here
    · exact .inr ((each declaration among).2 line shown).indented
    · exact .inl (List.mem_singleton.1 blank)
  · obtain ⟨first, more, whole⟩ := List.exists_cons_of_ne_nil some
    have among : first ∈ stub.declarations := whole ▸ List.mem_cons_self ..
    obtain ⟨line, behind, lines⟩ := List.exists_cons_of_ne_nil (each first among).1
    have shown : line ∈ Text.lines first.render.toList := lines ▸ List.mem_cons_self ..
    exact ⟨line, List.mem_flatMap.2 ⟨first, among, List.mem_append_left _ shown⟩,
      ((each first among).2 line shown).ne_nil⟩
  · rw [if_neg some, List.filter_flatMap]
    refine List.flatMap_congr fun declaration mem => ?_
    have kept : ∀ line ∈ Text.lines declaration.render.toList, decide (line ≠ []) = true :=
      fun line shown => decide_eq_true ((each declaration mem).2 line shown).ne_nil
    rw [List.filter_append, List.filter_eq_self.2 kept]
    exact List.append_nil _

theorem isBody_block
    (blocks : ∀ declaration ∈ stub.declarations,
      ∃ lines, IsBlock declaration.render.toList lines) :
    stub.IsBody (Text.lines stub.block.toList) ∧
      ∀ line ∈ Text.lines stub.block.toList, ¬Text.isBlockHead line := by
  have body : stub.IsBody (Text.lines stub.block.toList) := by
    unfold block
    split
    · next shown =>
        rw [Bool.and_eq_true, Bool.not_eq_true', List.isEmpty_eq_false_iff] at shown
        rw [lines_declarations blocks]
        exact isBody_declarations shown.2 blocks
    · next hidden =>
        refine isBody_pass fun shows => ?_
        simpa [shows] using hidden
  refine ⟨body, fun line mem head => ?_⟩
  obtain rfl | indented := body.inside line mem
  · cases head
  · obtain ⟨behind, rfl⟩ := indented
    cases head

/-- The stub of a header ends in one block, whose lines are those of the declarations. -/
theorem render_isLastBlock {raw : List Char} {parsed : Header} {header : Path}
    (source : Option Path) (modules : List String) (showContent : Bool)
    (found : (Header.ofText raw).result = .ok parsed) (oneLine : '\n' ∉ header.text) :
    ∃ head body, Text.IsLastBlock (Text.lines (render ⟨header, source, modules,
        parsed.namespaceName, showContent, parsed.declarations⟩).toList) head body ∧
      IsBody ⟨header, source, modules, parsed.namespaceName, showContent, parsed.declarations⟩
        body := by
  let stub : Stub :=
    ⟨header, source, modules, parsed.namespaceName, showContent, parsed.declarations⟩
  have blocks : ∀ declaration ∈ stub.declarations,
      ∃ lines, IsBlock declaration.render.toList lines := fun declaration mem =>
    Declaration.exists_isBlock (Header.isBindable_of_ofText found declaration mem)
      (Header.oneLine_of_ofText found declaration mem)
  obtain ⟨line, same, piece, isHead⟩ := @exists_headLine stub oneLine
    fun name named => Header.feed_notMem_namespaceName found named
  obtain ⟨body, last⟩ := isBody_block blocks
  exact ⟨line, _, ⟨lines_render same piece, isHead, last⟩, body⟩

theorem render_isLastBlock_variable : ∃ parsed declared,
    (Header.ofText "// n\nint n;".toList).result = .ok parsed ∧
    parsed.declarations = [.ofVariable declared] ∧
    '\n' ∉ (Path.ofString "src/a.hpp").text ∧
    ∃ head body, Text.IsLastBlock (Text.lines (render ⟨Path.ofString "src/a.hpp", none, [],
        parsed.namespaceName, true, parsed.declarations⟩).toList) head body ∧
      IsBody ⟨Path.ofString "src/a.hpp", none, [], parsed.namespaceName, true,
        parsed.declarations⟩ body := by
  let declared : Variable := ⟨⟨.int, []⟩, "n", false⟩
  let tokens : List Token := [⟨.keyword .int, 0, [' ']⟩, ⟨.identifier "n", 4, []⟩,
    ⟨.punctuation .semicolon, 5, []⟩]
  have lexes : Lexed.ofText "int n;".toList = .ok ⟨[], tokens⟩ := by cbv
  have here : Item.readPlain .top false .variableList tokens =
      .ok (.emitted (.ofVariable declared), []) := by rfl
  have reads : Item.ReadsAll .top false tokens [.ofVariable declared] [] :=
    .cons (.plain (by rfl) rfl here) .nil
  have normal : Header.normalize "// n\nint n;".toList = .ok "int n;".toList := by
    have lines : Text.trim ((Header.codeLines "// n\nint n;".toList).flatMap (' ' :: ·)) =
        "int n;".toList := by cbv
    rw [Header.normalize_eq, lines]
    exact Header.withoutComments_of_cut? (by cbv)
  have outside : Header.extractNamespace "int n;".toList = .ok (none, "int n;".toList) := by cbv
  have found := (@Header.ofText_eq_ok_iff _ ⟨none, _, _⟩).2 ⟨_, _, normal, outside,
    Parser.declarationsOf_eq_ok_iff.2 ⟨_, lexes, reads⟩⟩
  have oneLine : '\n' ∉ (Path.ofString "src/a.hpp").text := by decide
  exact ⟨_, declared, found, rfl, oneLine, render_isLastBlock none [] true found oneLine⟩

end Stub

end PxdStub
