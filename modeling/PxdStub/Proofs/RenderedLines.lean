import PxdStub.Proofs.ExternBlock
import PxdStub.Proofs.WordWrap

/-!
The lines of rendered declarations. Where the lines of a function break has no say in what they say:
without indents and with spaces in place of line ends they are one signature, and no parameter is
broken. A class has its members' lines below its own, one level deeper.
-/

namespace PxdStub

/-- The words of a text, with a space behind each of them. -/
def Text.spacedWords (text : String) : String :=
  String.join ((words text.toList).map fun word => String.ofList word ++ " ")

/-! ### Strings of declarations -/

def BaseType.strings : BaseType → List String
  | named name | tagged name => [name]
  | generic name arguments => name :: arguments
  | _ => []

def FunctionKind.strings : FunctionKind → List String
  | returning type => type.base.strings
  | _ => []

def Variable.strings (declared : Variable) : List String :=
  declared.type.base.strings ++ [declared.name]

def Function.strings (declared : Function) : List String :=
  declared.kind.strings ++ declared.name :: declared.arguments.flatMap Variable.strings

def Member.strings : Member → List String
  | ofVariable declared => declared.strings
  | ofFunction declared => declared.strings

/-- None of the strings has a line feed in it. -/
def IsUnbroken (strings : List String) : Prop :=
  ∀ text ∈ strings, '\n' ∉ text.toList

instance (strings : List String) : Decidable (IsUnbroken strings) :=
  inferInstanceAs (Decidable (∀ text ∈ strings, '\n' ∉ text.toList))

theorem BaseType.oneLine_render {base : BaseType} (unbroken : IsUnbroken base.strings) :
    '\n' ∉ base.render.toList := by
  cases base with
  | void | int | double => decide
  | named name | tagged name => exact unbroken name (List.mem_singleton_self _)
  | generic name arguments =>
      obtain ⟨here, there⟩ := List.forall_mem_cons.1 unbroken
      have inside : '\n' ∉ (", ".intercalate arguments).toList := by
        rw [String.toList_intercalate]
        refine List.notMem_intercalate (by decide) ?_
        intro part mem
        obtain ⟨argument, among, rfl⟩ := List.mem_map.1 mem
        exact there argument among
      simp [render, here, inside, -String.toList_intercalate]

namespace Variable

variable {declared : Variable}

theorem oneLine_of_unbroken (unbroken : IsUnbroken declared.strings) :
    '\n' ∉ declared.type.base.render.toList ∧ '\n' ∉ declared.name.toList := by
  obtain ⟨type, name⟩ := List.forall_mem_append.1 unbroken
  exact ⟨BaseType.oneLine_render type, name _ (List.mem_singleton_self _)⟩

theorem lines_render (unbroken : IsUnbroken declared.strings) :
    Text.lines declared.render.toList = [declared.render.toList] := by
  obtain ⟨base, name⟩ := oneLine_of_unbroken unbroken
  have keyword : '\n' ∉ (if declared.nested then "" else "cdef ").toList := by
    split <;> decide
  refine Text.lines_of_not_mem ?_ ?_
  · simp [render, indent, keyword, CType.oneLine_render base, name]
  · simp [render, indent]

end Variable

namespace Function

/-! ### Signatures -/

/-- The words in front of the name of a function. -/
def front (declared : Function) : List String :=
  (if declared.nested then [] else ["cdef"]) ++
    (Text.words declared.kind.render.toList).map String.ofList

/-- A function up to its parameters. White space in its type does not count. -/
def opening (declared : Function) : String :=
  (if declared.nested then "" else "cdef ") ++ Text.spacedWords declared.kind.render ++
    declared.name ++ "("

/-- What stands behind the parameters of a function. -/
def ending (declared : Function) : String :=
  if declared.kind = .constructor then ") except +" else ")"

/-- A function on a line of its own. -/
def signature (declared : Function) : String :=
  declared.opening ++ ", ".intercalate (declared.parameters.map Parameter.render) ++
    declared.ending

variable {declared : Function}

theorem pieces_eq (declared : Function) : declared.pieces = declared.front ++
    callPieces (declared.name ++ "(") declared.ending
      (declared.parameters.map Parameter.render) := rfl

theorem intercalate_append (words : List String) {more : List String} (some : more ≠ []) :
    " ".intercalate (words ++ more) =
      String.join (words.map (· ++ " ")) ++ " ".intercalate more := by
  induction words with
  | nil => simp
  | cons word rest ih =>
      rw [List.cons_append, String.intercalate_cons_of_ne_nil (by simp [some]), ih, List.map_cons,
        String.join_cons, String.append_assoc, String.append_assoc, String.append_assoc]

theorem opening_eq (declared : Function) : declared.opening =
    String.join (declared.front.map (· ++ " ")) ++ (declared.name ++ "(") := by
  rw [opening, front, List.map_append, List.map_map, String.append_assoc]
  cases declared.nested with
  | true => simp [Text.spacedWords, Function.comp_def]
  | false => simp [Text.spacedWords, Function.comp_def, String.append_assoc]

/-- Parts of a call with spaces between them are the parameters with commas between them. -/
theorem intercalate_callPieces (start last : String) (parameters : List String) :
    " ".intercalate (callPieces start last parameters) =
      start ++ ", ".intercalate parameters ++ last := by
  induction parameters generalizing start with
  | nil => simp [callPieces]
  | cons parameter more ih =>
      cases more with
      | nil => simp [callPieces]
      | cons next more =>
          rw [callPieces, String.intercalate_cons_of_ne_nil (callPieces_ne_nil _ _ _), ih,
            String.intercalate_cons_cons]
          · simp [String.append_assoc]
          · simp

/-- A call that is cut behind a comma. -/
theorem callPieces_append (start last : String) {before after : List String} (some : before ≠ [])
    (more : after ≠ []) : callPieces start last (before ++ after) =
      callPieces start "," before ++ callPieces "" last after := by
  induction before generalizing start with
  | nil => exact absurd rfl some
  | cons parameter before ih =>
      cases before with
      | nil =>
          obtain ⟨next, rest, rfl⟩ := List.exists_cons_of_ne_nil more
          rfl
      | cons next before =>
          have later := ih "" (List.cons_ne_nil _ _)
          exact congrArg ((start ++ parameter ++ ",") :: ·) later

theorem length_callPieces (start last : String) (parameters : List String) :
    (callPieces start last parameters).length = max 1 parameters.length := by
  induction parameters generalizing start with
  | nil => rfl
  | cons parameter more ih =>
      cases more with
      | nil => rfl
      | cons next more =>
          rw [callPieces, List.length_cons, ih]
          · simp
          · simp

/-! ### Lines of functions -/

/-- Where a function may be broken: in front of its name, or behind the comma of a parameter. -/
inductive IsBreak (declared : Function) : List String → List String → Prop
  | front {above below} : above <+: declared.front → IsBreak declared above below
  | parameters {above below before after} : declared.parameters = before ++ after →
      before ≠ [] → after ≠ [] →
      " ".intercalate above =
        declared.opening ++ ", ".intercalate (before.map Parameter.render) ++ "," →
      " ".intercalate below = ", ".intercalate (after.map Parameter.render) ++ declared.ending →
      IsBreak declared above below

/-- Lines that hold groups of the pieces of a function and are its signature without the breaks. -/
structure IsLayout (declared : Function) (lines : List String) (groups : List (List String)) :
    Prop where
  shown : Text.linesOf "  " "    " groups = lines
  pieces : groups.flatten = declared.pieces
  unbroken : " ".intercalate (groups.map fun group => " ".intercalate group) = declared.signature
  breaks : ∀ above below, groups = above ++ below → above ≠ [] → below ≠ [] →
    declared.IsBreak above.flatten below.flatten
  narrow : ∀ placed ∈ lines.zip groups, placed.1.utf8ByteSize ≤ 80 ∨ ∃ piece, placed.2 = [piece]

theorem intercalate_front (declared : Function) (last : String) (parameters : List String) :
    " ".intercalate (declared.front ++ callPieces (declared.name ++ "(") last parameters) =
      declared.opening ++ ", ".intercalate parameters ++ last := by
  rw [intercalate_append _ (callPieces_ne_nil _ _ _), intercalate_callPieces, opening_eq]
  simp only [String.append_assoc]

theorem isBreak_of_pieces {above below : List String} (whole : above ++ below = declared.pieces)
    (more : below ≠ []) : declared.IsBreak above below := by
  rw [pieces_eq] at whole
  obtain ⟨rest, start, -⟩ | ⟨call, rfl, cut⟩ := List.append_eq_append_iff.1 whole
  · exact .front ⟨rest, start.symm⟩
  · by_cases none : call = []
    · rw [none, List.append_nil]
      exact .front (List.prefix_refl _)
    · -- The break is in the call, behind as many parameters as there are pieces in front of it.
      have size := congrArg List.length cut
      rw [length_callPieces, List.length_map, List.length_append] at size
      have here := List.length_pos_iff.2 none
      have there := List.length_pos_iff.2 more
      obtain ⟨before, after, split, count⟩ : ∃ before after,
          declared.parameters = before ++ after ∧ before.length = call.length := by
        refine ⟨_, _, (List.take_append_drop call.length declared.parameters).symm, ?_⟩
        rw [List.length_take]
        omega
      rw [split, List.length_append] at size
      have some : before ≠ [] := List.ne_nil_of_length_pos (by omega)
      have others : after ≠ [] := List.ne_nil_of_length_pos (by omega)
      rw [split, List.map_append, callPieces_append _ _ (by simpa using some)
        (by simpa using others)] at cut
      obtain ⟨rfl, rfl⟩ := List.append_inj cut (by
        rw [length_callPieces, List.length_map]
        omega)
      refine .parameters split some others (intercalate_front _ _ _) ?_
      rw [intercalate_callPieces, String.empty_append]

theorem isLayout_renderLines (declared : Function) :
    ∃ groups, declared.IsLayout declared.renderLines groups := by
  obtain ⟨groups, wrap⟩ := Text.exists_isWrap lineWidth indent continuationIndent declared.pieces
  refine ⟨groups, wrap.shown, wrap.whole, ?_, ?_, ?_⟩
  · rw [Text.intercalate_groups wrap.filled, wrap.whole, pieces_eq, intercalate_front, signature]
  · rintro above below rfl _ more
    have whole := wrap.whole
    rw [List.flatten_append] at whole
    refine isBreak_of_pieces whole ?_
    obtain ⟨group, later, rfl⟩ := List.exists_cons_of_ne_nil more
    exact List.append_ne_nil_of_left_ne_nil (wrap.filled group (by simp)) _
  · intro placed mem
    by_cases several : 1 < placed.2.length
    · exact .inl (wrap.fits placed mem several)
    · obtain ⟨piece, rest, same⟩ :=
        List.exists_cons_of_ne_nil (wrap.filled placed.2 (List.of_mem_zip mem).2)
      rw [same, List.length_cons] at several
      have none : rest = [] := List.length_eq_zero_iff.1 (by omega)
      exact .inr ⟨piece, by rw [same, none]⟩

theorem lines_render (unbroken : IsUnbroken declared.strings) :
    Text.lines declared.render.toList = declared.renderLines.map String.toList := by
  obtain ⟨-, named⟩ := List.forall_mem_append.1 unbroken
  obtain ⟨name, arguments⟩ := List.forall_mem_cons.1 named
  refine (isBlock_of_oneLine name fun parameter mem => ?_).lines_eq
  have inside : IsUnbroken parameter.asVariable.strings := fun text among =>
    arguments text (List.mem_flatMap.2 ⟨_, List.mem_map_of_mem mem, among⟩)
  obtain ⟨base, called⟩ := Variable.oneLine_of_unbroken inside
  exact oneLine_render base called

end Function

/-! ### Classes -/

/-- The lines of a member outside its class. -/
def Member.renderLines : Member → List String
  | ofVariable declared => [declared.render]
  | ofFunction declared => declared.renderLines

theorem Member.lines_render {member : Member} (unbroken : IsUnbroken member.strings) :
    Text.lines member.render.toList = member.renderLines.map String.toList := by
  cases member with
  | ofVariable declared => exact Variable.lines_render unbroken
  | ofFunction declared => exact Function.lines_render unbroken

namespace Class

/-- The lines of a class: its own, and those of its members one level deeper. -/
def layout (definition : Class) : List String :=
  ("  cdef cppclass " ++ definition.name ++ ":") ::
    if definition.members = [] then ["    pass"]
    else definition.members.flatMap fun member => member.renderLines.map ("  " ++ ·)

theorem join_lines (line : String) (more : List String) :
    "\n".intercalate (line :: more) = line ++ String.join (more.map ("\n" ++ ·)) := by
  induction more generalizing line with
  | nil => simp
  | cons next more ih =>
      rw [String.intercalate_cons_cons, ih, List.map_cons, String.join_cons, String.append_assoc,
        String.append_assoc]

theorem render_eq_layout {definition : Class}
    (unbroken : ∀ member ∈ definition.members, IsUnbroken member.strings) :
    definition.render = "\n".intercalate definition.layout := by
  rw [layout, join_lines, render]
  dsimp only
  by_cases none : definition.members = []
  · rw [none]
    simp [indent, String.append_assoc]
  · have lines : (definition.members.flatMap fun member => Text.lines member.render.toList) =
        definition.members.flatMap fun member => member.renderLines.map String.toList :=
      List.flatMap_congr fun member mem => Member.lines_render (unbroken member mem)
    rw [if_neg none, if_neg (by simpa using none), lines]
    have head : indent ++ "cdef cppclass " ++ definition.name ++ ":" =
        "  cdef cppclass " ++ definition.name ++ ":" := by
      simp [indent, String.append_assoc]
    rw [head]
    simp only [indent, List.map_flatMap, List.map_map, Function.comp_def, String.ofList_toList,
      String.append_assoc]

end Class

/-- The lines of a function are its signature however it is broken, and the lines of a class are
its members' lines. -/
theorem Declaration.render_layout :
    (∀ declared : Function, IsUnbroken declared.strings →
      Text.lines declared.render.toList = declared.renderLines.map String.toList ∧
        ∃ groups, declared.IsLayout declared.renderLines groups) ∧
    ∀ definition : Class, (∀ member ∈ definition.members, IsUnbroken member.strings) →
      (∀ member ∈ definition.members,
        Text.lines member.render.toList = member.renderLines.map String.toList) ∧
      definition.render = "\n".intercalate definition.layout := by
  constructor
  · intro declared unbroken
    exact ⟨Function.lines_render unbroken, declared.isLayout_renderLines⟩
  · intro definition unbroken
    exact ⟨fun member mem => Member.lines_render (unbroken member mem),
      Class.render_eq_layout unbroken⟩

/-- A function too long for one line, and a class that has it as a member below a variable. -/
theorem Declaration.render_layout_integrate :
    let parameters : List Parameter :=
      ["lower_bound", "upper_bound", "tolerance", "initial_step", "scale"].map fun name =>
        ⟨⟨.double, []⟩, name⟩
    let integrate : Function := ⟨.returning ⟨.void, []⟩, "integrate", parameters, true⟩
    let order : Variable := ⟨⟨.int, []⟩, "order", true⟩
    let method : Class := ⟨"Method", [.ofVariable order, .ofFunction integrate]⟩
    (∃ groups, integrate.IsLayout
      ["  void integrate(double lower_bound, double upper_bound, double tolerance,",
        "    double initial_step, double scale)"] groups) ∧
    method.render = "\n".intercalate
      ["  cdef cppclass Method:", "    int order",
        "    void integrate(double lower_bound, double upper_bound, double tolerance,",
        "      double initial_step, double scale)"] := by
  intro parameters integrate order method
  have lines : integrate.renderLines =
      ["  void integrate(double lower_bound, double upper_bound, double tolerance,",
        "    double initial_step, double scale)"] := by
    decide +kernel
  have layout : method.layout =
      ["  cdef cppclass Method:", "    int order",
        "    void integrate(double lower_bound, double upper_bound, double tolerance,",
        "      double initial_step, double scale)"] := by
    decide +kernel
  rw [← lines, ← layout]
  exact ⟨(render_layout.1 integrate (by decide)).2, (render_layout.2 method (by decide)).2⟩

end PxdStub
