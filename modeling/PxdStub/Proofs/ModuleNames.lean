import PxdStub.Proofs.StubHomes

/-!
Module names. The components of an included path are run on a stack of names: a name is pushed, two
dots pop, and nothing else counts. So detours on the way to a header do not change its module.
-/

namespace PxdStub

/-- One step of the stack of names, whose top is at the end. -/
def Component.push (stack : Address) : Component → Address
  | .name text => stack ++ [text]
  | .up => stack.dropLast
  | .root | .here => stack

namespace Path

/-- The names that are left when the components of a path are run on a stack. -/
def stack (path : Path) : Address :=
  path.components.foldl Component.push []

/-! ### Collapsed paths -/

/-- Collapsing keeps its names above a root and two dots that have nothing left to pop; those names
are the stack. -/
theorem filterMap_collapseOnto {steps lower : List Component} (rootless : .root ∉ steps)
    (nameless : ∀ step ∈ lower, step.name? = none) (stack : Address) :
    (collapseOnto ((stack.map Component.name).reverse ++ lower) steps).filterMap Component.name? =
      steps.foldl Component.push stack := by
  induction steps generalizing stack lower with
  | nil =>
      have none : lower.reverse.filterMap Component.name? = [] := by
        rw [List.filterMap_eq_nil_iff]
        exact fun step inside => nameless step (List.mem_reverse.1 inside)
      simp [collapseOnto, none, List.filterMap_map, Function.comp_def, Component.name?]
  | cons step rest ih =>
      rw [List.mem_cons, not_or] at rootless
      cases step with
      | root => exact absurd rfl rootless.1
      | here => exact ih rootless.2 nameless stack
      | name text =>
          have behind := ih rootless.2 nameless (stack ++ [text])
          rw [List.map_append, List.reverse_append] at behind
          exact behind
      | up =>
          rcases List.eq_nil_or_concat stack with none | ⟨below, top, whole⟩
          · -- Two dots at the bottom stay there.
            have behind := @ih (.up :: lower) rootless.2 (by simpa [Component.name?] using nameless) []
            rw [none, List.foldl_cons, Component.push, List.dropLast_nil, ← behind]
            refine congrArg _ ?_
            cases lower with
            | nil => rfl
            | cons last lower =>
                cases last with
                | name text => exact absurd (nameless _ List.mem_cons_self) (by simp [Component.name?])
                | root | here | up => rfl
          · have behind := ih rootless.2 nameless below
            rw [whole, List.concat_eq_append, List.map_append, List.reverse_append, List.foldl_cons,
              Component.push, List.dropLast_concat, ← behind]
            rfl

theorem stack_eq (path : Path) :
    path.stack = (path.names.map Component.ofPart).foldl Component.push [] := by
  rw [stack, components_eq, List.foldl_append]
  rcases leading_cases (partsOf path.text) with first | first | first <;> rw [first] <;> rfl

theorem filterMap_collapse (path : Path) :
    path.collapse.filterMap Component.name? = path.stack := by
  have rootless : .root ∉ path.names.map Component.ofPart := by
    intro inside
    obtain ⟨part, _, same⟩ := List.mem_map.1 inside
    exact ofPart_ne_root part same
  rw [stack_eq, collapse, components_eq]
  rcases leading_cases (partsOf path.text) with first | first | first <;> rw [first]
  · exact @filterMap_collapseOnto _ [] rootless (by simp) []
  · exact @filterMap_collapseOnto _ [] rootless (by simp) []
  · exact @filterMap_collapseOnto _ [.root] rootless (by simp [Component.name?]) []

/-! ### Texts that another path can follow -/

/-- Behind the text a component can begin. -/
def IsOpen (front : List Char) : Prop :=
  front = [] ∨ front.getLast? = some '/'

theorem names_append {front : List Char} (opens : IsOpen front) (back : List Char) :
    names ⟨front ++ back⟩ = names ⟨front⟩ ++ names ⟨back⟩ := by
  rcases opens with rfl | closed
  · rfl
  · obtain ⟨before, rfl⟩ := List.getLast?_eq_some_iff.1 closed
    have closing : namesIn [[]] = [] := rfl
    rw [names, names, List.append_assoc, List.singleton_append, partsOf_append, partsOf_append,
      partsOf_nil, namesIn_append, namesIn_append, closing, List.append_nil]
    rfl

theorem fileName?_eq {path : Path} (some : path.names ≠ []) :
    path.fileName? = path.names.getLast?.bind fun part => (Component.ofPart part).name? := by
  rcases List.eq_nil_or_concat path.names with none | ⟨before, last, whole⟩
  · exact absurd none some
  · rw [fileName?, components_eq, whole, List.concat_eq_append, List.map_append,
      ← List.append_assoc, List.map_singleton, List.getLast?_concat, List.getLast?_concat]
    rfl

theorem fileName?_append {front back : List Char} (opens : IsOpen front)
    (some : names ⟨back⟩ ≠ []) : fileName? ⟨front ++ back⟩ = fileName? ⟨back⟩ := by
  have whole := names_append opens back
  rw [fileName?_eq some, fileName?_eq (by rw [whole]; exact List.append_ne_nil_of_right_ne_nil _ some),
    whole, List.getLast?_append_of_ne_nil _ some]

/-! ### Extensions -/

theorem stemOf_of_dotless {name : List Char} (dotless : '.' ∉ name) : stemOf name = name := by
  have passed : (name.reverse.dropWhile fun c => c != '.') = [] := by
    rw [List.dropWhile_eq_nil_iff]
    intro c inside
    rw [bne_iff_ne]
    rintro rfl
    exact dotless (List.mem_reverse.1 inside)
  simp [stemOf, passed]

/-- A name with an extension is its stem, a dot and the extension. -/
theorem eq_stem_extension {name : List Char} (some : extensionOf name ≠ []) :
    name = stemOf name ++ '.' :: extensionOf name ∧ stemOf name ≠ [] ∧
      '.' ∉ extensionOf name := by
  have shorter : stemOf name ≠ name := by
    intro same
    exact some (by rw [extensionOf, same, List.drop_eq_nil_of_le (Nat.le_succ _)])
  have dotted : '.' ∈ name := by
    by_contra dotless
    exact shorter (stemOf_of_dotless dotless)
  obtain ⟨behind, before, reversed, dotless⟩ :=
    List.eq_append_cons_of_mem (List.mem_reverse.2 dotted)
  have whole : name = before.reverse ++ '.' :: behind.reverse := by
    rw [← List.reverse_reverse name, reversed]
    simp
  have filled : before.reverse ≠ [] := by
    intro empty
    have passed : ∀ c ∈ behind, (c != '.') = true := by
      intro c inside
      rw [bne_iff_ne]
      rintro rfl
      exact dotless inside
    rw [List.reverse_eq_nil_iff] at empty
    refine shorter ?_
    simp [stemOf, reversed, List.dropWhile_append_of_pos passed, empty]
  have dotless' : '.' ∉ behind.reverse := by rwa [List.mem_reverse]
  rw [whole, stemOf_append filled dotless', extensionOf_append filled dotless']
  exact ⟨rfl, filled, dotless'⟩

/-- As many characters as the extension has are cut off the end of the text, which is not enough to
lose the last name. -/
theorem names_cut_ne_nil {path : Path} (some : path.names ≠ []) :
    names ⟨path.text.take
      (path.text.length - ((path.fileName?.map extensionOf).getD []).length)⟩ ≠ [] := by
  by_cases bare : (path.fileName?.map extensionOf).getD [] = []
  · rw [bare, List.length_nil, Nat.sub_zero, List.take_length]
    exact some
  · cases named : path.fileName? with
    | none => exact absurd (by rw [named]; rfl) bare
    | some name =>
        rw [named] at bare
        obtain ⟨whole, filled, dotless⟩ := eq_stem_extension bare
        have named' := named
        rw [whole] at named'
        obtain ⟨front, _, rest, ends, _, cut, _, _, idle⟩ := exists_partsOf_take named' dotless
        have long : ¬isIdle (stemOf name ++ '.' :: rest) := by
          cases stem : stemOf name with
          | nil => exact absurd stem filled
          | cons c more => simp [isIdle]
        rw [Option.map_some, Option.getD_some, @names_of_parts ⟨_⟩ _ _ _ cut long idle]
        exact List.concat_ne_nil _ _

theorem length_extension_le (path : Path) :
    ((path.fileName?.map extensionOf).getD []).length ≤ path.text.length := by
  cases named : path.fileName? with
  | none => exact Nat.zero_le _
  | some name =>
      obtain ⟨front, ends, whole, _, _⟩ := partsOf_of_fileName? named
      have bound : name.length ≤ path.text.length :=
        (infix_of_mem_partsOf (by rw [whole]; simp)).length_le
      rw [Option.map_some, Option.getD_some, extensionOf, List.length_drop]
      omega

/-- The stem stands in place of the last name; a stem that is a single dot leaves none. -/
theorem names_setExtension_nil {path : Path} {stem : List Char} (stemmed : path.fileStem? = some stem) :
    (path.setExtension []).names = path.names.dropLast ++ namesIn [stem] := by
  have slashless : '/' ∉ stem := by
    have inside := slash_notMem_fileStem path
    rwa [stemmed] at inside
  obtain ⟨name, named, _⟩ := Option.map_eq_some_iff.1 stemmed
  obtain ⟨before, names, _⟩ := names_of_fileName? named
  have kept := namesIn_dropIdleEnd path.parts
  rw [← path.anchors_parts.namesIn_eq, ← partsOf_text] at kept
  change _ = path.names at kept
  obtain none | ⟨front, last, left, filled⟩ := dropIdleEnd_cases path.parts
  · rw [none] at kept
    exact absurd (kept.trans names).symm (List.concat_ne_nil name before)
  · have within : front ++ [last] <+: path.parts := left ▸ isPrefix_dropIdleEnd path.parts
    have anchors : Anchors path.anchor (front ++ [last]) := by
      obtain ⟨back, whole⟩ := within
      exact (whole ▸ path.anchors_parts).of_append
    have whole : ∀ part ∈ front ++ [stem], '/' ∉ part := by
      intro part inside
      rcases List.mem_append.1 inside with inside | inside
      · exact not_mem_of_mem_partsOf (within.subset (List.mem_append_left _ inside))
      · cases List.mem_singleton.1 inside
        exact slashless
    have anchors' := anchors.renamed filled stem
    have single : namesIn [last] = [last] := namesIn_cons_of_not_isIdle filled
    rw [left, namesIn_append, single] at kept
    rw [← kept, List.dropLast_concat, ← namesIn_append]
    unfold setExtension
    rw [stemmed]
    dsimp only
    rw [left, List.dropLast_concat, if_pos rfl, List.append_nil, Path.names,
      anchors'.partsOf_eq (List.concat_ne_nil stem front) whole, anchors'.namesIn_eq]

theorem names_setExtension_append {front back : List Char} (opens : IsOpen front)
    (some : names ⟨back⟩ ≠ []) :
    (setExtension ⟨front ++ back⟩ []).names = names ⟨front⟩ ++ (setExtension ⟨back⟩ []).names := by
  have same : fileStem? ⟨front ++ back⟩ = fileStem? ⟨back⟩ :=
    congrArg (Option.map stemOf) (fileName?_append opens some)
  cases stemmed : fileStem? ⟨back⟩ with
  | none =>
      rw [setExtension, setExtension, same, stemmed]
      exact names_append opens back
  | some stem =>
      rw [names_setExtension_nil stemmed, names_setExtension_nil (same.trans stemmed),
        names_append opens, List.dropLast_append_of_ne_nil some, List.append_assoc]

/-- An extension is taken from the end of a path, whatever stands in front. -/
theorem names_withExtension_append {front back : List Char} (opens : IsOpen front)
    (some : names ⟨back⟩ ≠ []) :
    (withExtension ⟨front ++ back⟩ []).names =
      names ⟨front⟩ ++ (withExtension ⟨back⟩ []).names := by
  have kept := names_cut_ne_nil some
  have short := length_extension_le ⟨back⟩
  unfold withExtension
  rw [fileName?_append opens some]
  dsimp only at kept short ⊢
  generalize ((fileName? ⟨back⟩).map extensionOf).getD [] = old at kept short
  have cut : (front ++ back).take ((front ++ back).length - old.length) =
      front ++ back.take (back.length - old.length) := by
    rw [List.length_append, Nat.add_sub_assoc short, List.take_length_add_append]
  rw [cut, names_setExtension_append opens kept]

/-! ### What names are made of -/

theorem IsOpen.append {front back : List Char} (opens : IsOpen front) (opens' : IsOpen back) :
    IsOpen (front ++ back) := by
  rcases opens' with rfl | closed
  · rwa [List.append_nil]
  · exact .inr (by rw [List.getLast?_append, closed]; rfl)

/-- A cut of the text of a path in front of one of its components. -/
structure IsCut (path : Path) (front back : List Char) : Prop where
  text : path.text = front ++ back
  opens : IsOpen front
  component : names ⟨back⟩ ≠ []

/-- A way that ends where it starts: it stays there, or leads into a folder and out again. -/
inductive IsDetour : List Char → Prop
  | here : IsDetour "./".toList
  | around {folder : List Char} (slashless : '/' ∉ folder)
      (named : ¬isIdle folder ∧ Component.ofPart folder = .name folder) :
      IsDetour (folder ++ "/../".toList)

namespace IsDetour

variable {detour : List Char}

theorem isOpen (leadsBack : IsDetour detour) : IsOpen detour := by
  cases leadsBack with
  | here => exact .inr rfl
  | around slashless named => exact .inr (by simp)

theorem head (leadsBack : IsDetour detour) : ∃ c rest, detour = c :: rest ∧ c ≠ '/' := by
  cases leadsBack with
  | here => exact ⟨'.', ['/'], rfl, by decide⟩
  | @around folder slashless named =>
      cases folder with
      | nil => exact absurd isIdle_nil named.1
      | cons c rest =>
          rw [List.mem_cons, not_or] at slashless
          exact ⟨c, rest ++ "/../".toList, rfl, Ne.symm slashless.1⟩

theorem foldl_push (leadsBack : IsDetour detour) (stack : Address) :
    ((names ⟨detour⟩).map Component.ofPart).foldl Component.push stack = stack := by
  cases leadsBack with
  | here => rfl
  | @around folder slashless named =>
      have parts : partsOf (folder ++ "/../".toList) = [folder, ['.', '.'], []] := by
        show partsOf (folder ++ '/' :: "../".toList) = _
        rw [partsOf_append, partsOf_of_not_mem slashless]
        rfl
      rw [names, parts, namesIn_cons_of_not_isIdle named.1, List.map_cons, named.2]
      exact List.dropLast_concat

end IsDetour

theorem stack_of_detour {front detour back : List Char} (opens : IsOpen front)
    (leadsBack : IsDetour detour) (some : names ⟨back⟩ ≠ []) :
    (withExtension ⟨front ++ detour ++ back⟩ []).stack =
      (withExtension ⟨front ++ back⟩ []).stack := by
  rw [stack_eq, stack_eq, names_withExtension_append (opens.append leadsBack.isOpen) some,
    names_withExtension_append opens some, names_append opens, List.map_append, List.map_append,
    List.map_append, List.foldl_append, List.foldl_append, List.foldl_append,
    leadsBack.foldl_push]

/-- The text that a relative path stands behind when it is joined to a path. -/
def opened (path : Path) : List Char :=
  if path.text.isEmpty || path.text.getLast? = some '/' then path.text else path.text ++ ['/']

theorem isOpen_opened (path : Path) : IsOpen path.opened := by
  unfold opened
  split
  · next closed =>
      rw [Bool.or_eq_true, List.isEmpty_iff, decide_eq_true_eq] at closed
      exact closed
  · exact .inr List.getLast?_concat

theorem join_eq_opened {path other : Path} (relative : other.isAbsolute = false) :
    path.join other = ⟨path.opened ++ other.text⟩ := by
  rw [join, opened, relative, Bool.false_or]
  by_cases empty : path.text.isEmpty
  · rw [if_pos empty, if_pos (by rw [empty]; rfl), List.isEmpty_iff.1 empty]
    rfl
  · by_cases closed : path.text.getLast? = some '/'
    · rw [if_neg empty, if_pos closed, if_pos (by rw [closed]; simp)]
    · rw [if_neg empty, if_neg closed, if_neg (by simp [empty, closed]), List.append_assoc]
      rfl

theorem opened_join_detour {path : Path} {folder : List Char} (slashless : '/' ∉ folder)
    (named : ¬isIdle folder ∧ Component.ofPart folder = .name folder) :
    (path.join ⟨folder ++ "/..".toList⟩).opened = path.opened ++ (folder ++ "/../".toList) := by
  have relative : isAbsolute ⟨folder ++ "/..".toList⟩ = false := by
    obtain ⟨c, rest, starts, other⟩ := (IsDetour.around slashless named).head
    cases folder with
    | nil => exact absurd isIdle_nil named.1
    | cons head folder =>
        cases (List.cons.inj starts).1
        simpa [isAbsolute] using other
  rw [join_eq_opened relative, opened, if_neg (by simp)]
  simp

end Path

/-! ### Includes -/

namespace Include

theorem moduleName_eq_stack (folder header : Path) : moduleName folder header =
    ".".intercalate (((folder.join header).withExtension []).stack.map String.ofList) := by
  rw [moduleName, Path.filterMap_collapse]

/-- The module of a quoted include is what the stack of names holds behind the included path, and no
detour in front of one of its components or behind the folder changes it, when the path is relative.
-/
theorem resolve_eq_stack {line exclude directive name : List Char} {folder inside : Path}
    (words : Text.words line = [directive, '"' :: inside.text ++ ['"']])
    (named : inside.fileName? = some name) (other : name ≠ exclude) :
    resolve line exclude folder = .ok (some
      (".".intercalate (((folder.join inside).withExtension []).stack.map String.ofList))) ∧
    (inside.isAbsolute = false →
      (∀ front detour back line' directive', inside.IsCut front back → Path.IsDetour detour →
        Text.words line' = [directive', '"' :: (front ++ detour ++ back) ++ ['"']] →
        resolve line' exclude folder = resolve line exclude folder) ∧
      ∀ beside, '/' ∉ beside → ¬Path.isIdle beside ∧ Component.ofPart beside = .name beside →
        resolve line exclude (folder.join ⟨beside ++ "/..".toList⟩) =
          resolve line exclude folder) := by
  have kept : inside.fileName? ≠ some exclude := by
    rw [named]
    exact fun same => other (Option.some.inj same)
  have resolved := fun folder => @resolve_quoted inside directive line exclude folder words kept
  refine ⟨?_, fun relative => ⟨?_, ?_⟩⟩
  · rw [resolved, moduleName_eq_stack]
  · intro front detour back line' directive' cut leadsBack words'
    have behind := cut.component
    have header : inside = ⟨front ++ back⟩ := congrArg Path.mk cut.text
    have kept' : Path.fileName? ⟨front ++ detour ++ back⟩ ≠ some exclude := by
      rw [Path.fileName?_append (cut.opens.append leadsBack.isOpen) behind,
        ← Path.fileName?_append cut.opens behind, ← header]
      exact kept
    have relative' : Path.isAbsolute ⟨front ++ detour ++ back⟩ = false := by
      obtain ⟨c, rest, starts, apart⟩ := leadsBack.head
      rw [header] at relative
      cases front with
      | nil => simpa [Path.isAbsolute, starts] using apart
      | cons first front => exact relative
    rw [resolved, @resolve_quoted ⟨front ++ detour ++ back⟩ _ _ _ _ words' kept',
      moduleName_eq_stack, moduleName_eq_stack, Path.join_eq_opened relative,
      Path.join_eq_opened relative', cut.text]
    have same := Path.stack_of_detour (folder.isOpen_opened.append cut.opens) leadsBack behind
    simp only [List.append_assoc] at same ⊢
    rw [same]
  · intro beside slashless plain
    have named : inside.names ≠ [] := by
      obtain ⟨before, names, _⟩ := Path.names_of_fileName? named
      simp [names]
    rw [resolved, resolved, moduleName_eq_stack, moduleName_eq_stack, Path.join_eq_opened relative,
      Path.join_eq_opened relative, Path.opened_join_detour slashless plain,
      Path.stack_of_detour folder.isOpen_opened (.around slashless plain) named]

/-- In `pkg/geom`, `../util/vec.hpp` is `pkg.util.vec`, also on the way through another folder. -/
theorem resolve_eq_stack_around :
    resolve "#include \"../util/vec.hpp\"".toList "a.hpp".toList (Path.ofString "pkg/geom") =
      .ok (some "pkg.util.vec") ∧
    resolve "#include \"../x/../util/vec.hpp\"".toList "a.hpp".toList (Path.ofString "pkg/geom") =
      .ok (some "pkg.util.vec") ∧
    resolve "#include \"../util/vec.hpp\"".toList "a.hpp".toList
      (Path.ofString "pkg/geom/x/..") = .ok (some "pkg.util.vec") := by
  have words : Text.words "#include \"../util/vec.hpp\"".toList =
      ["#include".toList, '"' :: (Path.ofString "../util/vec.hpp").text ++ ['"']] := by decide
  have words' : Text.words "#include \"../x/../util/vec.hpp\"".toList =
      ["#include".toList, '"' :: ("../".toList ++ ("x".toList ++ "/../".toList) ++
        "util/vec.hpp".toList) ++ ['"']] := by decide
  have named : ¬Path.isIdle "x".toList ∧ Component.ofPart "x".toList = .name "x".toList := by
    decide
  obtain ⟨found, detours⟩ := @resolve_eq_stack _ "a.hpp".toList _ "vec.hpp".toList
    (Path.ofString "pkg/geom") _ words (by decide) (by decide)
  obtain ⟨inFront, behind⟩ := detours rfl
  have cut : (Path.ofString "../util/vec.hpp").IsCut "../".toList "util/vec.hpp".toList :=
    ⟨rfl, .inr rfl, by decide⟩
  have stack : ((Path.ofString "pkg/geom").join (Path.ofString "../util/vec.hpp") |>.withExtension
      []).stack = ["pkg".toList, "util".toList, "vec".toList] := by decide
  rw [stack] at found
  exact ⟨found, (inFront _ _ _ _ _ cut (.around (by decide) named) words').trans found,
    (behind "x".toList (by decide) named).trans found⟩

-- A header without a file name leaves its extension to the folder, where a detour hides it.
example : resolve "#include \".\"".toList "a.hpp".toList (Path.ofString "pkg.v2") =
      .ok (some "pkg") ∧
    resolve "#include \".\"".toList "a.hpp".toList (Path.ofString "pkg.v2/x/..") =
      .ok (some "pkg.v2") := by
  decide

end Include

end PxdStub
