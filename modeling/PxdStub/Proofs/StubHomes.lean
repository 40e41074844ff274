import PxdStub.Include
import PxdStub.Proofs.PathComponents

/-!
With both homes given, a stub stands at the place under the stub home that its header has under the
C++ home. So an include that leads from one header to another names the module of the other stub,
and a stub leaves its home only where the path of its header leads out of the C++ home by itself.
-/

namespace PxdStub

theorem Component.root_notMem_of_follow? {steps : List Component} {place there : Address}
    (found : follow? place steps = some there) : .root ∉ steps := by
  induction steps generalizing place with
  | nil => exact List.not_mem_nil
  | cons step rest ih =>
      rw [List.mem_cons, not_or]
      cases step with
      | root => cases found
      | here => exact ⟨by simp, ih found⟩
      | up =>
          rw [follow?] at found
          split at found
          · cases found
          · exact ⟨by simp, ih found⟩
      | name text => exact ⟨by simp, ih found⟩

theorem Component.follow?_names (place names : Address) :
    follow? place (names.map .name) = some (place ++ names) := by
  induction names generalizing place with
  | nil => rw [List.append_nil]; rfl
  | cons name names ih =>
      rw [List.map_cons, follow?, ih, List.append_assoc]
      rfl

namespace Path

theorem stemOf_subset (name : List Char) : stemOf name ⊆ name := by
  unfold stemOf
  dsimp only
  split
  · exact List.Subset.refl name
  · intro c inside
    have behind := (List.drop_suffix 1 _).subset (List.mem_reverse.1 inside)
    exact List.mem_reverse.1 ((List.dropWhile_suffix _).subset behind)

theorem slash_notMem_fileStem (path : Path) : '/' ∉ path.fileStem?.getD [] := by
  cases named : path.fileName? with
  | none =>
      rw [fileStem?, named]
      exact List.not_mem_nil
  | some name =>
      obtain ⟨front, ends, whole, _, _⟩ := partsOf_of_fileName? named
      have slashless : '/' ∉ name := @not_mem_of_mem_partsOf path.text name (by simp [whole])
      rw [fileStem?, named]
      exact fun inside => slashless (stemOf_subset name inside)

/-- A name on its own as a path. -/
theorem components_name {name : List Char} (slashless : '/' ∉ name)
    (named : ¬isIdle name ∧ Component.ofPart name = .name name) :
    components ⟨name⟩ = [.name name] := by
  have single : partsOf (Path.mk name).text = [] ++ name :: [] := partsOf_of_not_mem slashless
  rw [components_of_parts single named (fun _ none => nomatch none), single, List.nil_append,
    leading_cons_of_not_isIdle named.1]
  rfl

/-- Names behind another path. -/
theorem collapse_behind {path start : Path} {steps : List Component} {names : Address}
    (behind : path.components = start.components ++ steps)
    (level : Component.follow? [] steps = some names) :
    path.collapse = start.collapse ++ names.map .name := by
  have followed := collapseOnto_of_follow? level start.collapse.reverse
  rw [List.reverse_reverse] at followed
  rw [collapse, behind, collapseOnto_append]
  exact followed

end Path

namespace Job

variable {header cppHome cythonHome : Path} {options : Options}

/-- The name of a stub is a name whatever the stem before the extension. -/
theorem name_of_extension (stem : List Char) : ¬Path.isIdle (stem ++ ".pxd".toList) ∧
    Component.ofPart (stem ++ ".pxd".toList) = .name (stem ++ ".pxd".toList) := by
  have long : 4 ≤ (stem ++ ".pxd".toList).length := by
    rw [List.length_append]
    exact Nat.le_add_left 4 stem.length
  generalize stem ++ ".pxd".toList = name at long
  match name with
  | _ :: _ :: _ :: _ :: _ => simp [Path.isIdle, Component.ofPart]

theorem collapse_stub {job : Job} (made : ofHeader header options = .ok job) :
    job.stub.collapse =
      job.folder.collapse ++ [.name (header.fileStem?.getD [] ++ ".pxd".toList)] := by
  unfold ofHeader at made
  cases found : folderOf header options with
  | error outside =>
      rw [found] at made
      cases made
  | ok folder =>
      rw [found] at made
      cases made
      have slashless : '/' ∉ header.fileStem?.getD [] ++ ".pxd".toList := by
        rw [List.mem_append, not_or]
        exact ⟨Path.slash_notMem_fileStem header, by decide⟩
      have name := Path.components_name slashless (name_of_extension _)
      have relative : Path.isAbsolute ⟨header.fileStem?.getD [] ++ ".pxd".toList⟩ = false := by
        rw [← Bool.not_eq_true, ← Path.root_mem_components_iff, name]
        simp
      rw [Path.collapse_join relative, name]
      simp [Path.collapseOnto]

/-- A header behind the C++ home has a job; its folder is what lies behind the C++ home, seen from
the stub home. -/
theorem exists_ofHeader {steps : List Component} (cpp : options.cppHome = some cppHome)
    (cython : options.cythonHome = some cythonHome)
    (inside : (header.parent?.getD ⟨[]⟩).components = cppHome.components ++ steps) :
    ∃ job relative, ofHeader header options = .ok job ∧ relative.components = steps ∧
      job.folder = cythonHome.join relative := by
  cases found : (header.parent?.getD ⟨[]⟩).relativeTo? cppHome with
  | none => exact absurd (List.prefix_append _ steps) (inside ▸ Path.relativeTo?_eq_none_iff.1 found)
  | some relative =>
      have behind := Path.components_relativeTo? found
      refine ⟨⟨header, header.withExtension "cpp".toList, cythonHome.join relative,
        (cythonHome.join relative).join ⟨header.fileStem?.getD [] ++ ".pxd".toList⟩⟩, relative, ?_,
        List.append_cancel_left (behind.symm.trans inside), rfl⟩
      rw [ofHeader, folderOf, cpp, cython]
      dsimp only
      rw [found]
      rfl

theorem ofHeader_eq_error_iff {outside : OutsideHome} (cpp : options.cppHome = some cppHome)
    (cython : options.cythonHome = some cythonHome) :
    ofHeader header options = .error outside ↔ outside = ⟨header, cppHome⟩ ∧
      ¬cppHome.components <+: (header.parent?.getD ⟨[]⟩).components := by
  rw [← Path.relativeTo?_eq_none_iff, ofHeader, folderOf, cpp, cython]
  dsimp only
  cases (header.parent?.getD ⟨[]⟩).relativeTo? cppHome with
  | none => simp [Except.map, eq_comm]
  | some relative => simp [Except.map]

/-- Folders that never lead above the C++ home are added to the stub home. -/
theorem collapse_folder {steps : List Component} {folders : Address}
    (cpp : options.cppHome = some cppHome) (cython : options.cythonHome = some cythonHome)
    (inside : (header.parent?.getD ⟨[]⟩).components = cppHome.components ++ steps)
    (level : Component.follow? [] steps = some folders) :
    ∃ job, ofHeader header options = .ok job ∧
      job.folder.collapse = cythonHome.collapse ++ folders.map .name := by
  obtain ⟨job, relative, made, behind, folder⟩ := exists_ofHeader cpp cython inside
  have rootless : relative.isAbsolute = false := by
    rw [← Bool.not_eq_true, ← Path.root_mem_components_iff, behind]
    exact Component.root_notMem_of_follow? level
  have followed := Path.collapseOnto_of_follow? level cythonHome.collapse.reverse
  refine ⟨job, made, ?_⟩
  rw [folder, Path.collapse_join rootless, behind]
  rwa [List.reverse_reverse] at followed

/-! ### Stubs and the stub home -/

/-- Where the path of a header does not lead out of the C++ home behind it, the stub stands in the
stub home, and a header that stands outside the C++ home is rejected. -/
theorem stub_inside_home (cpp : options.cppHome = some cppHome)
    (cython : options.cythonHome = some cythonHome)
    (level : ∀ steps, (header.parent?.getD ⟨[]⟩).components = cppHome.components ++ steps →
      (Component.follow? [] steps).isSome) :
    (∀ job, ofHeader header options = .ok job → cythonHome.collapse <+: job.stub.collapse) ∧
      (¬cppHome.collapse <+: (header.parent?.getD ⟨[]⟩).collapse →
        ofHeader header options = .error ⟨header, cppHome⟩) := by
  by_cases inside : cppHome.components <+: (header.parent?.getD ⟨[]⟩).components
  · obtain ⟨steps, whole⟩ := inside
    obtain ⟨folders, level⟩ := Option.isSome_iff_exists.1 (level steps whole.symm)
    obtain ⟨made, found, folder⟩ := collapse_folder cpp cython whole.symm level
    constructor
    · intro job same
      cases found.symm.trans same
      rw [collapse_stub found, folder, List.append_assoc]
      exact List.prefix_append ..
    · intro outside
      rw [Path.collapse_behind whole.symm level] at outside
      exact absurd (List.prefix_append ..) outside
  · have rejected := (ofHeader_eq_error_iff cpp cython).2 ⟨rfl, inside⟩
    constructor
    · intro job same
      cases rejected.symm.trans same
    · exact fun _ => rejected

/-- A header below the C++ home has a stub at the same place below the stub home. -/
theorem stub_inside_home_below : ∃ job,
    ofHeader (Path.ofString "src/pkg/../a.hpp")
      ⟨some (Path.ofString "src"), some (Path.ofString "pyx"), false⟩ = .ok job ∧
    (Path.ofString "pyx").collapse <+: job.stub.collapse := by
  have level : ∀ steps, ((Path.ofString "src/pkg/../a.hpp").parent?.getD ⟨[]⟩).components =
      (Path.ofString "src").components ++ steps → (Component.follow? [] steps).isSome := by
    intro steps behind
    have same : steps = [.name "pkg".toList, .up] :=
      (List.append_cancel_left (behind.symm.trans (by decide))).trans rfl
    rw [same]
    rfl
  have made : ofHeader (Path.ofString "src/pkg/../a.hpp")
      ⟨some (Path.ofString "src"), some (Path.ofString "pyx"), false⟩ =
      .ok ⟨Path.ofString "src/pkg/../a.hpp", Path.ofString "src/pkg/../a.cpp",
        Path.ofString "pyx/pkg/..", Path.ofString "pyx/pkg/../a.pxd"⟩ := by decide
  exact ⟨_, made, (stub_inside_home rfl rfl level).1 _ made⟩

/-- The components behind the C++ home are taken as they are written, so that two dots in them lead
out of both homes. -/
theorem stub_outside_home : ∃ header options cppHome cythonHome job,
    options.cppHome = some cppHome ∧ options.cythonHome = some cythonHome ∧
    ¬cppHome.collapse <+: (header.parent?.getD ⟨[]⟩).collapse ∧
    ofHeader header options = .ok job ∧ ¬cythonHome.collapse <+: job.stub.collapse := by
  refine ⟨Path.ofString "src/../../evil.hpp",
    ⟨some (Path.ofString "src"), some (Path.ofString "pyx"), false⟩, Path.ofString "src",
    Path.ofString "pyx", ⟨Path.ofString "src/../../evil.hpp", Path.ofString "src/../../evil.cpp",
      Path.ofString "pyx/../..", Path.ofString "pyx/../../evil.pxd"⟩, rfl, rfl, ?_, ?_, ?_⟩ <;> decide

end Job

/-! ### Includes and stubs -/

namespace Include

variable {options : Options} {header included inside cppHome cythonHome : Path}
  {directive file stem : List Char} {directories below : Address}

theorem quoted?_quotes (text : List Char) : quoted? ('"' :: text ++ ['"']) = some text := by
  simp [quoted?]

/-- A target without white space is resolved as it stands between its quotes. -/
theorem resolve_quoted {line exclude : List Char} {folder : Path}
    (words : Text.words line = [directive, '"' :: inside.text ++ ['"']])
    (other : inside.fileName? ≠ some exclude) :
    resolve line exclude folder = .ok (some (moduleName folder inside)) := by
  have ink : ∀ c ∈ inside.text, Text.isBlank c = false := by
    intro c mem
    have quoted : '"' :: inside.text ++ ['"'] ∈ Text.words line := by simp [words]
    exact Text.not_isBlank_of_mem_words quoted (by simp [mem])
  rw [resolve, words]
  dsimp only
  rw [quoted?_quotes]
  dsimp only
  rw [Text.trim_of_not_isBlank ink, if_neg other]

theorem moduleName_eq {folder : Path} {extension : List Char} {folders : List Component}
    (relative : inside.isAbsolute = false)
    (named : inside.fileName? = some (stem ++ '.' :: extension)) (filled : stem ≠ [])
    (visible : stem.head? ≠ some '.') (dotless : '.' ∉ extension)
    (leads : (folder.join inside).collapse = folders ++ [.name (stem ++ '.' :: extension)]) :
    moduleName folder inside =
      ".".intercalate ((folders.filterMap Component.name? ++ [stem]).map String.ofList) := by
  have joined := @Path.fileName?_join folder _ _ relative named
  have whole := Path.components_of_fileName? joined
  have front : Path.collapseOnto [] (folder.join inside).components.dropLast = folders := by
    rw [Path.collapse, whole, Path.collapseOnto_name] at leads
    exact (List.append_inj' leads rfl).1
  rw [moduleName, Path.collapse, Path.components_withExtension_nil joined filled visible dotless,
    Path.collapseOnto_name, front, List.filterMap_append]
  rfl

/-- A quoted include that leads from one header below the C++ home to another names the module of
the other stub. -/
theorem resolve_names_stub {line : List Char} (cpp : options.cppHome = some cppHome)
    (cython : options.cythonHome = some cythonHome)
    (place : header.components =
      cppHome.components ++ (directories ++ [file]).map .name)
    (relative : inside.isAbsolute = false)
    (named : inside.fileName? = some (stem ++ ".hpp".toList)) (filled : stem ≠ [])
    (visible : stem.head? ≠ some '.') (other : stem ++ ".hpp".toList ≠ file)
    (leads : Component.follow? directories inside.components =
      some (below ++ [stem ++ ".hpp".toList]))
    (target : included.components =
      cppHome.components ++ (below ++ [stem ++ ".hpp".toList]).map .name)
    (words : Text.words line = [directive, '"' :: inside.text ++ ['"']]) :
    ∃ job job' folders, Job.ofHeader header options = .ok job ∧
      Job.ofHeader included options = .ok job' ∧
      job'.stub.collapse.filterMap Component.name? = folders ++ [stem ++ ".pxd".toList] ∧
      resolve line file job.folder =
        .ok (some (".".intercalate ((folders ++ [stem]).map String.ofList))) := by
  have dotless : '.' ∉ "hpp".toList := by decide
  have within : (header.parent?.getD ⟨[]⟩).components =
      cppHome.components ++ directories.map .name := by
    rw [Path.components_parent, place, List.map_append, ← List.append_assoc]
    exact List.dropLast_concat
  have within' : (included.parent?.getD ⟨[]⟩).components =
      cppHome.components ++ below.map .name := by
    rw [Path.components_parent, target, List.map_append, ← List.append_assoc]
    exact List.dropLast_concat
  obtain ⟨job, made, folder⟩ := Job.collapse_folder cpp cython within
    (Component.follow?_names [] directories)
  obtain ⟨job', made', folder'⟩ := Job.collapse_folder cpp cython within'
    (Component.follow?_names [] below)
  rw [List.nil_append] at folder folder'
  refine ⟨job, job', (cythonHome.collapse ++ below.map Component.name).filterMap Component.name?,
    made, made', ?_, ?_⟩
  · have stemmed : included.fileStem? = some stem := by
      rw [List.map_append, ← List.append_assoc] at target
      rw [Path.fileStem?, Path.fileName?_of_components target, Option.map_some]
      exact congrArg some (Path.stemOf_append filled dotless)
    rw [Job.collapse_stub made', folder', stemmed, List.filterMap_append]
    rfl
  · have joined : (job.folder.join inside).collapse =
        cythonHome.collapse ++ below.map .name ++ [.name (stem ++ ".hpp".toList)] := by
      have followed := Path.collapseOnto_of_follow? leads cythonHome.collapse.reverse
      rw [Path.collapse_join relative, folder, List.reverse_append, followed,
        List.reverse_reverse, List.map_append, List.append_assoc]
      rfl
    rw [resolve_quoted words, moduleName_eq relative named filled visible dotless joined]
    intro same
    exact other (Option.some.inj (named.symm.trans same))

/-- `../util/vec.hpp` in `src/geom/a.hpp` is the module of the stub of `src/util/vec.hpp`. -/
theorem resolve_names_stub_beside : ∃ job job' folders,
    Job.ofHeader (Path.ofString "src/geom/a.hpp")
      ⟨some (Path.ofString "src"), some (Path.ofString "pyx"), false⟩ = .ok job ∧
    Job.ofHeader (Path.ofString "src/util/vec.hpp")
      ⟨some (Path.ofString "src"), some (Path.ofString "pyx"), false⟩ = .ok job' ∧
    job'.stub.collapse.filterMap Component.name? = folders ++ ["vec".toList ++ ".pxd".toList] ∧
    resolve "#include \"../util/vec.hpp\"".toList "a.hpp".toList job.folder =
      .ok (some (".".intercalate ((folders ++ ["vec".toList]).map String.ofList))) := by
  let inside := Path.ofString "../util/vec.hpp"
  have place : (Path.ofString "src/geom/a.hpp").components =
      (Path.ofString "src").components ++ (["geom".toList] ++ ["a.hpp".toList]).map .name := by
    decide
  have leads : Component.follow? ["geom".toList] inside.components =
      some (["util".toList] ++ ["vec".toList ++ ".hpp".toList]) := by decide
  have target : (Path.ofString "src/util/vec.hpp").components = (Path.ofString "src").components ++
      (["util".toList] ++ ["vec".toList ++ ".hpp".toList]).map .name := by decide
  have words : Text.words "#include \"../util/vec.hpp\"".toList =
      ["#include".toList, '"' :: inside.text ++ ['"']] := by decide
  exact resolve_names_stub rfl rfl place (by decide) (by decide) (by decide) (by decide)
    (by decide) leads target words

/-- An include line is cut into words at all its white space, so that a path with a blank in it
names no module. -/
theorem resolve_blank_path : ∃ (job : Job) (inside : Path),
    Job.ofHeader (Path.ofString "src/a.hpp")
      ⟨some (Path.ofString "src"), some (Path.ofString "pyx"), false⟩ = .ok job ∧
    inside.isAbsolute = false ∧ inside.fileName? = some ("my vec".toList ++ ".hpp".toList) ∧
    Component.follow? [] inside.components = some ["my vec".toList ++ ".hpp".toList] ∧
    resolve ("#include ".toList ++ '"' :: inside.text ++ ['"']) "a.hpp".toList job.folder =
      .error (.malformedInclude "#include \"my vec.hpp\"") :=
  ⟨⟨Path.ofString "src/a.hpp", Path.ofString "src/a.cpp", Path.ofString "pyx/",
    Path.ofString "pyx/a.pxd"⟩, Path.ofString "my vec.hpp", by decide, by decide, by decide,
    by decide, by rfl⟩

end Include

end PxdStub
