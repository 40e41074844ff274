import PxdStub.Proofs.ComponentOrder
import PxdStub.Proofs.RunReports
import PxdStub.Proofs.SearchPatterns

/-!
The headers that paths stand for are listed in strict order: all of them, each once, and in the
spelling of the first path that stands for it.
-/

namespace PxdStub

open Search (below isHeader)

namespace Collection

variable {tree : FileTree}

/-- The last of the names ends as the names of headers do. -/
def EndsAsHeader (names : Address) : Prop :=
  ∃ above name, names = above ++ [name] ∧ ".hpp".toList <:+ name

theorem EndsAsHeader.ne_nil {names : Address} (ends : EndsAsHeader names) : names ≠ [] := by
  obtain ⟨above, name, rfl, -⟩ := ends
  simp

theorem isHeader_iff {names : Address} : isHeader names ↔ EndsAsHeader names := by
  have ending (name : List Char) :
      name.reverse.take 4 = "pph.".toList ↔ ".hpp".toList <:+ name := by
    rw [← List.reverse_prefix, List.prefix_iff_eq_take, eq_comm]
    rfl
  unfold isHeader
  rw [decide_eq_true_iff, ending]
  constructor
  · intro suffix
    rcases List.eq_nil_or_concat names with rfl | ⟨above, name, rfl⟩
    · cases List.suffix_nil.1 suffix
    · exact ⟨above, name, List.concat_eq_append, by simpa using suffix⟩
  · rintro ⟨above, name, rfl, suffix⟩
    simpa using suffix

/-! ### Searches -/

/-- The paths that a search gives for the pattern of a folder. -/
def pathsFound (tree : FileTree) (search : PatternSearch (StateM FileTree)) (argument : Path) :
    List Path :=
  match ((search (Search.pattern argument)).run tree).1 with
  | .error _ => []
  | .ok found => found.filterMap Except.toOption

/-- A search that reads all folders, and changes nothing. -/
def Succeeds (tree : FileTree) (search : PatternSearch (StateM FileTree)) (argument : Path) :
    Prop :=
  (search (Search.pattern argument)).run tree =
    (.ok ((pathsFound tree search argument).map .ok), tree)

/-- A search below a folder, where `spell` gives the path for the names from a folder down: it
succeeds, gives paths that lead to what is named as a header, and gives all of those that lead to
files. -/
structure Finds (tree : FileTree) (search : PatternSearch (StateM FileTree))
    (spell : Path → Address → Path) (argument : Path) : Prop where
  succeeds : Succeeds tree search argument
  sound {top path} : tree.locate argument = .ok top → path ∈ pathsFound tree search argument →
    ∃ names, EndsAsHeader names ∧ tree.entry? (top ++ names) ≠ none ∧ path = spell argument names
  complete {top names content} : tree.locate argument = .ok top → EndsAsHeader names →
    tree.entry? (top ++ names) = some (.file content) →
    spell argument names ∈ pathsFound tree search argument
  leads {top names} : tree.locate argument = .ok top → EndsAsHeader names →
    tree.entry? (top ++ names) ≠ none → tree.locate (spell argument names) = .ok (top ++ names)

/-- How the files below a folder are spelled, where the folder itself is. -/
def pathBelow (argument : Path) (names : Address) : Path :=
  below ((Search.folder? (Search.pattern argument)).getD argument) names

theorem mem_below_iff {top names : Address} {entry : Entry} :
    (names, entry) ∈ tree.below top ↔ names ≠ [] ∧ (top ++ names, entry) ∈ tree.entries := by
  simp only [FileTree.below, List.mem_filterMap]
  constructor
  · rintro ⟨⟨address, entry'⟩, inside, found⟩
    dsimp only at found
    split_ifs at found with leads
    obtain ⟨⟨names', rfl⟩, differs⟩ := leads
    rw [List.drop_left] at found
    cases found
    exact ⟨by simpa using differs, inside⟩
  · rintro ⟨some, inside⟩
    exact ⟨_, inside, by simp [some]⟩

/-- Where no path is too long a search comes upon what is named as a header alone. -/
theorem meet_of_short {folder : Path} {names : Address} {entry : Entry}
    (short : Text.size (below folder names).text ≤ FileTree.maxPathSize)
    (short' : names.dropLast ≠ [] →
      Text.size (below folder names.dropLast).text ≤ FileTree.maxPathSize) :
    FileTree.meet folder names entry =
      if isHeader names then [.ok (below folder names)] else [] := by
  have fits : ¬FileTree.maxPathSize < Text.size (below folder names).text := Nat.not_lt.2 short
  have passed : ¬(names.dropLast ≠ [] ∧
      FileTree.maxPathSize < Text.size (below folder names.dropLast).text) := fun ⟨more, long⟩ =>
    absurd (short' more) (Nat.not_le.2 long)
  unfold FileTree.meet
  rw [if_neg passed, if_neg fits]
  cases entry <;> exact List.append_nil _

/-- What is named as a header below an address, in the order in which a search comes upon it. -/
def headersBelow (tree : FileTree) (folder : Path) (top : Address) : List Path :=
  let found := (tree.below top).mergeSort fun left right =>
    (below folder left.1).le (below folder right.1)
  found.filterMap fun placed => if isHeader placed.1 then some (below folder placed.1) else none

theorem mem_headersBelow_iff {folder path : Path} {top : Address} :
    path ∈ headersBelow tree folder top ↔ ∃ names, EndsAsHeader names ∧
      (∃ entry, (top ++ names, entry) ∈ tree.entries) ∧ path = below folder names := by
  simp only [headersBelow, List.mem_filterMap, List.mem_mergeSort]
  constructor
  · rintro ⟨⟨names, entry⟩, inside, found⟩
    dsimp only at found
    split_ifs at found with header
    exact ⟨names, isHeader_iff.1 header, ⟨entry, (mem_below_iff.1 inside).2⟩,
      (Option.some.inj found).symm⟩
  · rintro ⟨names, ends, ⟨entry, inside⟩, rfl⟩
    exact ⟨(names, entry), mem_below_iff.2 ⟨ends.ne_nil, inside⟩, if_pos (isHeader_iff.2 ends)⟩

/-- A search that comes upon no path that is too long gives all that is named as a header. -/
theorem glob_eq_of_short (grounded : tree.IsGrounded) {pattern : List Char} {folder : Path}
    {top : Address} (spelled : Search.folder? pattern = some folder)
    (located : tree.locate folder = .ok top)
    (short : ∀ names, names ≠ [] → tree.entry? (top ++ names) ≠ none →
      Text.size (below folder names).text ≤ FileTree.maxPathSize) :
    tree.glob pattern = (headersBelow tree folder top).map .ok := by
  rw [FileTree.glob, spelled]
  dsimp only
  rw [located]
  dsimp only
  rw [headersBelow, List.filterMap_eq_flatMap_toList, List.map_flatMap]
  refine List.flatMap_congr ?_
  rintro ⟨names, entry⟩ inside
  obtain ⟨filled, placed⟩ := mem_below_iff.1 (List.mem_mergeSort.1 inside)
  have there := FileTree.entry?_of_mem placed
  have short' : names.dropLast ≠ [] →
      Text.size (below folder names.dropLast).text ≤ FileTree.maxPathSize := by
    intro more
    -- The folder that an entry stands in is there itself.
    obtain ⟨above, name, rfl⟩ := List.eq_nil_or_concat names |>.resolve_left filled
    rw [List.concat_eq_append] at there more ⊢
    rw [← List.append_assoc] at there
    rw [List.dropLast_concat] at more ⊢
    exact short _ more (by simp [grounded _ _ there])
  dsimp only
  rw [meet_of_short (short names filled there) short']
  split <;> rfl

/-- A folder that can be spelled is searched, unless paths below it are too long. -/
theorem finds_glob (sound : tree.IsSound) {argument folder : Path} {top : Address}
    (located : tree.locate argument = .ok top)
    (spelled : Search.folder? (Search.pattern argument) = some folder)
    (fits : Text.size folder.text ≤ FileTree.maxPathSize)
    (short : ∀ placed ∈ tree.entries,
      Text.size (below folder (placed.1.drop top.length)).text ≤ FileTree.maxPathSize) :
    Finds tree Files.glob pathBelow argument := by
  have short' : ∀ names, names ≠ [] → tree.entry? (top ++ names) ≠ none →
      Text.size (below folder names).text ≤ FileTree.maxPathSize := by
    intro names filled stands
    obtain ⟨entry, stands⟩ := Option.ne_none_iff_exists'.1 stands
    have fits := short _ (FileTree.mem_of_entry?_eq_some (by simp [filled]) stands)
    rwa [List.drop_left] at fits
  have spells := Search.spells_of_folder? located spelled
  have there : tree.locate folder = .ok top :=
    FileTree.locate_eq_ok_iff.2 ⟨spells.filled, ⟨spells.noNul, fits⟩, spells.leads⟩
  have same (names : Address) : pathBelow argument names = below folder names := by
    rw [pathBelow, spelled, Option.getD_some]
  have ran : (Files.glob (Search.pattern argument) : StateM FileTree _).run tree =
      (.ok ((headersBelow tree folder top).map .ok), tree) := by
    rw [← glob_eq_of_short sound.grounded spelled there short']
    rfl
  have found : pathsFound tree Files.glob argument = headersBelow tree folder top := by
    rw [pathsFound, ran]
    simp [List.filterMap_map, Function.comp_def, Except.toOption]
  constructor
  · rw [Succeeds, ran, found]
  · intro top' path located' inside
    cases located.symm.trans located'
    rw [found] at inside
    obtain ⟨names, ends, ⟨entry, placed⟩, rfl⟩ := mem_headersBelow_iff.1 inside
    exact ⟨names, ends, FileTree.entry?_of_mem placed, (same names).symm⟩
  · intro top' names content located' ends stands
    cases located.symm.trans located'
    have placed := FileTree.mem_of_entry?_eq_some (by simp [ends.ne_nil]) stands
    rw [found, same]
    exact mem_headersBelow_iff.2 ⟨names, ends, ⟨_, placed⟩, rfl⟩
  · intro top' names located' ends stands
    cases located.symm.trans located'
    rw [same]
    exact (Search.locate_below sound spells ends.ne_nil
      (fun name inside => sound.isName stands name (List.mem_append_right _ inside)) stands).2
      ⟨short' names ends.ne_nil stands, rfl⟩

variable {search : PatternSearch (StateM FileTree)} {spell : Path → Address → Path}

/-! ### What a path stands for -/

/-- A path that leads to no folder stands for itself, and one that leads to a folder for the files
at any depth below it that are named as headers, as `spell` spells them. -/
inductive StandsFor (tree : FileTree) (spell : Path → Address → Path) (argument : Path) :
    Path → Prop
  | itself : tree.isFolder argument = false → StandsFor tree spell argument argument
  | below {top names : Address} {content : ByteArray} :
      tree.locate argument = .ok top → tree.entry? top = some .folder → EndsAsHeader names →
      tree.entry? (top ++ names) = some (.file content) →
      StandsFor tree spell argument (spell argument names)

/-- The headers that a path stands for, as they are found. -/
def headersAt (tree : FileTree) (search : PatternSearch (StateM FileTree)) (argument : Path) :
    List Path :=
  if tree.isFolder argument then (pathsFound tree search argument).filter tree.isFile
  else [argument]

theorem mem_headersAt_iff {argument path : Path}
    (finds : tree.isFolder argument → Finds tree search spell argument) :
    path ∈ headersAt tree search argument ↔ StandsFor tree spell argument path := by
  unfold headersAt
  by_cases isFolder : tree.isFolder argument
  · rw [if_pos isFolder, List.mem_filter]
    obtain ⟨top, located, there⟩ := FileTree.isFolder_iff.1 isFolder
    have finds := finds isFolder
    constructor
    · rintro ⟨found, file⟩
      obtain ⟨names, ends, placed, rfl⟩ := finds.sound located found
      obtain ⟨address, content, leads, stands⟩ := FileTree.isFile_iff.1 file
      obtain rfl := Except.ok.inj ((finds.leads located ends placed).symm.trans leads)
      exact .below located there ends stands
    · rintro (other | ⟨located', -, ends, stands⟩)
      · rw [isFolder] at other
        cases other
      · have leads := finds.leads located' ends (by simp [stands])
        exact ⟨finds.complete located' ends stands, FileTree.isFile_iff.2 ⟨_, _, leads, stands⟩⟩
  · rw [if_neg isFolder, List.mem_singleton]
    constructor
    · rintro rfl
      exact .itself (by simpa using isFolder)
    · rintro (_ | ⟨located, there, _⟩)
      · rfl
      · exact absurd (FileTree.isFolder_iff.2 ⟨_, located, there⟩) isFolder

/-! ### Runs -/

theorem run_filesAmong (tree : FileTree) (paths : List Path) :
    (filesAmong (paths.map .ok) : StateM FileTree _).run tree =
      (.ok (paths.filter tree.isFile), tree) := by
  induction paths with
  | nil => rfl
  | cons path rest ih =>
      rw [List.map_cons, filesAmong, FileTree.run_bind (FileTree.run_isFile tree path),
        FileTree.run_bind ih, List.filter_cons]
      cases tree.isFile path <;> rfl

theorem run_headersOf {argument : Path}
    (succeeds : tree.isFolder argument → Succeeds tree search argument) :
    (headersOf search argument).run tree = (.ok (headersAt tree search argument), tree) := by
  unfold headersAt
  split
  · next isFolder =>
      rw [run_headersOf_of_isFolder isFolder (succeeds isFolder)]
      exact run_filesAmong tree _
  · next other => exact run_headersOf_of_other (by simpa using other)

/-- The headers that are found, one path after the other. -/
def found (tree : FileTree) (search : PatternSearch (StateM FileTree)) (paths : List Path) :
    List Path :=
  paths.flatMap (headersAt tree search)

theorem run_headersOfAll {paths : List Path}
    (succeeds : ∀ argument ∈ paths, tree.isFolder argument → Succeeds tree search argument) :
    (headersOfAll search paths).run tree = (.ok (found tree search paths), tree) := by
  induction paths with
  | nil => rfl
  | cons path rest ih =>
      obtain ⟨first, others⟩ := List.forall_mem_cons.1 succeeds
      rw [headersOfAll, FileTree.run_bind (run_headersOf first)]
      dsimp only
      rw [FileTree.run_bind (ih others)]
      rfl

theorem run_collectBy {paths : List Path}
    (succeeds : ∀ argument ∈ paths, tree.isFolder argument → Succeeds tree search argument) :
    (collectBy search paths).run tree = (.ok (arrange (found tree search paths)), tree) := by
  rw [collectBy, FileTree.run_bind (run_headersOfAll succeeds)]
  rfl

/-! ### Listings -/

/-- The headers are all that the paths stand for, in strict order, each once and as the first of the
paths that stand for it has it. -/
structure IsListing (tree : FileTree) (spell : Path → Address → Path) (paths headers : List Path) :
    Prop where
  ascending : headers.Pairwise Path.Before
  distinct : (headers.map Path.components).Nodup
  complete : ∀ components, components ∈ headers.map Path.components ↔
    ∃ argument ∈ paths, ∃ path, StandsFor tree spell argument path ∧ path.components = components
  first : ∀ header ∈ headers, ∃ before argument after, paths = before ++ argument :: after ∧
    StandsFor tree spell argument header ∧ ∀ earlier ∈ before, ∀ path,
      StandsFor tree spell earlier path → path.components ≠ header.components

theorem isStrict_arrange (paths : List Path) : IsStrict Path.le Path.components (arrange paths) :=
  Path.ordersComponents.isStrict_sorted paths

theorem isListing_arrange {paths : List Path}
    (finds : ∀ argument ∈ paths, tree.isFolder argument → Finds tree search spell argument) :
    IsListing tree spell paths (arrange (found tree search paths)) where
  ascending := (isStrict_arrange _).imp fun ordered =>
    Path.lex_of_componentsLe ordered.1 ordered.2
  distinct := List.pairwise_map.2 ((isStrict_arrange _).imp And.right)
  complete components := by
    refine Path.ordersComponents.mem_keys_sorted_iff _ |>.trans ?_
    simp only [found, List.mem_map, List.mem_flatMap]
    constructor
    · rintro ⟨path, ⟨argument, inside, here⟩, same⟩
      exact ⟨argument, inside, path, (mem_headersAt_iff (finds argument inside)).1 here, same⟩
    · rintro ⟨argument, inside, path, stands, same⟩
      exact ⟨path, ⟨argument, inside, (mem_headersAt_iff (finds argument inside)).2 stands⟩, same⟩
  first header inside := by
    have kept := Path.ordersComponents.mem_sorted_iff.1 inside
    rw [found, List.find?_flatMap, List.findSome?_eq_some_iff] at kept
    obtain ⟨before, argument, after, rfl, here, none⟩ := kept
    refine ⟨before, argument, after, rfl, ?_, ?_⟩
    · exact (mem_headersAt_iff (finds argument (by simp))).1 (List.mem_of_find?_eq_some here)
    · intro earlier among path stands
      have other := List.find?_eq_none.1 (none earlier among) path
        ((mem_headersAt_iff (finds earlier (by simp [among]))).2 stands)
      simpa using other

/-- What is found leads to no folder. -/
theorem isFolder_of_mem_headersAt {argument path : Path}
    (inside : path ∈ headersAt tree search argument) : tree.isFolder path = false := by
  by_contra isFolder
  unfold headersAt at inside
  split at inside
  · obtain ⟨address, content, located, file⟩ := FileTree.isFile_iff.1 (List.mem_filter.1 inside).2
    obtain ⟨address', located', folder⟩ := FileTree.isFolder_iff.1 (by simpa using isFolder)
    obtain rfl := Except.ok.inj (located.symm.trans located')
    rw [file] at folder
    cases folder
  · next other =>
      rw [List.mem_singleton.1 inside] at isFolder
      exact isFolder (by simpa using other)

theorem isFolder_of_mem_arrange {paths : List Path} {header : Path}
    (inside : header ∈ arrange (found tree search paths)) : tree.isFolder header = false := by
  have kept := List.mem_of_find?_eq_some (Path.ordersComponents.mem_sorted_iff.1 inside)
  obtain ⟨argument, -, here⟩ := List.mem_flatMap.1 kept
  exact isFolder_of_mem_headersAt here

/-- What is found stands for itself. -/
theorem arrange_found_arrange (paths : List Path) :
    arrange (found tree search (arrange (found tree search paths))) =
      arrange (found tree search paths) := by
  have own : found tree search (arrange (found tree search paths)) =
      arrange (found tree search paths) := by
    have each : ∀ header ∈ arrange (found tree search paths),
        headersAt tree search header = [header] := fun header inside =>
      if_neg (by simp [isFolder_of_mem_arrange inside])
    rw [found, List.flatMap_congr each, List.flatMap_singleton']
  rw [own]
  exact (isStrict_arrange _).sorted_eq_self

/-- Paths are expanded into a listing of the headers that they stand for, and the tree stays as it
is. Only which paths there are matters for which headers are listed, and a listing stands for
itself. -/
theorem collectBy_isListing {tree : FileTree} {search : PatternSearch (StateM FileTree)}
    {spell : Path → Address → Path} {paths : List Path}
    (finds : ∀ argument ∈ paths, tree.isFolder argument → Finds tree search spell argument) :
    ∃ headers, (collectBy search paths).run tree = (.ok headers, tree) ∧
      IsListing tree spell paths headers ∧
      (∀ paths', (∀ path, path ∈ paths' ↔ path ∈ paths) →
        ∃ headers', (collectBy search paths').run tree = (.ok headers', tree) ∧
          headers'.map Path.components = headers.map Path.components) ∧
      (collectBy search headers).run tree = (.ok headers, tree) := by
  refine ⟨_, run_collectBy fun argument inside isFolder => (finds argument inside isFolder).succeeds,
    isListing_arrange finds, ?_, ?_⟩
  · intro paths' same
    have finds' : ∀ argument ∈ paths', tree.isFolder argument → Finds tree search spell argument :=
      fun argument inside => finds argument ((same argument).1 inside)
    refine ⟨_, run_collectBy fun argument inside isFolder =>
      (finds' argument inside isFolder).succeeds, ?_⟩
    refine Path.ordersComponents.map_key_eq (isStrict_arrange _) (isStrict_arrange _) ?_
    intro components
    rw [(isListing_arrange finds').complete, (isListing_arrange finds).complete]
    simp only [same]
  · have none : ∀ header ∈ arrange (found tree search paths), tree.isFolder header →
        Succeeds tree search header := by
      intro header inside isFolder
      rw [isFolder_of_mem_arrange inside] at isFolder
      cases isFolder
    rw [run_collectBy none, arrange_found_arrange]

/-- Of a header that is found in several ways the spelling of the first path is kept. -/
theorem collectBy_isListing_overlap :
    let lib : Address := ["lib".toList]
    let sub : Address := ["lib".toList, "sub".toList]
    let tree := (((FileTree.empty.put lib .folder).put sub .folder).put
      (lib ++ ["b.hpp".toList]) (.file "int b;".toUTF8)).put
      (sub ++ ["a.hpp".toList]) (.file "int a;".toUTF8)
    let paths := ["lib/sub//a.hpp", "./lib", "lib/./b.hpp", "lib/sub/"].map Path.ofString
    let headers := ["lib/b.hpp", "lib/sub//a.hpp"].map Path.ofString
    (∀ argument ∈ paths, tree.isFolder argument → Finds tree Files.glob pathBelow argument) ∧
      (collect paths : StateM FileTree _).run tree = (.ok headers, tree) ∧
      IsListing tree pathBelow paths headers ∧
      (collect headers : StateM FileTree _).run tree = (.ok headers, tree) := by
  intro lib sub tree paths headers
  have sound : tree.IsSound := by
    have first := @FileTree.IsSound.put _ .of_empty [] "lib".toList .folder rfl nofun (by decide)
    have second := @FileTree.IsSound.put _ first lib "sub".toList .folder rfl nofun (by decide)
    have third := @FileTree.IsSound.put _ second lib "b.hpp".toList (.file "int b;".toUTF8) rfl
      nofun (by decide)
    exact @FileTree.IsSound.put _ third sub "a.hpp".toList (.file "int a;".toUTF8) rfl nofun
      (by decide)
  have finds : ∀ argument ∈ paths, tree.isFolder argument →
      Finds tree Files.glob pathBelow argument := by
    intro argument inside isFolder
    obtain rfl | rfl | rfl | rfl : argument = Path.ofString "lib/sub//a.hpp" ∨
        argument = Path.ofString "./lib" ∨ argument = Path.ofString "lib/./b.hpp" ∨
        argument = Path.ofString "lib/sub/" := by simpa [paths] using inside
    · exact absurd isFolder (by decide)
    · exact @finds_glob _ sound _ (Path.ofString "lib") lib (by rfl) (by rfl) (by decide) (by decide)
    · exact absurd isFolder (by decide)
    · exact @finds_glob _ sound _ (Path.ofString "lib/sub") sub (by rfl) (by rfl) (by decide)
        (by decide)
  obtain ⟨listed, ran, listing, -, again⟩ := collectBy_isListing finds
  have same : listed = headers := by
    have kept : ((collect paths : StateM FileTree _).run tree).1 = .ok headers := by cbv
    exact Except.ok.inj ((congrArg Prod.fst ran).symm.trans kept)
  rw [same] at ran listing again
  exact ⟨finds, ran, listing, again⟩

end Collection

end PxdStub
