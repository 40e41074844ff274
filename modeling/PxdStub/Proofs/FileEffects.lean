import Mathlib.Data.List.TakeWhile
import Mathlib.Tactic.SplitIfs
import PxdStub.FileTree

/-!
What the operations on a tree of files do to its entries. A folder is made only where nothing was,
and a file is written only where no folder is. Everything else stays.
-/

namespace PxdStub

namespace FileTree

/-! ### Entries -/

@[simp] theorem entry?_nil (tree : FileTree) : tree.entry? [] = some .folder := rfl

theorem entry?_put_self (tree : FileTree) {address : Address} (entry : Entry)
    (below : address ≠ []) : FileTree.entry? (tree.put address entry) address = some entry := by
  simp [ entry?, put, below]

theorem entry?_put_of_ne (tree : FileTree) {address other : Address} (entry : Entry)
    (differs : other ≠ address) :
    FileTree.entry? (tree.put address entry) other = tree.entry? other := by
  by_cases top : other = []
  · subst top
    rfl
  · have same : ∀ placed : Address × Entry,
        (placed.1 ≠ address ∧ placed.1 = other) ↔ placed.1 = other := by
      intro placed
      by_cases found : placed.1 = other
      · simp [found, differs]
      · simp [found]
    simp only [ entry?, put, top, if_false, List.find?_cons, differs.symm, decide_false,
      List.find?_filter, decide_eq_true_eq, same]

/-- Nothing is lost and no file changes. What is new is a folder where nothing was. -/
def AddsFolders (before after : FileTree) : Prop :=
  ∀ address, after.entry? address = before.entry? address ∨
    before.entry? address = none ∧ after.entry? address = some .folder

namespace AddsFolders

variable {before between after : FileTree}

theorem refl (tree : FileTree) : tree.AddsFolders tree :=
  fun _ => .inl rfl

theorem trans (first : before.AddsFolders between) (second : between.AddsFolders after) :
    before.AddsFolders after := by
  intro address
  rcases first address with same | ⟨missing, made⟩
  · rw [← same]
    exact second address
  · rcases second address with same | ⟨missing', -⟩
    · exact .inr ⟨missing, same.trans made⟩
    · rw [made] at missing'
      cases missing'

theorem put {tree : FileTree} {address : Address} (missing : tree.entry? address = none) :
    tree.AddsFolders (tree.put address .folder) := by
  intro other
  by_cases same : other = address
  · subst same
    have below : other ≠ [] := by
      rintro rfl
      cases missing
    exact .inr ⟨missing, entry?_put_self tree _ below⟩
  · exact .inl (entry?_put_of_ne tree _ same)

theorem folder (adds : before.AddsFolders after) {address : Address}
    (there : before.entry? address = some .folder) : after.entry? address = some .folder := by
  rcases adds address with same | ⟨missing, -⟩
  · exact same.trans there
  · rw [there] at missing
    cases missing

theorem file_iff (adds : before.AddsFolders after) (address : Address) (content : ByteArray) :
    after.entry? address = some (.file content) ↔
      before.entry? address = some (.file content) := by
  rcases adds address with same | ⟨missing, made⟩
  · rw [same]
  · simp [missing, made]

end AddsFolders

/-! ### Walks -/

theorem walk_append (tree : FileTree) (here : Address) (parts further : List (List Char)) :
    tree.walk here (parts ++ further) =
      (tree.walk here parts).bind fun there => tree.walk there further := by
  induction parts generalizing here with
  | nil => rfl
  | cons part rest ih =>
      simp only [List.cons_append, walk]
      split
      · rfl
      · rfl
      · split_ifs
        · exact ih here
        · exact ih here.dropLast
        · rfl
        · exact ih (here ++ [part])

/-- A walk succeeds wherever the folders that it passes are still there. -/
theorem walk_of_folders {tree after : FileTree}
    (keeps : ∀ address, tree.entry? address = some .folder →
      after.entry? address = some .folder)
    {here there : Address} {parts : List (List Char)} (found : tree.walk here parts = .ok there) :
    after.walk here parts = .ok there := by
  induction parts generalizing here with
  | nil => exact found
  | cons part rest ih =>
      unfold walk at found ⊢
      split at found
      · cases found
      · cases found
      · rename_i folder
        rw [keeps here folder]
        dsimp only
        split_ifs at found ⊢
        · exact ih found
        · exact ih found
        · exact ih found

theorem walk_idle {tree : FileTree} {here : Address} {parts : List (List Char)}
    (folder : tree.entry? here = some .folder) (idle : ∀ part ∈ parts, Path.isIdle part) :
    tree.walk here parts = .ok here := by
  induction parts with
  | nil => rfl
  | cons part rest ih =>
      have skipped := idle part (by simp)
      simp only [walk, folder, skipped, if_true]
      exact ih fun part inside => idle part (by simp [inside])

theorem locate_of_folders {tree after : FileTree}
    (keeps : ∀ address, tree.entry? address = some .folder →
      after.entry? address = some .folder)
    {path : Path} {address : Address} (found : tree.locate path = .ok address) :
    after.locate path = .ok address := by
  unfold locate at found ⊢
  cases known : partsToWalk path with
  | error error =>
      rw [known] at found
      cases found
  | ok parts =>
      rw [known] at found
      exact walk_of_folders keeps found

theorem isFolder_iff {tree : FileTree} {path : Path} :
    tree.isFolder path = true ↔
      ∃ address, tree.locate path = .ok address ∧ tree.entry? address = some .folder := by
  unfold isFolder
  constructor
  · intro found
    split at found
    · rename_i address located
      split at found
      · rename_i folder
        exact ⟨address, located, folder⟩
      · cases found
    · cases found
  · rintro ⟨address, located, folder⟩
    rw [located]
    dsimp only
    rw [folder]

theorem isFolder_of_folders {tree after : FileTree}
    (keeps : ∀ address, tree.entry? address = some .folder →
      after.entry? address = some .folder)
    {path : Path} (there : tree.isFolder path = true) : after.isFolder path = true := by
  obtain ⟨address, located, folder⟩ := isFolder_iff.1 there
  exact isFolder_iff.2 ⟨address, locate_of_folders keeps located, keeps address folder⟩

theorem readText_eq_ok_iff {tree : FileTree} {path : Path} {text : String} :
    tree.readText path = .ok text ↔
      ∃ address content, tree.locate path = .ok address ∧
        tree.entry? address = some (.file content) ∧ String.fromUTF8? content = some text := by
  unfold readText
  cases located : tree.locate path with
  | error error => simp [bind, Except.bind]
  | ok address =>
      simp only [bind, Except.bind]
      constructor
      · intro found
        split at found
        · cases found
        · cases found
        · rename_i content file
          split at found
          · rename_i text' decoded
            cases found
            exact ⟨address, content, rfl, file, decoded⟩
          · cases found
      · rintro ⟨address', content, same, file, decoded⟩
        cases same
        simp only [file, decoded]
        rfl

theorem isFile_iff {tree : FileTree} {path : Path} :
    tree.isFile path = true ↔
      ∃ address content, tree.locate path = .ok address ∧
        tree.entry? address = some (.file content) := by
  unfold isFile
  constructor
  · intro found
    split at found
    · rename_i address located
      split at found
      · rename_i content file
        exact ⟨address, content, located, file⟩
      · cases found
    · cases found
  · rintro ⟨address, content, located, file⟩
    rw [located]
    dsimp only
    rw [file]

/-! ### Making folders -/

/-- A folder is made for the last part that is not empty, in a folder and where nothing was. -/
theorem makeFolder_ok {tree made : FileTree} {path : Path} (ok : tree.makeFolder path = .ok made) :
    ∃ (before ends : List (List Char)) (last : List Char) (above : Address),
      partsToWalk path = .ok (before ++ last :: ends) ∧ (∀ part ∈ ends, part = []) ∧
      tree.walk [] before = .ok above ∧ tree.entry? above = some .folder ∧
      ¬Path.isIdle last ∧ last ≠ ['.', '.'] ∧ Text.size last ≤ maxNameSize ∧
      tree.entry? (above ++ [last]) = none ∧ made = tree.put (above ++ [last]) .folder := by
  unfold makeFolder at ok
  cases known : partsToWalk path with
  | error error =>
      rw [known] at ok
      cases ok
  | ok parts =>
      simp only [known, bind, Except.bind] at ok
      have split' : parts.reverse =
          parts.reverse.takeWhile (· = []) ++ parts.reverse.dropWhile (· = []) :=
        List.takeWhile_append_dropWhile.symm
      split at ok
      · cases ok
      · rename_i last before cut
        have occupied : last ≠ [] := by
          have head := List.head_dropWhile_not (fun part : List Char => decide (part = []))
            (l := parts.reverse) (by rw [cut]; simp)
          simp only [cut, List.head_cons] at head
          simpa using head
        rw [cut] at split'
        have whole : parts = before.reverse ++
            last :: (parts.reverse.takeWhile (· = [])).reverse := by
          have back := congrArg List.reverse split'
          simpa using back
        cases walked : tree.walk [] before.reverse with
        | error error =>
            rw [walked] at ok
            cases ok
        | ok above =>
            simp only [walked] at ok
            split at ok
            · cases ok
            · cases ok
            · rename_i folder
              split_ifs at ok with special long there
              · cases ok
                rw [Bool.or_eq_true, decide_eq_true_iff, decide_eq_true_iff, not_or] at special
                refine ⟨before.reverse, _, last, above, congrArg _ whole, ?_, walked, folder, ?_,
                  special.2, by omega, ?_, rfl⟩
                · intro part inside
                  rw [List.mem_reverse] at inside
                  simpa using List.mem_takeWhile_imp inside
                · simp [Path.isIdle, occupied, special.1]
                · simpa using there

theorem isFolder_of_makeFolder {tree made : FileTree} {path : Path}
    (ok : tree.makeFolder path = .ok made) : made.isFolder path = true := by
  obtain ⟨before, ends, last, above, known, empty, walked, folder, occupied, notUp, short,
    missing, rfl⟩ := makeFolder_ok ok
  have keeps := AddsFolders.put missing
  have new : FileTree.entry? (tree.put (above ++ [last]) .folder) (above ++ [last]) =
      some .folder := entry?_put_self tree _ (by simp)
  refine isFolder_iff.2 ⟨above ++ [last], ?_, new⟩
  have long : ¬maxNameSize < Text.size last := by omega
  have idle : ∀ part ∈ ends, Path.isIdle part := by
    intro part inside
    simp [Path.isIdle, empty part inside]
  simp only [locate, known, Except.bind, walk_append,
    walk_of_folders (fun _ => keeps.folder) walked, walk, keeps.folder folder, occupied, if_false, Bool.false_eq_true, notUp, long]
  exact walk_idle new idle

/-- What each folder that is made leaves true is true when all of them are made. -/
theorem holds_makeUpwards {holds : FileTree → Prop} {paths : List Path}
    (kept : ∀ (tree made : FileTree), ∀ path ∈ paths, holds tree →
      tree.makeFolder path = .ok made → holds made)
    {tree : FileTree} (start : holds tree) : holds (tree.makeUpwards paths).2 := by
  induction paths with
  | nil => exact start
  | cons path above ih =>
      have opened := ih fun tree made path inside => kept tree made path (.tail _ inside)
      unfold makeUpwards
      split
      · rename_i ok
        exact kept _ _ path (.head _) start ok
      · split_ifs
        · split
          · rename_i failed
            rwa [failed] at opened
          · rename_i ran
            rw [ran] at opened
            split
            · rename_i ok
              exact kept _ _ path (.head _) opened ok
            · exact opened
        · exact start

theorem holds_makeFolders {holds : FileTree → Prop}
    (kept : ∀ (tree made : FileTree) (path : Path), holds tree → tree.makeFolder path = .ok made →
      holds made) {tree : FileTree} (path : Path) (start : holds tree) :
    holds (tree.makeFolders path).2 := by
  unfold makeFolders
  split_ifs
  · exact start
  · exact holds_makeUpwards (fun tree made path _ => kept tree made path) start

/-- A path that was there already is accepted, any other is made. -/
theorem isFolder_of_makeUpwards {tree made : FileTree} {path : Path} {above : List Path}
    (ok : tree.makeUpwards (path :: above) = (.ok (), made)) : made.isFolder path = true := by
  have accepted {error : FileError} {tree : FileTree}
      (ok : (if tree.isFolder path then Except.ok () else .error error, tree) =
        (Except.ok (), made)) : made.isFolder path = true := by
    rw [Prod.mk.injEq] at ok
    obtain ⟨yes, rfl⟩ := ok
    split_ifs at yes with there
    exact there
  unfold makeUpwards at ok
  split at ok
  · rename_i new
    cases ok
    exact isFolder_of_makeFolder new
  · split_ifs at ok
    · split at ok
      · cases ok
      · split at ok
        · rename_i new
          cases ok
          exact isFolder_of_makeFolder new
        · exact accepted ok
    · exact accepted ok

/-- An empty path names no folder, so none is made for it. -/
theorem isFolder_of_makeFolders {tree made : FileTree} {path : Path}
    (ok : tree.makeFolders path = (.ok (), made)) :
    path.text = [] ∨ made.isFolder path = true := by
  by_cases unnamed : path.text = []
  · exact .inl unnamed
  · rw [makeFolders, if_neg unnamed] at ok
    exact .inr (isFolder_of_makeUpwards ok)

/-! ### Writing a file -/

theorem writeBytes_ok {tree written : FileTree} {path : Path} {content : ByteArray}
    (ok : tree.writeBytes path content = .ok written) :
    ∃ address, tree.locate path = .ok address ∧ tree.entry? address ≠ some .folder ∧
      written = tree.put address (.file content) := by
  unfold writeBytes at ok
  cases located : tree.locate path with
  | error error =>
      rw [located] at ok
      cases ok
  | ok address =>
      simp only [located, bind, Except.bind] at ok
      split at ok
      · cases ok
      · rename_i notFolder
        cases ok
        exact ⟨address, rfl, notFolder, rfl⟩

/-- Where no folder stood none is lost. -/
theorem folder_of_put {tree : FileTree} {address : Address} {entry : Entry}
    (free : tree.entry? address ≠ some .folder) {other : Address}
    (there : tree.entry? other = some .folder) :
    FileTree.entry? (tree.put address entry) other = some .folder := by
  have differs : other ≠ address := by
    rintro rfl
    exact free there
  rw [entry?_put_of_ne tree entry differs, there]

theorem fromUTF8?_toUTF8 (text : String) : String.fromUTF8? text.toUTF8 = some text :=
  dif_pos text.isValidUTF8

/-- A text that was written can be read where it was written. -/
theorem readText_of_writeBytes {tree written : FileTree} {path : Path} {text : String}
    (ok : tree.writeBytes path text.toUTF8 = .ok written) : written.readText path = .ok text := by
  obtain ⟨address, located, free, rfl⟩ := writeBytes_ok ok
  have below : address ≠ [] := by
    rintro rfl
    exact free rfl
  exact readText_eq_ok_iff.2 ⟨address, text.toUTF8,
    locate_of_folders (fun _ => folder_of_put free) located, entry?_put_self tree _ below,
    fromUTF8?_toUTF8 text⟩

/-! ### The operations of a run -/

/-- What comes behind an operation goes on from the tree that the operation leaves. -/
theorem run_bind {α β : Type} {step : StateM FileTree α} {rest : α → StateM FileTree β}
    {tree next : FileTree} {value : α} (ran : step.run tree = (value, next)) :
    (step >>= rest).run tree = (rest value).run next := by
  rw [StateT.run_bind, ran]
  rfl

theorem run_readText (tree : FileTree) (path : Path) :
    (Files.readText path : StateM FileTree _).run tree = (tree.readText path, tree) := rfl

theorem run_isFile (tree : FileTree) (path : Path) :
    (Files.isFile path : StateM FileTree _).run tree = (tree.isFile path, tree) := rfl

theorem run_makeFolders (tree : FileTree) (path : Path) :
    (Files.makeFolders path : StateM FileTree _).run tree = tree.makeFolders path := rfl

theorem run_writeText_ok {tree written : FileTree} {path : Path} {text : String}
    (ok : tree.writeBytes path text.toUTF8 = .ok written) :
    (Files.writeText path text : StateM FileTree _).run tree = (.ok (), written) := by
  simp only [Files.writeText, StateT.run_bind, StateT.run_get, pure_bind, ok]
  rfl

/-- A file that cannot be written leaves the tree as it is. -/
theorem run_writeText_error {tree : FileTree} {path : Path} {text : String} {error : FileError}
    (failed : tree.writeBytes path text.toUTF8 = .error error) :
    (Files.writeText path text : StateM FileTree _).run tree = (.error error, tree) := by
  simp only [Files.writeText, StateT.run_bind, StateT.run_get, pure_bind, failed]
  rfl

end FileTree

end PxdStub
