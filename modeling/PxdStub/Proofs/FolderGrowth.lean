import Mathlib.Data.List.Induction
import PxdStub.Proofs.FileEffects
import PxdStub.Proofs.PathNames

/-!
Making the folders of a plain path is to go down along its names and to make what is missing. What
that does depends on the entries on the way alone.
-/

namespace PxdStub

namespace FileTree

/-! ### On the way of a path -/

/-- The first parts of a path lead to the address. -/
def OnWay (tree : FileTree) (path : Path) (address : Address) : Prop :=
  ∃ parts, parts <+: Path.partsOf path.text ∧ tree.walk [] parts = .ok address

/-- Nothing is lost and no file changes. What is new are folders on the way of a path. -/
def AddsOnWay (before : FileTree) (path : Path) (after : FileTree) : Prop :=
  ∀ address, after.entry? address = before.entry? address ∨
    before.entry? address = none ∧ after.entry? address = some .folder ∧ after.OnWay path address

theorem OnWay.of_folders {tree after : FileTree} {path : Path} {address : Address}
    (keeps : ∀ other, tree.entry? other = some .folder → after.entry? other = some .folder)
    (onWay : tree.OnWay path address) : after.OnWay path address := by
  obtain ⟨parts, leads, walked⟩ := onWay
  exact ⟨parts, leads, walk_of_folders keeps walked⟩

namespace AddsOnWay

variable {before between after : FileTree} {path : Path}

theorem refl (tree : FileTree) (path : Path) : tree.AddsOnWay path tree :=
  fun _ => .inl rfl

theorem addsFolders (adds : before.AddsOnWay path after) : before.AddsFolders after := by
  intro address
  rcases adds address with same | ⟨missing, made, -⟩
  · exact .inl same
  · exact .inr ⟨missing, made⟩

theorem trans (first : before.AddsOnWay path between) (second : between.AddsOnWay path after) :
    before.AddsOnWay path after := by
  intro address
  rcases first address with same | ⟨missing, made, onWay⟩
  · rw [← same]
    exact second address
  · have keeps : ∀ other, between.entry? other = some .folder →
        after.entry? other = some .folder := fun _ => second.addsFolders.folder
    exact .inr ⟨missing, keeps address made, onWay.of_folders keeps⟩

/-- A folder is made on the way of every path that goes on behind the path of the folder. -/
theorem of_makeFolder {tree made : FileTree} {step : Path}
    (leads : Path.partsOf step.text <+: Path.partsOf path.text)
    (ok : tree.makeFolder step = .ok made) : tree.AddsOnWay path made := by
  obtain ⟨front, ends, last, above, known, -, walked, folder, named, notUp, short, missing, rfl⟩ :=
    makeFolder_ok ok
  have parts : front ++ last :: ends = Path.partsOf step.text := by
    unfold partsToWalk at known
    split_ifs at known
    exact (Except.ok.inj known).symm
  intro address
  by_cases same : address = above ++ [last]
  · subst same
    have keeps := AddsFolders.put missing
    refine .inr ⟨missing, entry?_put_self tree _ (by simp), front ++ [last], ?_, ?_⟩
    · refine List.IsPrefix.trans ?_ leads
      rw [← parts, List.append_cons front last ends]
      exact List.prefix_append _ _
    · have fits : ¬maxNameSize < Text.size last := Nat.not_lt.2 short
      rw [walk_append, walk_of_folders (fun _ => keeps.folder) walked]
      simp only [Except.bind, walk, keeps.folder folder, named, notUp, fits, if_false,
        Bool.false_eq_true]
  · exact .inl (entry?_put_of_ne tree _ same)

end AddsOnWay

/-- The paths to the folders that a path passes through begin as the path does. -/
theorem prefix_of_mem_pathsUpwards {anchor : List Char} {parts : List (List Char)} {path : Path}
    (anchors : Path.Anchors anchor parts) (whole : ∀ part ∈ parts, '/' ∉ part)
    (inside : path ∈ pathsUpwards anchor parts.reverse) :
    Path.partsOf path.text <+: Path.anchored anchor parts := by
  induction parts using List.reverseRecOn with
  | nil => cases inside
  | append_singleton before part ih =>
      have further : path ∈ pathsUpwards anchor before.reverse →
          Path.partsOf path.text <+: Path.anchored anchor (before ++ [part]) := fun inside =>
        (ih anchors.of_append (fun part among => whole part (List.mem_append_left _ among))
          inside).trans (Path.anchored_prefix anchor before [part])
      rw [List.reverse_append, List.reverse_singleton, List.singleton_append, pathsUpwards] at inside
      split_ifs at inside
      · exact further inside
      · rcases List.mem_cons.1 inside with rfl | above
        · have back : (part :: before.reverse).reverse = before ++ [part] := by simp
          exact ⟨[], by rw [List.append_nil, back, anchors.partsOf_eq (by simp) whole]⟩
        · exact further above

/-- Folders are made on the way of their path alone. -/
theorem makeFolders_addsOnWay (tree : FileTree) (path : Path) :
    tree.AddsOnWay path (tree.makeFolders path).2 := by
  unfold makeFolders
  split_ifs
  · exact .refl tree path
  · refine holds_makeUpwards (fun before made step inside adds ok => ?_) (.refl tree path)
    refine adds.trans (.of_makeFolder ?_ ok)
    rcases List.mem_cons.1 inside with rfl | above
    · exact List.prefix_refl _
    · have front := (List.drop_suffix 1 _).trans
        (List.dropWhile_suffix Path.isIdle (l := path.parts.reverse))
      obtain ⟨behind, split⟩ := front
      have parts := congrArg List.reverse split
      rw [List.reverse_append, List.reverse_reverse] at parts
      have anchors := path.anchors_parts
      rw [← parts] at anchors
      rw [path.partsOf_text, ← parts]
      refine (prefix_of_mem_pathsUpwards anchors.of_append ?_ ?_).trans
        (Path.anchored_prefix _ _ _)
      · intro part among
        exact Path.not_mem_of_mem_parts (parts ▸ List.mem_append_left _ among)
      · rwa [List.reverse_reverse]

theorem makeFolders_addsFolders (tree : FileTree) (path : Path) :
    tree.AddsFolders (tree.makeFolders path).2 :=
  (tree.makeFolders_addsOnWay path).addsFolders

/-! ### Trees in which every entry stands in a folder -/

/-- What stands in a tree stands in a folder of it. -/
def IsGrounded (tree : FileTree) : Prop :=
  ∀ address name, tree.entry? (address ++ [name]) ≠ none → tree.entry? address = some .folder

theorem isGrounded_empty : empty.IsGrounded := by
  intro address name there
  simp [ entry?, empty] at there

namespace IsGrounded

variable {tree : FileTree}

/-- Above an entry there are folders up to the top. -/
theorem folder_above (grounded : tree.IsGrounded) {above below : Address} (proper : below ≠ [])
    (there : tree.entry? (above ++ below) ≠ none) : tree.entry? above = some .folder := by
  induction below using List.reverseRecOn with
  | nil => exact absurd rfl proper
  | append_singleton below name ih =>
      rw [← List.append_assoc] at there
      have folder := grounded _ _ there
      by_cases last : below = []
      · subst last
        simpa using folder
      · exact ih last (by simp [folder])

theorem folder_of_prefix (grounded : tree.IsGrounded) {above address : Address}
    (leads : above <+: address) (folder : tree.entry? address = some .folder) :
    tree.entry? above = some .folder := by
  obtain ⟨below, rfl⟩ := leads
  by_cases same : below = []
  · subst same
    simpa using folder
  · exact grounded.folder_above same (by simp [folder])

/-- An entry may be put into a folder where no folder stands. -/
theorem put (grounded : tree.IsGrounded) {above : Address} {name : List Char} {entry : Entry}
    (folder : tree.entry? above = some .folder)
    (free : tree.entry? (above ++ [name]) ≠ some .folder) :
    (tree.put (above ++ [name]) entry).IsGrounded := by
  intro address name' there
  by_cases new : address ++ [name'] = above ++ [name]
  · obtain ⟨rfl, -⟩ := List.append_inj' new rfl
    rwa [entry?_put_of_ne]
    simp
  · rw [entry?_put_of_ne _ _ new] at there
    exact folder_of_put free (grounded _ _ there)

/-- A walk ends at the top or below a folder. -/
theorem of_walk (grounded : tree.IsGrounded) {here there : Address} {parts : List (List Char)}
    (walked : tree.walk here parts = .ok there)
    (start : here = [] ∨ ∃ above name, here = above ++ [name] ∧
      tree.entry? above = some .folder) :
    there = [] ∨ ∃ above name, there = above ++ [name] ∧ tree.entry? above = some .folder := by
  induction parts generalizing here with
  | nil =>
      cases walked
      exact start
  | cons part rest ih =>
      unfold walk at walked
      split at walked
      · cases walked
      · cases walked
      · rename_i folder
        split_ifs at walked
        · exact ih walked start
        · refine ih walked ?_
          rcases start with rfl | ⟨above, name, rfl, up⟩
          · exact .inl rfl
          · rw [List.dropLast_concat]
            rcases List.eq_nil_or_concat above with rfl | ⟨before, last, rfl⟩
            · exact .inl rfl
            · rw [List.concat_eq_append] at up ⊢
              exact .inr ⟨before, last, rfl, grounded before last (by simp [up])⟩
        · exact ih walked (.inr ⟨here, part, rfl, folder⟩)

theorem makeFolder (grounded : tree.IsGrounded) {made : FileTree} {path : Path}
    (ok : tree.makeFolder path = .ok made) : made.IsGrounded := by
  obtain ⟨-, -, last, above, -, -, -, folder, -, -, -, missing, rfl⟩ := makeFolder_ok ok
  exact grounded.put folder (by simp [missing])

theorem makeFolders (grounded : tree.IsGrounded) (path : Path) :
    (tree.makeFolders path).2.IsGrounded :=
  holds_makeFolders (fun _ _ _ grounded ok => makeFolder grounded ok) path grounded

theorem writeBytes (grounded : tree.IsGrounded) {written : FileTree} {path : Path}
    {content : ByteArray} (ok : tree.writeBytes path content = .ok written) :
    written.IsGrounded := by
  obtain ⟨address, located, free, rfl⟩ := writeBytes_ok ok
  unfold locate at located
  cases known : partsToWalk path with
  | error error =>
      rw [known] at located
      cases located
  | ok parts =>
      rw [known] at located
      rcases grounded.of_walk located (.inl rfl) with rfl | ⟨above, name, rfl, folder⟩
      · exact absurd rfl free
      · exact grounded.put folder free

end IsGrounded

/-! ### Walks that do not go up -/

theorem walk_eq_names {tree : FileTree} {here there : Address} {parts : List (List Char)}
    (noUp : ['.', '.'] ∉ parts) (walked : tree.walk here parts = .ok there) :
    there = here ++ Path.namesIn parts := by
  induction parts generalizing here with
  | nil =>
      cases walked
      simp [Path.namesIn]
  | cons part rest ih =>
      rw [List.mem_cons, not_or] at noUp
      unfold walk at walked
      split at walked
      · cases walked
      · cases walked
      · split_ifs at walked with idle up
        · rw [ih noUp.2 walked, Path.namesIn_cons_of_isIdle idle]
        · exact absurd up.symm noUp.1
        · rw [ih noUp.2 walked, Path.namesIn_cons_of_not_isIdle idle]
          simp

/-- A walk succeeds in another tree that has the folders of the first on the way. -/
theorem walk_of_folders_on {tree other : FileTree} {here there : Address}
    {parts : List (List Char)} (noUp : ['.', '.'] ∉ parts)
    (keeps : ∀ address, here <+: address → address <+: here ++ Path.namesIn parts →
      tree.entry? address = some .folder → other.entry? address = some .folder)
    (walked : tree.walk here parts = .ok there) : other.walk here parts = .ok there := by
  induction parts generalizing here with
  | nil => exact walked
  | cons part rest ih =>
      rw [List.mem_cons, not_or] at noUp
      unfold walk at walked ⊢
      split at walked
      · cases walked
      · cases walked
      · rename_i folder
        rw [keeps here (List.prefix_refl _) (List.prefix_append _ _) folder]
        dsimp only
        split_ifs at walked ⊢ with idle up long
        · rw [Path.namesIn_cons_of_isIdle idle] at keeps
          exact ih noUp.2 keeps walked
        · exact absurd up.symm noUp.1
        · rw [Path.namesIn_cons_of_not_isIdle idle] at keeps
          refine ih noUp.2 ?_ walked
          intro address from' onto
          refine keeps address ((List.prefix_append _ _).trans from') ?_
          simpa using onto

/-- A walk depends on the entries on its way alone. -/
theorem walk_congr {tree other : FileTree} {here : Address} {parts : List (List Char)}
    (noUp : ['.', '.'] ∉ parts)
    (same : ∀ address, here <+: address → address <+: here ++ Path.namesIn parts →
      tree.entry? address = other.entry? address) :
    tree.walk here parts = other.walk here parts := by
  induction parts generalizing here with
  | nil => rfl
  | cons part rest ih =>
      rw [List.mem_cons, not_or] at noUp
      simp only [walk]
      rw [same here (List.prefix_refl _) (List.prefix_append _ _)]
      split
      · rfl
      · rfl
      · split_ifs with idle up
        · rw [Path.namesIn_cons_of_isIdle idle] at same
          exact ih noUp.2 same
        · exact absurd up.symm noUp.1
        · rfl
        · rw [Path.namesIn_cons_of_not_isIdle idle] at same
          refine ih noUp.2 ?_
          intro address from' onto
          refine same address ((List.prefix_append _ _).trans from') ?_
          simpa using onto

/-! ### Growing along names -/

/-- Goes down along names and makes the folders that are missing. It stops at a file and at a name
that is too long. -/
def grow (tree : FileTree) (here : Address) : Address → Bool × FileTree
  | [] => (true, tree)
  | name :: rest =>
      if maxNameSize < Text.size name then (false, tree)
      else match tree.entry? (here ++ [name]) with
        | some (.file _) => (false, tree)
        | some .folder => grow tree (here ++ [name]) rest
        | none => grow (tree.put (here ++ [name]) .folder) (here ++ [name]) rest

theorem grow_append (tree : FileTree) (here names more : Address) :
    tree.grow here (names ++ more) =
      if (tree.grow here names).1 then (tree.grow here names).2.grow (here ++ names) more
      else tree.grow here names := by
  induction names generalizing tree here with
  | nil => simp [grow]
  | cons name rest ih =>
      simp only [List.cons_append, grow]
      split_ifs with long grown grown
      · cases grown
      · rfl
      · split at grown <;> simp_all
      · split at grown <;> simp_all

theorem grow_cases (tree : FileTree) (here names : Address) (address : Address) :
    FileTree.entry? (tree.grow here names).2 address = tree.entry? address ∨
      tree.entry? address = none ∧ FileTree.entry? (tree.grow here names).2 address = some .folder ∧
        address <+: here ++ names := by
  induction names generalizing tree here with
  | nil => exact .inl rfl
  | cons name rest ih =>
      have whole : here ++ name :: rest = here ++ [name] ++ rest := by simp
      rw [grow, whole]
      split_ifs
      · exact .inl rfl
      · split
        · exact .inl rfl
        · exact ih tree (here ++ [name])
        · rename_i missing
          by_cases same : address = here ++ [name]
          · subst same
            have new : FileTree.entry? (tree.put (here ++ [name]) .folder) (here ++ [name]) =
                some .folder :=
              entry?_put_self tree _ (by simp)
            rcases ih (tree.put (here ++ [name]) .folder) (here ++ [name]) with kept | ⟨gone, -⟩
            · exact .inr ⟨missing, kept.trans new, List.prefix_append _ _⟩
            · rw [new] at gone
              cases gone
          · have kept := ih (tree.put (here ++ [name]) .folder) (here ++ [name])
            rwa [entry?_put_of_ne tree _ same] at kept

theorem grow_addsFolders (tree : FileTree) (here names : Address) :
    tree.AddsFolders (tree.grow here names).2 := by
  intro address
  rcases tree.grow_cases here names address with same | ⟨missing, made, -⟩
  · exact .inl same
  · exact .inr ⟨missing, made⟩

theorem grow_folder {tree : FileTree} {here names : Address}
    (folder : tree.entry? here = some .folder) (grown : (tree.grow here names).1) :
    FileTree.entry? (tree.grow here names).2 (here ++ names) = some .folder := by
  induction names generalizing tree here with
  | nil => simpa [grow] using folder
  | cons name rest ih =>
      have whole : here ++ name :: rest = here ++ [name] ++ rest := by simp
      rw [grow] at grown ⊢
      rw [whole]
      split_ifs at grown ⊢
      split at grown
      · cases grown
      · rename_i next
        exact ih next grown
      · exact ih (entry?_put_self tree _ (by simp)) grown

theorem walk_of_missing {tree : FileTree} {here : Address} {parts : List (List Char)}
    (more : parts ≠ []) (missing : tree.entry? here = none) :
    tree.walk here parts = .error .notFound := by
  cases parts with
  | nil => exact absurd rfl more
  | cons part rest => rw [walk, missing]

theorem walk_of_file {tree : FileTree} {here : Address} {parts : List (List Char)}
    {content : ByteArray} (more : parts ≠ []) (file : tree.entry? here = some (.file content)) :
    tree.walk here parts = .error .notAFolder := by
  cases parts with
  | nil => exact absurd rfl more
  | cons part rest => rw [walk, file]

/-- Where no folder is found every further part fails alike. -/
theorem walk_of_stopped {tree : FileTree} {here : Address} {parts further : List (List Char)}
    {error : FileError} (more : further ≠ [])
    (stopped : tree.walk here (parts ++ [[]]) = .error error) :
    tree.walk here (parts ++ further) = .error error := by
  rw [walk_append] at stopped ⊢
  cases walked : tree.walk here parts with
  | error earlier =>
      rw [walked] at stopped
      exact stopped
  | ok there =>
      rw [walked] at stopped
      simp only [Except.bind] at stopped ⊢
      have last : [([] : List Char)] ≠ [] := by simp
      cases found : tree.entry? there with
      | none => rwa [walk_of_missing more found, ← walk_of_missing last found]
      | some entry =>
          cases entry with
          | file content => rwa [walk_of_file more found, ← walk_of_file last found]
          | folder => simp [walk, found] at stopped

/-- An empty part at the end asks for a folder. Where the walk finds it nothing grows, and nothing
can grow where it is stopped by something that is there. -/
theorem grow_of_walk {tree : FileTree} {here : Address} {parts : List (List Char)}
    (noUp : ['.', '.'] ∉ parts) (folder : tree.entry? here = some .folder) :
    match tree.walk here (parts ++ [[]]) with
    | .ok _ => tree.grow here (Path.namesIn parts) = (true, tree)
    | .error error =>
        error = .notFound ∨ tree.grow here (Path.namesIn parts) = (false, tree) := by
  induction parts generalizing here with
  | nil =>
      simp [walk, folder]
      rfl
  | cons part rest ih =>
      rw [List.mem_cons, not_or] at noUp
      simp only [List.cons_append, walk, folder, Ne.symm noUp.1, if_false]
      by_cases idle : Path.isIdle part
      · simp only [idle, if_true, Path.namesIn_cons_of_isIdle]
        exact ih noUp.2 folder
      · simp only [idle, Bool.false_eq_true, if_false, Path.namesIn_cons_of_not_isIdle,
          not_false_eq_true, grow]
        by_cases long : maxNameSize < Text.size part
        · simp only [long, if_true]
          exact .inr trivial
        · simp only [long, if_false]
          cases next : tree.entry? (here ++ [part]) with
          | none =>
              rw [walk_of_missing (by simp) next]
              exact .inl rfl
          | some entry =>
              cases entry with
              | file content =>
                  rw [walk_of_file (by simp) next]
                  exact .inr rfl
              | folder => exact ih noUp.2 next

/-- Along names that could be grown a walk finds folders. -/
theorem walk_of_grow {tree : FileTree} {here : Address} {parts : List (List Char)}
    (noUp : ['.', '.'] ∉ parts) (folder : tree.entry? here = some .folder)
    (grown : (tree.grow here (Path.namesIn parts)).1) :
    (tree.grow here (Path.namesIn parts)).2.walk here (parts ++ [[]]) =
      .ok (here ++ Path.namesIn parts) := by
  induction parts generalizing tree here with
  | nil =>
      have same : (tree.grow here (Path.namesIn [])).2 = tree := rfl
      rw [same]
      simp [walk, folder, Path.namesIn]
  | cons part rest ih =>
      rw [List.mem_cons, not_or] at noUp
      have start := (tree.grow_addsFolders here (Path.namesIn (part :: rest))).folder folder
      simp only [List.cons_append, walk, start, Ne.symm noUp.1, if_false]
      by_cases idle : Path.isIdle part
      · simp only [idle, if_true, Path.namesIn_cons_of_isIdle] at grown ⊢
        exact ih noUp.2 folder grown
      · simp only [idle, Bool.false_eq_true, if_false, Path.namesIn_cons_of_not_isIdle,
          not_false_eq_true, grow] at grown ⊢
        have whole : here ++ part :: Path.namesIn rest = here ++ [part] ++ Path.namesIn rest := by
          simp
        by_cases long : maxNameSize < Text.size part
        · simp [long] at grown
        · simp only [long, if_false] at grown ⊢
          rw [whole]
          cases next : tree.entry? (here ++ [part]) with
          | none =>
              simp only [next] at grown ⊢
              exact ih noUp.2 (entry?_put_self tree _ (by simp)) grown
          | some entry =>
              cases entry with
              | file content => simp [next] at grown
              | folder =>
                  simp only [next] at grown ⊢
                  exact ih noUp.2 next grown

/-! ### Making folders is growing -/

/-- Makes a folder, or takes one that is there already. -/
def settle (tree : FileTree) (path : Path) : Except FileError Unit × FileTree :=
  match tree.makeFolder path with
  | .ok made => (.ok (), made)
  | .error error => (if tree.isFolder path then .ok () else .error error, tree)

theorem makeUpwards_of_missing {tree : FileTree} {path : Path} (above : List Path)
    (missing : tree.makeFolder path = .error .notFound) :
    tree.makeUpwards (path :: above) =
      match tree.makeUpwards above with
      | (.error error, made) => (.error error, made)
      | (.ok (), made) => made.settle path := by
  simp only [makeUpwards, missing, if_true]
  rfl

theorem makeUpwards_of_ne {tree : FileTree} {path : Path} (above : List Path)
    (answered : tree.makeFolder path ≠ .error .notFound) :
    tree.makeUpwards (path :: above) = tree.settle path := by
  unfold makeUpwards settle
  cases made : tree.makeFolder path with
  | ok made => rfl
  | error error =>
      have other : error ≠ .notFound := by
        rintro rfl
        exact answered made
      simp only [other, if_false]

/-- A run has the answer and the tree of growing along names. -/
def Grows (tree : FileTree) (names : Address) (run : Except FileError Unit × FileTree) : Prop :=
  (run.1.isOk, run.2) = tree.grow [] names

theorem makeFolder_eq {path : Path} {before ends : List (List Char)} {last : List Char}
    (known : partsToWalk path = .ok (before ++ last :: ends)) (empty : ∀ part ∈ ends, part = [])
    (name : ¬Path.isIdle last) (notUp : last ≠ ['.', '.']) (tree : FileTree) :
    tree.makeFolder path =
      (tree.walk [] (before ++ [[]])).bind fun above =>
        if maxNameSize < Text.size last then .error .nameTooLong
        else if (tree.entry? (above ++ [last])).isSome then .error .alreadyExists
        else .ok (tree.put (above ++ [last]) .folder) := by
  have cut : (before ++ last :: ends).reverse.dropWhile (fun part => part = []) =
      last :: before.reverse := by
    have occupied : last ≠ [] := fun none => name (by simp [none])
    rw [List.reverse_append, List.reverse_cons, List.append_assoc, List.dropWhile_append_of_pos]
    · simp [occupied]
    · intro part inside
      simpa using empty part (by simpa using inside)
  have notDot : last ≠ ['.'] := fun dot => name (by simp [dot])
  simp only [makeFolder, known, bind, Except.bind, cut, List.reverse_reverse, walk_append]
  cases walked : tree.walk [] before with
  | error error => rfl
  | ok above =>
      dsimp only
      cases there : tree.entry? above with
      | none => simp [walk, there]; rfl
      | some entry =>
          cases entry with
          | file content => simp [walk, there]; rfl
          | folder => simp [walk, there, notDot, notUp]; rfl

/-- A folder is there when a walk that ends in an empty part finds it. -/
theorem isFolder_eq {path : Path} {parts : List (List Char)}
    (known : partsToWalk path = .ok parts) (tree : FileTree) :
    tree.isFolder path = (tree.walk [] (parts ++ [[]])).isOk := by
  simp only [isFolder, locate, known, Except.bind, walk_append]
  cases tree.walk [] parts with
  | error error => rfl
  | ok there =>
      simp only [walk]
      cases tree.entry? there with
      | none => rfl
      | some entry => cases entry <;> rfl

section

variable {path : Path} {front ends : List (List Char)} {name : List Char}
  (known : partsToWalk path = .ok (front ++ name :: ends)) (empty : ∀ part ∈ ends, part = [])
  (named : ¬Path.isIdle name) (notUp : name ≠ ['.', '.'])

include known empty named notUp

/-- In a folder that is there the last name is made, unless something stands there or the name is
too long. -/
theorem settle_grows {tree : FileTree} {there : Address}
    (walked : tree.walk [] (front ++ [[]]) = .ok there) :
    tree.makeFolder path ≠ .error .notFound ∧
      ((tree.settle path).1.isOk, (tree.settle path).2) = tree.grow there [name] := by
  have made := makeFolder_eq known empty named notUp tree
  have folder : tree.walk [] front = .ok there ∧ tree.entry? there = some .folder := by
    rw [walk_append] at walked
    cases first : tree.walk [] front with
    | error error =>
        rw [first] at walked
        cases walked
    | ok here =>
        simp only [first, Except.bind, walk] at walked
        split at walked
        · cases walked
        · cases walked
        · rename_i folder
          cases walked
          exact ⟨rfl, folder⟩
  have opened : tree.isFolder path =
      (tree.walk there (name :: ends ++ [[]])).isOk := by
    rw [isFolder_eq known, List.append_assoc, walk_append, folder.1]
    rfl
  have idle : ∀ part ∈ ends ++ [[]], Path.isIdle part := by
    intro part inside
    rcases List.mem_append.1 inside with inside | inside
    · simp [empty part inside]
    · rw [List.mem_singleton.1 inside]
      rfl
  simp only [List.cons_append, walk, folder.2, named, Bool.false_eq_true, if_false, notUp]
    at opened
  simp only [walked, Except.bind] at made
  rw [grow, settle]
  by_cases long : maxNameSize < Text.size name
  · simp only [long, if_true] at made opened ⊢
    rw [made]
    exact ⟨by simp [FileError.nameTooLong, FileError.notFound], by rw [opened]; rfl⟩
  · simp only [long, if_false] at made opened ⊢
    cases next : tree.entry? (there ++ [name]) with
    | none =>
        simp only [next, Option.isSome_none, Bool.false_eq_true, if_false] at made
        rw [made]
        exact ⟨by simp, rfl⟩
    | some entry =>
        simp only [next, Option.isSome_some, if_true] at made
        rw [made]
        cases entry with
        | file content =>
            rw [walk_of_file (by simp) next] at opened
            exact ⟨by simp [FileError.alreadyExists, FileError.notFound], by rw [opened]; rfl⟩
        | folder =>
            rw [walk_idle next idle] at opened
            exact ⟨by simp [FileError.alreadyExists, FileError.notFound], by rw [opened]; rfl⟩

theorem makeUpwards_grows {above : List Path} (noUp : ['.', '.'] ∉ front)
    (grows : ∀ tree, Grows tree (Path.namesIn front) (tree.makeUpwards above)) (tree : FileTree) :
    Grows tree (Path.namesIn front ++ [name]) (tree.makeUpwards (path :: above)) := by
  have below := tree.grow_append [] (Path.namesIn front) [name]
  have walks := grow_of_walk noUp tree.entry?_nil
  rw [Grows, below, List.nil_append]
  cases walked : tree.walk [] (front ++ [[]]) with
  | ok there =>
      rw [walked] at walks
      obtain ⟨answered, settles⟩ := settle_grows known empty named notUp walked
      have here : there = Path.namesIn front := by
        have found := walk_eq_names (by simpa using noUp) walked
        have none : Path.namesIn [[]] = [] := rfl
        rwa [Path.namesIn_append, none, List.nil_append, List.append_nil] at found
      rw [makeUpwards_of_ne above answered, settles, walks, here]
      rfl
  | error error =>
      rw [walked] at walks
      have failed : tree.makeFolder path = .error error := by
        rw [makeFolder_eq known empty named notUp, walked]
        rfl
      by_cases missing : error = .notFound
      · subst missing
        rw [makeUpwards_of_missing above failed]
        have grown := grows tree
        rw [Grows] at grown
        rcases run : tree.makeUpwards above with ⟨error | ok, made⟩
        · rw [run] at grown
          rw [← grown]
          rfl
        · rw [run] at grown
          rw [← grown]
          have found := walk_of_grow noUp tree.entry?_nil (by rw [← grown]; rfl)
          rw [← grown] at found
          exact (settle_grows known empty named notUp found).2
      · have stopped := walks.resolve_left missing
        rw [makeUpwards_of_ne above (by simp [failed, missing]), settle, failed, stopped]
        have closed : tree.isFolder path = false := by
          have whole : front ++ name :: ends ++ [[]] = front ++ (name :: ends ++ [[]]) := by simp
          rw [isFolder_eq known, whole, walk_of_stopped (by simp) walked]
          rfl
        rw [closed]
        rfl

end

/-- Texts that can be looked up when they are not empty. -/
def IsShort (text : List Char) : Prop :=
  '\x00' ∉ text ∧ Text.size text ≤ maxPathSize

theorem IsShort.of_append {text more : List Char} (short : IsShort (text ++ more)) :
    IsShort text := by
  obtain ⟨noNul, bound⟩ := short
  rw [List.mem_append, not_or] at noNul
  rw [Text.size_append] at bound
  exact ⟨noNul.1, by omega⟩

theorem IsShort.of_parts {anchor : List Char} {parts more : List (List Char)}
    (short : IsShort (anchor ++ Path.textOf (parts ++ more))) (some : more ≠ []) :
    IsShort (anchor ++ Path.textOf parts) := by
  by_cases first : parts = []
  · subst first
    simpa [Path.textOf] using short.of_append
  · rw [Path.textOf_append first some, ← List.append_assoc] at short
    exact short.of_append

theorem IsShort.partsToWalk {text : List Char} (short : IsShort text) (some : text ≠ []) :
    FileTree.partsToWalk ⟨text⟩ = .ok (Path.partsOf text) := by
  have bound : ¬maxPathSize < Text.size text := by
    have := short.2
    omega
  simp [FileTree.partsToWalk, short.1, some, bound]

theorem isShort_of_partsToWalk {path : Path} {parts : List (List Char)}
    (known : partsToWalk path = .ok parts) :
    IsShort path.text ∧ parts = Path.partsOf path.text := by
  unfold partsToWalk at known
  split_ifs at known with nul none long
  cases known
  exact ⟨⟨by simpa using nul, by omega⟩, rfl⟩

/-- The folders above a path are made along their names. -/
theorem makeUpwards_pathsUpwards {anchor : List Char} {parts : List (List Char)}
    (anchors : Path.Anchors anchor parts) (whole : ∀ part ∈ parts, '/' ∉ part)
    (noUp : ['.', '.'] ∉ parts) (short : IsShort (anchor ++ Path.textOf parts)) (tree : FileTree) :
    Grows tree (Path.namesIn parts) (tree.makeUpwards (pathsUpwards anchor parts.reverse)) := by
  induction parts using List.reverseRecOn generalizing tree with
  | nil => rfl
  | append_singleton before part ih =>
      have grows := ih anchors.of_append (fun part inside => whole part (by simp [inside]))
        (fun up => noUp (by simp [up])) (short.of_parts (by simp))
      have back : (part :: before.reverse).reverse = before ++ [part] := by simp
      rw [List.reverse_append, List.reverse_singleton, List.singleton_append, pathsUpwards,
        Path.namesIn_append]
      by_cases idle : Path.isIdle part
      · have none : Path.namesIn [part] = [] := Path.namesIn_cons_of_isIdle idle
        rw [if_pos idle, none, List.append_nil]
        exact grows tree
      · have some : anchor ++ Path.textOf (before ++ [part]) ≠ [] := by
          intro empty
          have parts := congrArg Path.partsOf empty
          rw [anchors.partsOf_eq (by simp) whole, anchors.anchored_append_name idle] at parts
          have last := congrArg List.getLast? parts
          simp at last
          exact idle (by simp [last])
        have known := short.partsToWalk some
        rw [anchors.partsOf_eq (by simp) whole, anchors.anchored_append_name idle] at known
        have notUp : part ≠ ['.', '.'] := by
          rintro rfl
          exact noUp (by simp)
        have noUp' : ['.', '.'] ∉ Path.anchored anchor before := by
          intro up
          rcases Path.mem_of_mem_anchored up with up | up
          · cases up
          · exact noUp (by simp [up])
        rw [if_neg idle, back, Path.namesIn_cons_of_not_isIdle idle]
        rw [← anchors.of_append.namesIn_eq] at grows ⊢
        exact makeUpwards_grows known (by simp) idle notUp noUp' grows tree

/-- A path that has no names leads to the top, which is there. -/
theorem makeFolders_of_idle {path : Path} (idle : ∀ part ∈ Path.partsOf path.text, Path.isIdle part)
    (short : IsShort path.text) (some : path.text ≠ []) (tree : FileTree) :
    Grows tree [] (tree.settle path) ∧ tree.makeFolder path ≠ .error .notFound := by
  have known : partsToWalk path = .ok (Path.partsOf path.text) := short.partsToWalk some
  have opened : tree.isFolder path = true := by
    rw [isFolder_eq known, walk_idle tree.entry?_nil]
    · rfl
    · intro part inside
      rcases List.mem_append.1 inside with inside | inside
      · exact idle part inside
      · rw [List.mem_singleton.1 inside]
        rfl
  have made : tree.makeFolder path = .error .alreadyExists := by
    unfold makeFolder
    simp only [known, bind, Except.bind]
    split
    · rfl
    · rename_i last before cut
      have inside : ∀ part ∈ last :: before, Path.isIdle part := by
        intro part inside
        rw [← cut] at inside
        exact idle part (by simpa using (List.dropWhile_suffix _).subset inside)
      have occupied : last ≠ [] := by
        have head := List.head_dropWhile_not (fun part : List Char => decide (part = []))
          (l := (Path.partsOf path.text).reverse) (by rw [cut]; simp)
        simp only [cut, List.head_cons] at head
        simpa using head
      have dot : last = ['.'] := by
        have idleLast := inside last (by simp)
        simpa [Path.isIdle, occupied] using idleLast
      have walked : tree.walk [] before.reverse = .ok [] := by
        refine walk_idle tree.entry?_nil ?_
        intro part found
        exact inside part (by simp [List.mem_reverse.1 found])
      simp only [walked, entry?_nil, dot]
      rfl
  rw [settle, made, opened]
  exact ⟨rfl, by simp [FileError.alreadyExists, FileError.notFound]⟩

/-- The last name of a path stands behind parts with the anchor, and in front of idle parts. -/
theorem exists_ends_of_cut {path : Path} {name : List Char} {before : List (List Char)}
    (cut : path.parts.reverse.dropWhile Path.isIdle = name :: before) :
    ∃ ends, path.parts = before.reverse ++ name :: ends ∧
      Path.partsOf path.text = Path.anchored path.anchor before.reverse ++ name :: ends ∧
      ¬Path.isIdle name ∧ ∀ part ∈ ends, Path.isIdle part := by
  have named : ¬Path.isIdle name := by
    have head := List.head_dropWhile_not Path.isIdle (l := path.parts.reverse) (by rw [cut]; simp)
    simp only [cut, List.head_cons] at head
    simp [head]
  have parts : path.parts = before.reverse ++
      name :: (path.parts.reverse.takeWhile Path.isIdle).reverse := by
    have whole := congrArg List.reverse
      (List.takeWhile_append_dropWhile (p := Path.isIdle) (l := path.parts.reverse))
    rw [cut] at whole
    simpa using whole.symm
  refine ⟨_, parts, ?_, named, fun part inside => ?_⟩
  · have anchors := path.anchors_parts
    rw [parts] at anchors
    rw [path.partsOf_text, ← anchors.anchored_append_name named, ← parts]
  · exact List.mem_takeWhile_imp (List.mem_reverse.1 inside)

theorem isIdle_of_cut {path : Path} (cut : path.parts.reverse.dropWhile Path.isIdle = []) :
    ∀ part ∈ Path.partsOf path.text, Path.isIdle part := by
  intro part inside
  rw [path.partsOf_text] at inside
  rcases Path.mem_of_mem_anchored inside with idle | among
  · exact idle
  · exact List.dropWhile_eq_nil_iff.1 cut part (List.mem_reverse.2 among)

/-- Behind the first part of a plain path only empty parts are idle. -/
theorem eq_nil_of_isPlain {path : Path} (plain : path.IsPlain) {front ends : List (List Char)}
    {name : List Char} (parts : Path.partsOf path.text = front ++ name :: ends)
    (idle : ∀ part ∈ ends, Path.isIdle part) : ∀ part ∈ ends, part = [] := by
  intro part inside
  have behind : part ∈ (Path.partsOf path.text).tail := by
    rw [parts]
    cases front with
    | nil => exact inside
    | cons first more => simp [inside]
  have notDot : part ≠ ['.'] := by
    rintro rfl
    exact plain.2 behind
  simpa [Path.isIdle, notDot] using idle part inside

/-- A path that cannot be looked up has no folders to make. -/
theorem makeFolders_of_partsToWalk {path : Path} {error : FileError} (some : path.text ≠ [])
    (known : partsToWalk path = .error error) (tree : FileTree) :
    tree.makeFolders path = (.error error, tree) := by
  have failed : tree.makeFolder path = .error error := by
    simp only [makeFolder, known, bind, Except.bind]
  have closed : tree.isFolder path = false := by
    simp only [isFolder, locate, known, Except.bind]
  have answered : error ≠ .notFound := by
    rintro rfl
    simp only [partsToWalk, some, if_false] at known
    split_ifs at known
    · cases known
    · cases known
  rw [makeFolders, if_neg some, makeUpwards_of_ne _ (by simp [failed, answered]), settle, failed,
    closed]
  rfl

/-- A plain path with a name is grown along its names. -/
theorem makeFolders_grows_of_cut {path : Path} (plain : path.IsPlain) (short : IsShort path.text)
    (some : path.text ≠ []) {name : List Char} {before : List (List Char)}
    (cut : path.parts.reverse.dropWhile Path.isIdle = name :: before) (tree : FileTree) :
    Grows tree path.names (tree.makeFolders path) := by
  obtain ⟨ends, parts, whole, named, idle⟩ := exists_ends_of_cut cut
  have known : partsToWalk path = .ok (Path.anchored path.anchor before.reverse ++ name :: ends) := by
    rw [← whole]
    exact short.partsToWalk some
  have noUp : ['.', '.'] ∉ Path.anchored path.anchor before.reverse ++ name :: ends := by
    rw [← whole]
    exact plain.1
  rw [List.mem_append, List.mem_cons, not_or, not_or] at noUp
  have anchors := path.anchors_parts
  rw [parts] at anchors
  have above : IsShort (path.anchor ++ Path.textOf before.reverse) := by
    rw [path.text_eq, parts] at short
    exact short.of_parts (by simp)
  have grows := makeUpwards_pathsUpwards anchors.of_append
    (fun part inside => Path.not_mem_of_mem_parts (parts ▸ List.mem_append_left _ inside))
    (fun up => noUp.1 (anchors.of_append.mem_anchored (by simp) up)) above
  rw [← anchors.of_append.namesIn_eq, List.reverse_reverse] at grows
  rw [makeFolders, if_neg some, cut, Path.names, whole, Path.namesIn_append,
    Path.namesIn_cons_of_not_isIdle named, Path.namesIn_of_idle idle]
  exact makeUpwards_grows known (eq_nil_of_isPlain plain whole idle) named (Ne.symm noUp.2.1)
    noUp.1 grows tree

/-- Making the folders of a plain path is growing along its names, or fails whatever the tree. -/
theorem makeFolders_grows {path : Path} (plain : path.IsPlain) :
    (∀ tree, Grows tree path.names (tree.makeFolders path)) ∨
      ∃ error, ∀ tree : FileTree, tree.makeFolders path = (.error error, tree) := by
  by_cases some : path.text = []
  · left
    intro tree
    rw [makeFolders, if_pos some, Path.names, some]
    rfl
  · cases known : partsToWalk path with
    | error error => exact .inr ⟨error, makeFolders_of_partsToWalk some known⟩
    | ok parts =>
        obtain ⟨short, -⟩ := isShort_of_partsToWalk known
        left
        intro tree
        cases cut : path.parts.reverse.dropWhile Path.isIdle with
        | nil =>
            have idle := isIdle_of_cut cut
            obtain ⟨settles, answered⟩ := makeFolders_of_idle idle short some tree
            rw [makeFolders, if_neg some, Path.names, Path.namesIn_of_idle idle,
              makeUpwards_of_ne _ answered]
            exact settles
        | cons name before => exact makeFolders_grows_of_cut plain short some cut tree

theorem makeFolders_cases {path : Path} (plain : path.IsPlain) (tree : FileTree)
    (address : Address) :
    FileTree.entry? (tree.makeFolders path).2 address = tree.entry? address ∨
      tree.entry? address = none ∧
        FileTree.entry? (tree.makeFolders path).2 address = some .folder ∧ address <+: path.names := by
  rcases makeFolders_grows plain with grows | ⟨error, fails⟩
  · have made : (tree.makeFolders path).2 = (tree.grow [] path.names).2 :=
      congrArg Prod.snd (grows tree)
    rw [made]
    exact tree.grow_cases [] path.names address
  · rw [fails tree]
    exact .inl rfl

theorem folder_of_makeFolders {path : Path} (plain : path.IsPlain) {tree made : FileTree}
    (ok : tree.makeFolders path = (.ok (), made)) : made.entry? path.names = some .folder := by
  rcases makeFolders_grows plain with grows | ⟨error, fails⟩
  · have grown := grows tree
    rw [Grows, ok] at grown
    have folder := grow_folder tree.entry?_nil (congrArg Prod.fst grown).symm
    rwa [← grown] at folder
  · rw [fails tree] at ok
    cases ok

end FileTree

end PxdStub
