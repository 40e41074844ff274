import PxdStub.Proofs.FileEffects

/-!
Trees of files that are equal but for what their files contain. Paths lead to the same places in
them, and folders and files are made in the same places, or fail to be made for the same reasons.
-/

namespace PxdStub.FileTree

/-- At every address stands the same in two trees, or a file in both. -/
def SameShape (tree other : FileTree) : Prop :=
  ∀ address, (tree.entry? address = none ∧ other.entry? address = none) ∨
    (tree.entry? address = some .folder ∧ other.entry? address = some .folder) ∨
    ∃ content content', tree.entry? address = some (.file content) ∧
      other.entry? address = some (.file content')

namespace SameShape

variable {tree other : FileTree}

theorem refl (tree : FileTree) : tree.SameShape tree := by
  intro address
  rcases found : tree.entry? address with - | folder | content
  · exact .inl ⟨rfl, rfl⟩
  · exact .inr (.inl ⟨rfl, rfl⟩)
  · exact .inr (.inr ⟨content, content, rfl, rfl⟩)

/-- The same is put in both trees, or a file in both. -/
theorem put (same : tree.SameShape other) (address : Address) {entry entry' : Entry}
    (alike : entry = .folder ∧ entry' = .folder ∨
      ∃ content content', entry = .file content ∧ entry' = .file content') :
    (tree.put address entry).SameShape (other.put address entry') := by
  intro place
  by_cases here : place = address
  · subst here
    by_cases top : place = []
    · subst top
      exact .inr (.inl ⟨rfl, rfl⟩)
    · rw [entry?_put_self tree _ top, entry?_put_self other _ top]
      rcases alike with ⟨rfl, rfl⟩ | ⟨content, content', rfl, rfl⟩
      · exact .inr (.inl ⟨rfl, rfl⟩)
      · exact .inr (.inr ⟨content, content', rfl, rfl⟩)
  · rw [entry?_put_of_ne tree _ here, entry?_put_of_ne other _ here]
    exact same place

theorem walk_eq (same : tree.SameShape other) (here : Address) (parts : List (List Char)) :
    other.walk here parts = tree.walk here parts := by
  induction parts generalizing here with
  | nil => rfl
  | cons part rest ih =>
      rw [walk, walk]
      rcases same here with ⟨gone, gone'⟩ | ⟨folder, folder'⟩ | ⟨_, _, file, file'⟩
      · rw [gone, gone']
      · rw [folder, folder']
        dsimp only
        rw [ih, ih, ih]
      · rw [file, file']

theorem locate_eq (same : tree.SameShape other) (path : Path) :
    other.locate path = tree.locate path :=
  congrArg (Except.bind (partsToWalk path)) (funext (same.walk_eq []))

theorem isFolder_eq (same : tree.SameShape other) (path : Path) :
    other.isFolder path = tree.isFolder path := by
  rw [Bool.eq_iff_iff, isFolder_iff, isFolder_iff, same.locate_eq]
  refine exists_congr fun address => and_congr_right fun _ => ?_
  rcases same address with ⟨gone, gone'⟩ | ⟨folder, folder'⟩ | ⟨_, _, file, file'⟩
  · rw [gone, gone']
  · rw [folder, folder']
  · simp [file, file']

theorem isSome_entry? (same : tree.SameShape other) (address : Address) :
    (other.entry? address).isSome = (tree.entry? address).isSome := by
  rcases same address with ⟨gone, gone'⟩ | ⟨folder, folder'⟩ | ⟨_, _, file, file'⟩
  · rw [gone, gone']
  · rw [folder, folder']
  · rw [file, file']
    rfl

/-! ### Making folders -/

/-- A folder cannot be made in both trees for the same reason, or is made in both. -/
theorem makeFolder_cases (same : tree.SameShape other) (path : Path) :
    (∃ error, tree.makeFolder path = .error error ∧ other.makeFolder path = .error error) ∨
      ∃ made made', tree.makeFolder path = .ok made ∧ other.makeFolder path = .ok made' ∧
        made.SameShape made' := by
  unfold makeFolder
  cases partsToWalk path with
  | error error => exact .inl ⟨error, rfl, rfl⟩
  | ok parts =>
      simp only [bind, Except.bind]
      cases parts.reverse.dropWhile fun part => part = [] with
      | nil => exact .inl ⟨_, rfl, rfl⟩
      | cons last before =>
          dsimp only
          rw [same.walk_eq]
          cases tree.walk [] before.reverse with
          | error error => exact .inl ⟨error, rfl, rfl⟩
          | ok above =>
              dsimp only
              rw [same.isSome_entry?]
              rcases same above with ⟨gone, gone'⟩ | ⟨folder, folder'⟩ | ⟨_, _, file, file'⟩
              · rw [gone, gone']
                exact .inl ⟨_, rfl, rfl⟩
              · rw [folder, folder']
                dsimp only
                split_ifs
                · exact .inl ⟨_, rfl, rfl⟩
                · exact .inl ⟨_, rfl, rfl⟩
                · exact .inl ⟨_, rfl, rfl⟩
                · exact .inr ⟨_, _, rfl, rfl, same.put _ (.inl ⟨rfl, rfl⟩)⟩
              · rw [file, file']
                exact .inl ⟨_, rfl, rfl⟩

theorem makeUpwards (same : tree.SameShape other) (paths : List Path) :
    (other.makeUpwards paths).1 = (tree.makeUpwards paths).1 ∧
      (tree.makeUpwards paths).2.SameShape (other.makeUpwards paths).2 := by
  induction paths with
  | nil => exact ⟨rfl, same⟩
  | cons path above ih =>
      rw [FileTree.makeUpwards, FileTree.makeUpwards]
      rcases same.makeFolder_cases path with ⟨error, failed, failed'⟩ | ⟨made, made', ok, ok', alike⟩
      · rw [failed, failed']
        dsimp only
        by_cases missing : error = .notFound
        · rw [if_pos missing, if_pos missing]
          cases opened : tree.makeUpwards above with
          | mk result between =>
            cases opened' : other.makeUpwards above with
            | mk result' between' =>
              rw [opened, opened'] at ih
              obtain ⟨rfl, alike⟩ := ih
              cases result' with
              | error error => exact ⟨rfl, alike⟩
              | ok =>
                  dsimp only
                  rcases alike.makeFolder_cases path with
                    ⟨error, failed, failed'⟩ | ⟨made, made', ok, ok', alike'⟩
                  · rw [failed, failed', alike.isFolder_eq]
                    exact ⟨rfl, alike⟩
                  · rw [ok, ok']
                    exact ⟨rfl, alike'⟩
        · rw [if_neg missing, if_neg missing, same.isFolder_eq]
          exact ⟨rfl, same⟩
      · rw [ok, ok']
        exact ⟨rfl, alike⟩

theorem makeFolders (same : tree.SameShape other) (path : Path) :
    (other.makeFolders path).1 = (tree.makeFolders path).1 ∧
      (tree.makeFolders path).2.SameShape (other.makeFolders path).2 := by
  unfold FileTree.makeFolders
  split_ifs
  · exact ⟨rfl, same⟩
  · exact same.makeUpwards _

/-! ### Writing a file -/

end SameShape

end PxdStub.FileTree
