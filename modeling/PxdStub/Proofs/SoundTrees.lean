import PxdStub.Proofs.FolderGrowth
import PxdStub.Proofs.Reading

/-!
Trees of files as file systems have them: names that stand for themselves, and folders above all
that is there. Paths that spell out names lead down in them, and every operation leaves them sound.
-/

namespace PxdStub

namespace FileTree

variable {tree : FileTree}

/-! ### Sound trees -/

/-- A name that an entry can have. -/
structure IsName (name : List Char) : Prop where
  named : ¬Path.isIdle name
  notUp : name ≠ ['.', '.']
  whole : '/' ∉ name
  noNul : '\x00' ∉ name
  short : Text.size name ≤ maxNameSize

instance (name : List Char) : Decidable (IsName name) :=
  decidable_of_iff (¬Path.isIdle name ∧ name ≠ ['.', '.'] ∧ '/' ∉ name ∧ '\x00' ∉ name ∧
      Text.size name ≤ maxNameSize)
    ⟨fun ⟨named, notUp, whole, noNul, short⟩ => ⟨named, notUp, whole, noNul, short⟩,
      fun valid => ⟨valid.named, valid.notUp, valid.whole, valid.noNul, valid.short⟩⟩

/-- A tree as a file system has it: its entries have names, and each of them stands in a folder. -/
structure IsSound (tree : FileTree) : Prop where
  grounded : tree.IsGrounded
  named : ∀ placed ∈ tree.entries, ∀ name ∈ placed.1, IsName name

theorem mem_of_entry?_eq_some {address : Address} {entry : Entry} (below : address ≠ [])
    (there : tree.entry? address = some entry) : (address, entry) ∈ tree.entries := by
  unfold entry? at there
  rw [if_neg below, Option.map_eq_some_iff] at there
  obtain ⟨⟨place, _⟩, found, rfl⟩ := there
  have same : place = address := by simpa using List.find?_some found
  exact same ▸ List.mem_of_find?_eq_some found

theorem entry?_of_mem {address : Address} {entry : Entry}
    (inside : (address, entry) ∈ tree.entries) : tree.entry? address ≠ none := by
  unfold entry?
  split
  · simp
  · simp only [ne_eq, Option.map_eq_none_iff, List.find?_eq_none, not_forall]
    exact ⟨_, inside, by simp⟩

/-! ### Operations -/

theorem isName_of_mem_parts {path : Path} {parts : List (List Char)}
    (known : partsToWalk path = .ok parts) {part : List Char} (inside : part ∈ parts)
    (named : ¬Path.isIdle part) (notUp : part ≠ ['.', '.']) (short : Text.size part ≤ maxNameSize) :
    IsName part := by
  obtain ⟨noNul, rfl⟩ := isShort_of_partsToWalk known
  refine ⟨named, notUp, Path.not_mem_of_mem_partsOf inside, ?_, short⟩
  exact fun nul => noNul.1 ((Path.infix_of_mem_partsOf inside).subset nul)

theorem isName_of_walk {path : Path} {parts : List (List Char)}
    (known : partsToWalk path = .ok parts) {here there : Address} {rest : List (List Char)}
    (walked : tree.walk here rest = .ok there) (inside : ∀ part ∈ rest, part ∈ parts)
    (start : ∀ name ∈ here, IsName name) : ∀ name ∈ there, IsName name := by
  induction rest generalizing here with
  | nil =>
      cases walked
      exact start
  | cons part rest ih =>
      obtain ⟨here', later⟩ := List.forall_mem_cons.1 inside
      unfold walk at walked
      split at walked
      · cases walked
      · cases walked
      · split_ifs at walked with idle up long
        · exact ih walked later start
        · exact ih walked later fun name among => start name (List.mem_of_mem_dropLast among)
        · refine ih walked later fun name among => ?_
          rcases List.mem_append.1 among with before | last
          · exact start name before
          · obtain rfl := List.mem_singleton.1 last
            exact isName_of_mem_parts known here' idle up (Nat.not_lt.1 long)

namespace IsSound

theorem of_empty : empty.IsSound :=
  ⟨isGrounded_empty, by simp [empty]⟩

theorem isName (sound : tree.IsSound) {address : Address} (there : tree.entry? address ≠ none) :
    ∀ name ∈ address, IsName name := by
  obtain ⟨entry, found⟩ := Option.ne_none_iff_exists'.1 there
  by_cases top : address = []
  · simp [top]
  · exact sound.named _ (mem_of_entry?_eq_some top found)

theorem put (sound : tree.IsSound) {above : Address} {name : List Char} {entry : Entry}
    (folder : tree.entry? above = some .folder)
    (free : tree.entry? (above ++ [name]) ≠ some .folder) (valid : IsName name) :
    (tree.put (above ++ [name]) entry).IsSound := by
  refine ⟨sound.grounded.put folder free, ?_⟩
  intro placed inside
  rcases List.mem_cons.1 inside with rfl | other
  · intro part among
    rcases List.mem_append.1 among with before | last
    · exact sound.isName (by simp [folder]) part before
    · rwa [List.mem_singleton.1 last]
  · exact sound.named placed (List.mem_filter.1 other).1

theorem makeFolders (sound : tree.IsSound) (path : Path) : (tree.makeFolders path).2.IsSound := by
  refine holds_makeFolders ?_ path sound
  intro tree made path sound ok
  obtain ⟨before, ends, last, above, known, -, -, folder, named, notUp, short, missing, rfl⟩ :=
    makeFolder_ok ok
  exact sound.put folder (by simp [missing])
    (isName_of_mem_parts known (by simp) named notUp short)

theorem writeBytes (sound : tree.IsSound) {written : FileTree} {path : Path}
    {content : ByteArray} (ok : tree.writeBytes path content = .ok written) : written.IsSound := by
  obtain ⟨address, located, free, rfl⟩ := writeBytes_ok ok
  obtain ⟨parts, known, walked⟩ := Except.bind_ok_iff.1 located
  have valid := isName_of_walk known walked (fun _ => id) (by simp)
  rcases sound.grounded.of_walk walked (.inl rfl) with rfl | ⟨above, name, rfl, folder⟩
  · exact absurd rfl free
  · exact sound.put folder free (valid name (by simp))

end IsSound

/-! ### Walks along spellings -/

theorem locate_eq_ok_iff {path : Path} {address : Address} :
    tree.locate path = .ok address ↔ path.text ≠ [] ∧ IsShort path.text ∧
      tree.walk [] (Path.partsOf path.text) = .ok address := by
  unfold locate
  constructor
  · intro located
    obtain ⟨parts, known, walked⟩ := Except.bind_ok_iff.1 located
    obtain ⟨short, rfl⟩ := isShort_of_partsToWalk known
    refine ⟨?_, short, walked⟩
    intro empty
    simp [partsToWalk, empty] at known
  · rintro ⟨some, short, walked⟩
    rw [short.partsToWalk some]
    exact walked

/-- Idle parts make no difference in front of other parts. -/
theorem walk_behind_idle (tree : FileTree) (here : Address) {idle parts : List (List Char)}
    (skipped : ∀ part ∈ idle, Path.isIdle part) (more : parts ≠ []) :
    tree.walk here (idle ++ parts) = tree.walk here parts := by
  induction idle with
  | nil => rfl
  | cons first rest ih =>
      obtain ⟨first', others⟩ := List.forall_mem_cons.1 skipped
      obtain ⟨part, parts, rfl⟩ := List.exists_cons_of_ne_nil more
      rw [List.cons_append, walk]
      split
      · next missing => simp only [walk, missing]
      · next file => simp only [walk, file]
      · rw [if_pos first']
        exact ih others

/-- Names lead down to what stands below a folder. -/
theorem IsSound.walk_names (sound : tree.IsSound) {here names : Address}
    (valid : ∀ name ∈ names, IsName name) (there : tree.entry? (here ++ names) ≠ none) :
    tree.walk here names = .ok (here ++ names) := by
  induction names generalizing here with
  | nil => rw [List.append_nil, walk]
  | cons name rest ih =>
      obtain ⟨first, others⟩ := List.forall_mem_cons.1 valid
      have folder := sound.grounded.folder_above (List.cons_ne_nil name rest) there
      have short : ¬maxNameSize < Text.size name := Nat.not_lt.2 first.short
      rw [List.append_cons] at there ⊢
      simp only [walk, folder, first.named, first.notUp, short, if_false, Bool.false_eq_true]
      exact ih others there

end FileTree

end PxdStub
