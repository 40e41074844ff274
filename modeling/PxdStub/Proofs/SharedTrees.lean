import PxdStub.Proofs.FolderGrowth

/-!
Two trees of files, one of them with folders that the other does not have. On a path where they
agree up to such folders the operations give the same answers but for the words of errors, and what
they change is the same in both trees.
-/

namespace PxdStub

namespace FileTree

/-! ### Growing in two trees -/

/-- Another tree has the same entry at an address, or it has a folder where there is nothing. -/
def AgreesAt (tree other : FileTree) (address : Address) : Prop :=
  other.entry? address = tree.entry? address ∨
    tree.entry? address = none ∧ other.entry? address = some .folder

/-- What changes in two trees lies on the way to an address, and there they agree afterwards. -/
def ChangesAlike (whole : Address) (tree other tree' other' : FileTree) : Prop :=
  ∀ address, (tree'.entry? address = tree.entry? address ∧
      other'.entry? address = other.entry? address) ∨
    address <+: whole ∧ other'.entry? address = tree'.entry? address

theorem ChangesAlike.refl (whole : Address) (tree other : FileTree) :
    ChangesAlike whole tree other tree other :=
  fun _ => .inl ⟨rfl, rfl⟩

theorem ChangesAlike.trans {whole : Address} {tree other tree' other' tree'' other'' : FileTree}
    (first : ChangesAlike whole tree other tree' other')
    (second : ChangesAlike whole tree' other' tree'' other'') :
    ChangesAlike whole tree other tree'' other'' := by
  intro address
  rcases second address with ⟨kept, kept'⟩ | alike
  · rw [kept, kept']
    exact first address
  · exact .inr alike

theorem ChangesAlike.mono {whole longer : Address} {tree other tree' other' : FileTree}
    (alike : ChangesAlike whole tree other tree' other') (within : whole <+: longer) :
    ChangesAlike longer tree other tree' other' := by
  intro address
  rcases alike address with kept | ⟨inside, same⟩
  · exact .inl kept
  · exact .inr ⟨inside.trans within, same⟩

theorem changesAlike_put {whole address : Address} {tree other other' : FileTree} {entry : Entry}
    (within : address <+: whole) (below : address ≠ [])
    (there : other'.entry? address = some entry)
    (beside : ∀ place, place ≠ address → other'.entry? place = other.entry? place) :
    ChangesAlike whole tree other (tree.put address entry) other' := by
  intro place
  by_cases same : place = address
  · subst same
    exact .inr ⟨within, there.trans (entry?_put_self tree entry below).symm⟩
  · exact .inl ⟨entry?_put_of_ne tree entry same, beside place same⟩

/-- Two trees that agree along the names give the same answer, and agree where something grew. -/
theorem grow_congr {tree other : FileTree} {here names : Address}
    (agree : ∀ address, address ≠ here → here <+: address → address <+: here ++ names →
      tree.AgreesAt other address) :
    (other.grow here names).1 = (tree.grow here names).1 ∧
      ChangesAlike (here ++ names) tree other (tree.grow here names).2
        (other.grow here names).2 := by
  induction names generalizing tree other here with
  | nil => exact ⟨rfl, .refl _ tree other⟩
  | cons name rest ih =>
      have whole : here ++ name :: rest = here ++ [name] ++ rest := by simp
      rw [whole] at agree ⊢
      have within : here ++ [name] <+: here ++ [name] ++ rest := List.prefix_append _ _
      have first := agree (here ++ [name]) (by simp) (List.prefix_append _ _) within
      have below : ∀ address, address ≠ here ++ [name] → here ++ [name] <+: address →
          address <+: here ++ [name] ++ rest → tree.AgreesAt other address := by
        intro address _ behind inside
        refine agree address ?_ ((List.prefix_append _ _).trans behind) inside
        rintro rfl
        have longer := behind.length_le
        rw [List.length_append, List.length_singleton] at longer
        omega
      rw [grow, grow]
      by_cases long : maxNameSize < Text.size name
      · simp only [long, if_true]
        exact ⟨trivial, .refl _ tree other⟩
      · simp only [long, if_false]
        cases next : tree.entry? (here ++ [name]) with
        | some entry =>
            have same : other.entry? (here ++ [name]) = some entry := by
              rcases first with same | ⟨missing, -⟩
              · rwa [← next]
              · rw [next] at missing
                cases missing
            rw [same]
            cases entry with
            | file content => exact ⟨rfl, .refl _ tree other⟩
            | folder => exact ih below
        | none =>
            -- The folder is there in both trees then, and beside it nothing changed.
            have settled (made : FileTree) (folder : made.entry? (here ++ [name]) = some .folder)
                (beside : ∀ address, address ≠ here ++ [name] →
                  made.entry? address = other.entry? address) :
                (made.grow (here ++ [name]) rest).1 =
                    ((tree.put (here ++ [name]) .folder).grow (here ++ [name]) rest).1 ∧
                  ChangesAlike (here ++ [name] ++ rest) tree other
                    ((tree.put (here ++ [name]) .folder).grow (here ++ [name]) rest).2
                    (made.grow (here ++ [name]) rest).2 := by
              have agree' : ∀ address, address ≠ here ++ [name] → here ++ [name] <+: address →
                  address <+: here ++ [name] ++ rest →
                    (tree.put (here ++ [name]) .folder).AgreesAt made address := by
                intro address apart behind inside
                rw [AgreesAt, beside address apart, entry?_put_of_ne _ _ apart]
                exact below address apart behind inside
              obtain ⟨answer, changes⟩ := ih agree'
              exact ⟨answer, (changesAlike_put within (by simp) folder beside).trans changes⟩
            rcases first with same | ⟨-, there⟩
            · rw [same, next]
              exact settled _ (entry?_put_self other _ (by simp))
                fun address apart => entry?_put_of_ne other _ apart
            · rw [there]
              exact settled other there fun address _ => rfl

/-! ### The operations -/

variable {tree other : FileTree} {path : Path}

/-- Two trees agree on the way to what a path is the path of. -/
def AgreesOn (tree other : FileTree) (path : Path) : Prop :=
  ∀ address, address <+: path.names → tree.AgreesAt other address

theorem AgreesAt.folder {address : Address} (agrees : tree.AgreesAt other address)
    (there : tree.entry? address = some .folder) : other.entry? address = some .folder := by
  rcases agrees with same | ⟨missing, -⟩
  · exact same.trans there
  · rw [there] at missing
    cases missing

theorem AgreesAt.file_iff {address : Address} (agrees : tree.AgreesAt other address)
    (content : ByteArray) :
    other.entry? address = some (.file content) ↔ tree.entry? address = some (.file content) := by
  rcases agrees with same | ⟨missing, folder⟩
  · rw [same]
  · simp [missing, folder]

theorem locate_eq_names (noUp : ['.', '.'] ∉ Path.partsOf path.text) {address : Address}
    (located : tree.locate path = .ok address) : address = path.names := by
  unfold locate at located
  cases known : partsToWalk path with
  | error error =>
      rw [known] at located
      cases located
  | ok parts =>
      obtain ⟨-, rfl⟩ := isShort_of_partsToWalk known
      rw [known] at located
      exact walk_eq_names noUp located

theorem locate_of_folders_on (noUp : ['.', '.'] ∉ Path.partsOf path.text)
    (keeps : ∀ address, address <+: path.names → tree.entry? address = some .folder →
      other.entry? address = some .folder)
    {address : Address} (located : tree.locate path = .ok address) :
    other.locate path = .ok address := by
  unfold locate at located ⊢
  cases known : partsToWalk path with
  | error error =>
      rw [known] at located
      cases located
  | ok parts =>
      obtain ⟨-, rfl⟩ := isShort_of_partsToWalk known
      rw [known] at located
      refine walk_of_folders_on noUp ?_ located
      intro address _ within
      exact keeps address within

/-- A file is found in both trees or in none. -/
theorem locate_file_iff (noUp : ['.', '.'] ∉ Path.partsOf path.text) (grounded : tree.IsGrounded)
    (agrees : tree.AgreesOn other path) (address : Address) (content : ByteArray) :
    (other.locate path = .ok address ∧ other.entry? address = some (.file content)) ↔
      tree.locate path = .ok address ∧ tree.entry? address = some (.file content) := by
  constructor
  · rintro ⟨located, file⟩
    have named := locate_eq_names noUp located
    subst named
    have own := ((agrees _ (List.prefix_refl _)).file_iff content).1 file
    refine ⟨locate_of_folders_on noUp ?_ located, own⟩
    rintro above ⟨below, whole⟩ folder
    -- Above a file there are folders; the walk does not end at one.
    by_cases last : below = []
    · subst last
      rw [List.append_nil] at whole
      rw [whole, file] at folder
      cases folder
    · exact grounded.folder_above last (by simp [whole, own])
  · rintro ⟨located, file⟩
    have named := locate_eq_names noUp located
    subst named
    exact ⟨locate_of_folders_on noUp (fun address within => (agrees address within).folder) located,
      ((agrees _ (List.prefix_refl _)).file_iff content).2 file⟩

theorem readText_ok_iff (noUp : ['.', '.'] ∉ Path.partsOf path.text) (grounded : tree.IsGrounded)
    (agrees : tree.AgreesOn other path) (text : String) :
    other.readText path = .ok text ↔ tree.readText path = .ok text := by
  simp only [readText_eq_ok_iff, ← and_assoc, locate_file_iff noUp grounded agrees]

theorem isFile_congr (noUp : ['.', '.'] ∉ Path.partsOf path.text) (grounded : tree.IsGrounded)
    (agrees : tree.AgreesOn other path) : other.isFile path = tree.isFile path := by
  rw [Bool.eq_iff_iff]
  simp only [isFile_iff, locate_file_iff noUp grounded agrees]

theorem makeFolders_congr (plain : path.IsPlain) (agrees : tree.AgreesOn other path) :
    (other.makeFolders path).1.isOk = (tree.makeFolders path).1.isOk ∧
      ChangesAlike path.names tree other (tree.makeFolders path).2 (other.makeFolders path).2 := by
  rcases makeFolders_grows plain with grows | ⟨error, fails⟩
  · have answer : ∀ tree : FileTree, (tree.makeFolders path).1.isOk = (tree.grow [] path.names).1 :=
      fun tree => congrArg Prod.fst (grows tree)
    have made : ∀ tree : FileTree, (tree.makeFolders path).2 = (tree.grow [] path.names).2 :=
      fun tree => congrArg Prod.snd (grows tree)
    rw [answer, answer, made, made]
    exact grow_congr fun address _ _ within => agrees address within
  · rw [fails, fails]
    exact ⟨rfl, .refl _ tree other⟩

/-- Where the trees agree without exception a file is written to both or to none. -/
theorem writeBytes_congr (noUp : ['.', '.'] ∉ Path.partsOf path.text)
    (same : ∀ address, address <+: path.names → other.entry? address = tree.entry? address)
    (content : ByteArray) :
    (∃ error, other.writeBytes path content = .error error ∧
        tree.writeBytes path content = .error error) ∨
      tree.entry? path.names ≠ some .folder ∧
        other.writeBytes path content = .ok (other.put path.names (.file content)) ∧
        tree.writeBytes path content = .ok (tree.put path.names (.file content)) := by
  have located : other.locate path = tree.locate path := by
    unfold locate
    cases known : partsToWalk path with
    | error error => rfl
    | ok parts =>
        obtain ⟨-, rfl⟩ := isShort_of_partsToWalk known
        exact walk_congr noUp fun address _ within => same address within
  unfold writeBytes
  rw [located]
  cases found : tree.locate path with
  | error error => exact .inl ⟨error, rfl, rfl⟩
  | ok address =>
      have named := locate_eq_names noUp found
      subst named
      simp only [bind, Except.bind, same _ (List.prefix_refl _)]
      by_cases folder : tree.entry? path.names = some .folder
      · rw [folder]
        exact .inl ⟨_, rfl, rfl⟩
      · refine .inr ⟨folder, ?_, ?_⟩
        · split
          · rename_i there
            exact absurd there folder
          · rfl
        · split
          · rename_i there
            exact absurd there folder
          · rfl

end FileTree

end PxdStub
