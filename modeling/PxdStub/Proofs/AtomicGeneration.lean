import PxdStub.Generation
import PxdStub.Proofs.FolderGrowth
import PxdStub.Proofs.SortedKeys

/-!
Making a stub is atomic on a tree of files. As long as something can still go wrong with header or
source nothing is written, and a stub that is written is all that changes but for the folders
that lead to it.
-/

namespace PxdStub

/-! ### Merged names -/

namespace Text

theorem le_total (left right : List Char) : le left right || le right left := by
  induction left generalizing right with
  | nil => rfl
  | cons a left ih =>
      cases right with
      | nil => rfl
      | cons b right =>
          by_cases same : a = b
          · subst same
            simpa [le] using ih right
          · have flipped : ¬b = a := Ne.symm same
            simp only [le, same, flipped, if_false, Bool.or_eq_true, decide_eq_true_eq]
            omega

theorem le_antisymm {left right : List Char} (first : le left right) (second : le right left) :
    left = right := by
  induction left generalizing right with
  | nil =>
      cases right with
      | nil => rfl
      | cons b right => cases second
  | cons a left ih =>
      cases right with
      | nil => cases first
      | cons b right =>
          by_cases same : a = b
          · subst same
            simp only [le, if_true] at first second
            rw [ih first second]
          · have flipped : ¬b = a := Ne.symm same
            simp only [le, same, flipped, if_false, decide_eq_true_eq] at first second
            exact absurd (Char.toNat_inj.1 (Nat.le_antisymm first second)) same

theorem le_trans {left middle right : List Char} (first : le left middle)
    (second : le middle right) : le left right := by
  induction left generalizing middle right with
  | nil => rfl
  | cons a left ih =>
      cases middle with
      | nil => cases first
      | cons b middle =>
          cases right with
          | nil => cases second
          | cons c right =>
              simp only [le] at first second ⊢
              split_ifs at first second ⊢ with ab bc ac
              all_goals grind [Char.toNat_inj]

end Text

/-- Names in strict order. -/
def IsAscending (names : List String) : Prop :=
  names.Pairwise fun left right => Text.le left.toList right.toList ∧ left ≠ right

/-- The names are those of two lists, each of them once and in order. -/
structure Merges (own further names : List String) : Prop where
  ascending : IsAscending names
  mem_iff : ∀ name, name ∈ names ↔ name ∈ own ∨ name ∈ further

theorem ordersNames :
    OrdersKeys (fun left right : String => Text.le left.toList right.toList) id where
  total _ _ := Text.le_total _ _
  trans _ _ _ := Text.le_trans
  antisymm _ _ first second := String.toList_inj.1 (Text.le_antisymm first second)
  congr left right same := by
    cases (show left = right from same)
    simpa using Text.le_total left.toList left.toList

theorem merges_sortedNames (own further : List String) :
    Merges own further (sortedNames (own ++ further)) where
  ascending := ordersNames.isStrict_sorted _
  mem_iff name := by
    have kept : name ∈ (sortedNames (own ++ further)).map id ↔ _ :=
      ordersNames.mem_keys_sorted_iff (own ++ further)
    rwa [List.map_id, List.map_id, List.mem_append] at kept

namespace Job

variable {job : Job} {options : Options} {tree : FileTree}

/-! ### What is read -/

/-- Header and source can be read, and so can what their texts say. A source that is not there adds
no modules. -/
structure Reads (job : Job) (tree : FileTree) (header : Header) (own further : List String) :
    Prop where
  header : ∃ text, tree.readText job.header = .ok text ∧
    (Header.ofText text.toList).result = .ok header ∧ job.modulesOf text = .ok own
  source : if tree.isFile job.source then
      ∃ text, tree.readText job.source = .ok text ∧ job.modulesOf text = .ok further
    else further = []

/-- The text of the source of a job, where there is a source. -/
def source? (job : Job) (tree : FileTree) : Option (Except FileError String) :=
  if tree.isFile job.source then some (tree.readText job.source) else none

theorem isSome_source? : (job.source? tree).isSome = tree.isFile job.source := by
  unfold source?
  cases tree.isFile job.source <;> rfl

theorem exists_of_modules {text : String} {modules : List String}
    (ok : job.modules text (job.source? tree) = .ok modules) :
    ∃ own further, job.modulesOf text = .ok own ∧
      (if tree.isFile job.source then
        ∃ source, tree.readText job.source = .ok source ∧ job.modulesOf source = .ok further
      else further = []) ∧ modules = sortedNames (own ++ further) := by
  unfold Job.modules at ok
  cases found : job.modulesOf text with
  | error error =>
      rw [found] at ok
      cases ok
  | ok own =>
      simp only [found, bind, Except.bind] at ok
      by_cases there : tree.isFile job.source
      · simp only [source?, there, if_true] at ok ⊢
        cases read : tree.readText job.source with
        | error cause =>
            rw [read] at ok
            cases ok
        | ok source =>
            rw [read] at ok
            cases further : job.modulesOf source with
            | error error =>
                simp only [further] at ok
                cases ok
            | ok further' =>
                simp only [further] at ok
                cases ok
                exact ⟨own, further', rfl, ⟨source, rfl, further⟩, rfl⟩
      · simp only [source?, there, Bool.false_eq_true, if_false] at ok ⊢
        cases ok
        exact ⟨own, [], rfl, rfl, by rw [List.append_nil]⟩

theorem prepare_eq_ok_iff {text : String} {read? : Option (Except FileError String)}
    {log : List LogLine} {stub : Stub} {summary : Summary} :
    job.prepare options text read? = (log, .ok (stub, summary)) ↔
      ∃ modules header, job.modules text read? = .ok modules ∧
        (Header.ofText text.toList).result = .ok header ∧
        log = (Header.ofText text.toList).notes.map Note.line ++ [job.headerLine header modules] ∧
        stub = job.stubOf options read?.isSome modules header ∧
        summary = job.summaryOf modules header := by
  unfold prepare
  cases job.modules text read? with
  | error error => simp
  | ok modules =>
      dsimp only
      cases (Header.ofText text.toList).result with
      | error error => simp
      | ok header => simp [eq_comm]

/-- A stub that can be prepared is the one of the parsed header and the merged modules. -/
theorem reads_of_prepare {text : String} {log : List LogLine} {stub : Stub} {summary : Summary}
    (read : tree.readText job.header = .ok text)
    (prepared : job.prepare options text (job.source? tree) = (log, .ok (stub, summary))) :
    ∃ header own further, job.Reads tree header own further ∧
      stub = job.stubOf options (tree.isFile job.source) (sortedNames (own ++ further)) header ∧
      summary = job.summaryOf (sortedNames (own ++ further)) header := by
  obtain ⟨modules, header, merged, parsed, _, rfl, rfl⟩ := prepare_eq_ok_iff.1 prepared
  obtain ⟨own, further, ofHeader, ofSource, rfl⟩ := exists_of_modules merged
  exact ⟨header, own, further, ⟨⟨text, read, parsed, ofHeader⟩, ofSource⟩, by rw [isSome_source?],
    rfl⟩

/-- A conversion that stops before anything is written could not read or parse something. -/
def StopsEarly (error : StubError) : Prop :=
  (∃ path cause, error = .read path cause) ∨ ∃ path cause, error = .parse path cause

theorem stopsEarly_of_modulesOf {text : String} {error : StubError}
    (failed : job.modulesOf text = .error error) : StopsEarly error := by
  unfold modulesOf at failed
  split at failed
  · cases failed
  · cases failed
    exact .inr ⟨_, _, rfl⟩

theorem stopsEarly_of_modules {text : String} {source? : Option (Except FileError String)}
    {error : StubError} (failed : job.modules text source? = .error error) :
    StopsEarly error := by
  unfold Job.modules at failed
  cases found : job.modulesOf text with
  | error early =>
      rw [found] at failed
      cases failed
      exact stopsEarly_of_modulesOf found
  | ok own =>
      simp only [found, bind, Except.bind] at failed
      rcases source? with - | cause | source
      · cases failed
      · cases failed
        exact .inl ⟨_, _, rfl⟩
      · cases further : job.modulesOf source with
        | error early =>
            simp only [further] at failed
            cases failed
            exact stopsEarly_of_modulesOf further
        | ok further' =>
            simp only [further] at failed
            cases failed

theorem stopsEarly_of_prepare {text : String} {source? : Option (Except FileError String)}
    {log : List LogLine} {error : StubError}
    (failed : job.prepare options text source? = (log, .error error)) : StopsEarly error := by
  unfold prepare at failed
  cases merged : job.modules text source? with
  | error early =>
      rw [merged] at failed
      cases failed
      exact stopsEarly_of_modules merged
  | ok modules =>
      simp only [merged] at failed
      split at failed
      · cases failed
        exact .inr ⟨_, _, rfl⟩
      · cases failed

/-! ### What is written -/

/-- The stub stands in its folder, and nothing else is new but folders on the way there. -/
structure Places (job : Job) (stub : Stub) (before after : FileTree) : Prop where
  stub : after.readText job.stub = .ok stub.render
  folder : job.folder.text = [] ∨ after.isFolder job.folder = true
  others : ∃ place, after.locate job.stub = .ok place ∧ ∀ address, address ≠ place →
    after.entry? address = before.entry? address ∨
      before.entry? address = none ∧ after.entry? address = some .folder ∧
        after.OnWay job.folder address

/-- A stub is placed, or what cannot be written leaves nothing but folders on the way. -/
theorem write_cases (job : Job) (stub : Stub) (tree : FileTree) :
    (∃ after, (job.write stub : StateM FileTree _).run tree = (.ok (), after) ∧
        job.Places stub tree after) ∨
      ∃ path cause after, (job.write stub : StateM FileTree _).run tree =
        (.error (.write path cause), after) ∧ tree.AddsOnWay job.folder after := by
  cases opened : tree.makeFolders job.folder with
  | mk result made =>
    have adds : tree.AddsOnWay job.folder made := by
      have adds := FileTree.makeFolders_addsOnWay tree job.folder
      rwa [opened] at adds
    unfold write
    rw [FileTree.run_bind ((FileTree.run_makeFolders tree job.folder).trans opened)]
    cases result with
    | error cause => exact .inr ⟨job.folder, cause, made, rfl, adds⟩
    | ok =>
        cases wrote : made.writeBytes job.stub stub.render.toUTF8 with
        | error cause =>
            have ran := FileTree.run_writeText_error wrote
            exact .inr ⟨job.stub, cause, made, FileTree.run_bind ran, adds⟩
        | ok after =>
            have ran := FileTree.run_writeText_ok wrote
            refine .inl ⟨after, FileTree.run_bind ran, ?_⟩
            obtain ⟨place, located, free, rfl⟩ := FileTree.writeBytes_ok wrote
            have keeps : ∀ address, made.entry? address = some .folder →
                FileTree.entry? (made.put place (.file stub.render.toUTF8)) address =
                  some .folder :=
              fun _ => FileTree.folder_of_put free
            refine ⟨FileTree.readText_of_writeBytes wrote, ?_, place,
              FileTree.locate_of_folders keeps located, ?_⟩
            · rcases FileTree.isFolder_of_makeFolders opened with unnamed | there
              · exact .inl unnamed
              · exact .inr (FileTree.isFolder_of_folders keeps there)
            · intro address elsewhere
              rw [FileTree.entry?_put_of_ne _ _ elsewhere]
              rcases adds address with same | ⟨missing, new, onWay⟩
              · exact .inl same
              · exact .inr ⟨missing, new, onWay.of_folders keeps⟩

/-! ### A whole conversion -/

/-- What a conversion does once header and source are read. -/
def conclude {m : Type → Type} [Monad m] [Files m] (job : Job) (options : Options) (text : String)
    (source? : Option (Except FileError String)) : m (List LogLine × Except StubError Summary) :=
  match job.prepare options text source? with
  | (log, .error error) => return (log, .error error)
  | (log, .ok (stub, summary)) => do
      match ← job.write stub with
      | .error error => return (log, .error error)
      | .ok () => return (log ++ [⟨.info, .generation, "wrote " ++ job.stub.toString⟩], .ok summary)

theorem generate_eq {m : Type → Type} [Monad m] [LawfulMonad m] [Files m] (job : Job)
    (options : Options) :
    (job.generate options : m _) = (do
      match ← Files.readText job.header with
      | .error cause => return ([], .error (.read job.header cause))
      | .ok text =>
          if ← Files.isFile job.source then
            let read ← Files.readText job.source
            job.conclude options text (some read)
          else job.conclude options text none) := by
  unfold generate
  refine bind_congr ?_
  rintro (cause | text)
  · rfl
  · refine bind_congr ?_
    rintro (there | there)
    · exact pure_bind none _
    · exact bind_congr fun read => pure_bind (some read) _

theorem run_generate_of_error {cause : FileError} (read : tree.readText job.header = .error cause) :
    (job.generate options : StateM FileTree _).run tree =
      (([], .error (.read job.header cause)), tree) := by
  rw [generate_eq, FileTree.run_bind (FileTree.run_readText tree job.header), read]
  rfl

theorem run_generate_of_text {text : String} (read : tree.readText job.header = .ok text) :
    (job.generate options : StateM FileTree _).run tree =
      (job.conclude options text (job.source? tree) : StateM FileTree _).run tree := by
  rw [generate_eq, FileTree.run_bind (FileTree.run_readText tree job.header), read]
  dsimp only
  rw [FileTree.run_bind (FileTree.run_isFile tree job.source), source?]
  split_ifs
  · exact FileTree.run_bind (FileTree.run_readText tree job.source)
  · rfl

theorem generate_atomic (job : Job) (options : Options) (tree : FileTree) :
    match (job.generate options : StateM FileTree _).run tree with
    | ((_, .ok summary), after) =>
        ∃ header own further modules, job.Reads tree header own further ∧
          Merges own further modules ∧ summary = job.summaryOf modules header ∧
          job.Places (job.stubOf options (tree.isFile job.source) modules header) tree after
    | ((_, .error (.read _ _)), after) => after = tree
    | ((_, .error (.parse _ _)), after) => after = tree
    | ((_, .error (.write _ _)), after) => tree.AddsOnWay job.folder after
    | ((_, .error (.outsideHome _)), _) => False
    | ((_, .error (.pattern _ _)), _) => False
    | ((_, .error (.glob _)), _) => False := by
  cases read : tree.readText job.header with
  | error cause => rw [run_generate_of_error read]
  | ok text =>
      rw [run_generate_of_text read, conclude]
      rcases prepared : job.prepare options text (job.source? tree) with
        ⟨log, error | ⟨stub, summary⟩⟩
      · rcases stopsEarly_of_prepare prepared with ⟨path, cause, rfl⟩ | ⟨path, cause, rfl⟩
        · rfl
        · rfl
      · obtain ⟨header, own, further, reads, rfl, rfl⟩ := reads_of_prepare read prepared
        dsimp only
        rcases write_cases job _ tree with
          ⟨after, wrote, places⟩ | ⟨path, cause, after, failed, adds⟩
        · rw [FileTree.run_bind wrote]
          exact ⟨header, own, further, _, reads, merges_sortedNames own further, rfl, places⟩
        · rw [FileTree.run_bind failed]
          exact adds

end Job

end PxdStub
