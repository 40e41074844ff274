import Mathlib.Data.List.Forall2
import PxdStub.Proofs.FileProcesses
import PxdStub.Proofs.SharedTrees

/-!
The order of a batch does not matter. Conversions whose stubs stay out of each other's way give what
each gives alone, in whatever order their operations on files are carried out, and leave the same
files. A folder that two of them make is the one thing that both change.
-/

namespace PxdStub

/-! ### Conversions that are alike -/

/-- The error with another cause, where the cause comes from the operating system. -/
def StubError.withCause (cause : FileError) : StubError → StubError
  | .read path _ => .read path cause
  | .write path _ => .write path cause
  | error => error

/-- Outcomes that are the same but for what the operating system says about an error. -/
def SameButCause {α : Type} (outcome outcome' : Except StubError α) : Prop :=
  ∀ cause, outcome.mapError (StubError.withCause cause) =
    outcome'.mapError (StubError.withCause cause)

/-- Conversions with the same log and outcome, but for what the operating system says. -/
def Conversion.Alike (conversion other : Conversion) : Prop :=
  conversion.1 = other.1 ∧ SameButCause conversion.2 other.2

namespace Conversion.Alike

theorem refl (conversion : Conversion) : conversion.Alike conversion :=
  ⟨rfl, fun _ => rfl⟩

theorem symm {conversion other : Conversion} (alike : conversion.Alike other) :
    other.Alike conversion :=
  ⟨alike.1.symm, fun cause => (alike.2 cause).symm⟩

theorem trans {first second third : Conversion} (alike : first.Alike second)
    (alike' : second.Alike third) : first.Alike third :=
  ⟨alike.1.trans alike'.1, fun cause => (alike.2 cause).trans (alike'.2 cause)⟩

end Conversion.Alike

/-! ### Jobs that stay out of each other's way -/

namespace Job

/-- The paths of a job do not go up, and the one of its stub has no dots but at its start. -/
structure IsPlain (job : Job) : Prop where
  header : ['.', '.'] ∉ Path.partsOf job.header.text
  source : ['.', '.'] ∉ Path.partsOf job.source.text
  stub : job.stub.IsPlain

/-- The stub of a job is neither one of the files of another job nor above one of them. -/
structure Spares (job other : Job) : Prop where
  header : ¬job.stub.names <+: other.header.names
  source : ¬job.stub.names <+: other.source.names
  stub : ¬job.stub.names <+: other.stub.names

instance (job : Job) : Decidable job.IsPlain :=
  decidable_of_iff (['.', '.'] ∉ Path.partsOf job.header.text ∧
      ['.', '.'] ∉ Path.partsOf job.source.text ∧
      ['.', '.'] ∉ Path.partsOf job.stub.text ∧ ['.'] ∉ (Path.partsOf job.stub.text).tail)
    ⟨fun ⟨header, source, stub⟩ => ⟨header, source, stub⟩,
      fun ⟨header, source, stub⟩ => ⟨header, source, stub⟩⟩

instance (job other : Job) : Decidable (job.Spares other) :=
  decidable_of_iff (¬job.stub.names <+: other.header.names ∧
      ¬job.stub.names <+: other.source.names ∧ ¬job.stub.names <+: other.stub.names)
    ⟨fun ⟨header, source, stub⟩ => ⟨header, source, stub⟩,
      fun ⟨header, source, stub⟩ => ⟨header, source, stub⟩⟩

theorem mem_parts_of_fileName? {path : Path} {name : List Char}
    (found : path.fileName? = some name) : name ∈ path.parts := by
  unfold Path.fileName? at found
  cases last : path.components.getLast? with
  | none =>
      rw [last] at found
      cases found
  | some component =>
      rw [last] at found
      have inside := List.mem_of_getLast? last
      cases component with
      | name text =>
          cases found
          rw [Path.components, List.mem_append] at inside
          rcases inside with inside | inside
          · unfold Path.anchorComponents at inside
            split at inside <;> simp at inside
          · rw [List.mem_map] at inside
            obtain ⟨part, kept, made⟩ := inside
            unfold Component.ofPart at made
            split at made
            · cases made
            · cases made
              exact (List.mem_filter.1 kept).1
      | _ => cases found

theorem not_mem_fileStem (path : Path) : '/' ∉ path.fileStem?.getD [] := by
  unfold Path.fileStem?
  cases found : path.fileName? with
  | none => simp
  | some name =>
      have whole : '/' ∉ name := Path.not_mem_of_mem_partsOf (mem_parts_of_fileName? found)
      simp only [Option.map_some, Option.getD_some, Path.stemOf]
      split
      · exact whole
      · intro inside
        rw [List.mem_reverse] at inside
        have behind := (List.dropWhile_suffix _).subset (List.mem_of_mem_drop inside)
        exact whole (List.mem_reverse.1 behind)

/-- A stub stands in its folder under a name of its own. -/
theorem exists_name_of_ofHeader {header : Path} {options : Options} {job : Job}
    (known : Job.ofHeader header options = .ok job) :
    ∃ name, '/' ∉ name ∧ ¬Path.isIdle name ∧ job.stub = job.folder.join ⟨name⟩ := by
  unfold ofHeader at known
  cases folder : folderOf header options with
  | error error =>
      rw [folder] at known
      cases known
  | ok folder' =>
      rw [folder] at known
      cases known
      refine ⟨header.fileStem?.getD [] ++ ".pxd".toList, ?_, ?_, rfl⟩
      · rw [List.mem_append, not_or]
        exact ⟨not_mem_fileStem header, by decide⟩
      · intro idle
        simp [Path.isIdle, List.append_eq_singleton_iff] at idle

theorem names_of_ofHeader {header : Path} {options : Options} {job : Job}
    (known : Job.ofHeader header options = .ok job) :
    ∃ name, job.stub.names = job.folder.names ++ [name] := by
  obtain ⟨name, whole, named, stub⟩ := exists_name_of_ofHeader known
  exact ⟨name, by rw [stub, Path.names_join whole named]⟩

theorem isPlain_folder {header : Path} {options : Options} {job : Job}
    (known : Job.ofHeader header options = .ok job) (plain : job.IsPlain) :
    job.folder.IsPlain := by
  obtain ⟨name, whole, named, stub⟩ := exists_name_of_ofHeader known
  have plainStub := plain.stub
  rw [stub] at plainStub
  exact Path.isPlain_of_join whole plainStub

/-! ### Conversions step by step -/

/-- Two runs of a job that ask for the same, whatever an error says. The stub is written only when
its folder was opened. What both come to is related for the state that the folder is in. -/
inductive Follows {α : Type} (R : Bool → α → α → Prop) (job : Job) :
    Bool → Process α → Process α → Prop
  | done {opened : Bool} {value value' : α} (related : R opened value value') :
      Follows R job opened (.done value) (.done value')
  | read {opened : Bool} {path : Path} {next next' : Except FileError String → Process α}
      (own : path = job.header ∨ path = job.source)
      (ok : ∀ text, Follows R job opened (next (.ok text)) (next' (.ok text)))
      (failed : ∀ cause cause',
        Follows R job opened (next (.error cause)) (next' (.error cause'))) :
      Follows R job opened (.ask (.readText path) next) (.ask (.readText path) next')
  | look {opened : Bool} {next next' : Bool → Process α}
      (found : ∀ there, Follows R job opened (next there) (next' there)) :
      Follows R job opened (.ask (.isFile job.source) next) (.ask (.isFile job.source) next')
  | makeFolders {opened : Bool} {next next' : Except FileError Unit → Process α}
      (ok : Follows R job true (next (.ok ())) (next' (.ok ())))
      (failed : ∀ cause cause',
        Follows R job opened (next (.error cause)) (next' (.error cause'))) :
      Follows R job opened (.ask (.makeFolders job.folder) next)
        (.ask (.makeFolders job.folder) next')
  | write {text : String} {next next' : Except FileError Unit → Process α}
      (answered : ∀ answer, Follows R job true (next answer) (next' answer)) :
      Follows R job true (.ask (.writeText job.stub text) next)
        (.ask (.writeText job.stub text) next')

theorem Follows.bind {α β : Type} {R : Bool → α → α → Prop} {S : Bool → β → β → Prop} {job : Job}
    {opened : Bool} {process process' : Process α} {rest rest' : α → Process β}
    (first : Follows R job opened process process')
    (second : ∀ opened value value', R opened value value' →
      Follows S job opened (rest value) (rest' value')) :
    Follows S job opened (process >>= rest) (process' >>= rest') := by
  induction first with
  | done related => exact second _ _ _ related
  | read own ok failed ihOk ihFailed => exact .read own ihOk ihFailed
  | look found ih => exact .look ih
  | makeFolders ok failed ihOk ihFailed => exact .makeFolders ihOk ihFailed
  | write answered ih => exact .write ih

theorem follows_write (job : Job) (stub : Stub) (opened : Bool) :
    Follows (fun _ => SameButCause) job opened (job.write stub) (job.write stub) := by
  refine .makeFolders (.write ?_) ?_
  · rintro (cause | ok)
    · exact .done fun _ => rfl
    · exact .done fun _ => rfl
  · intro cause cause'
    exact .done fun _ => rfl

/-- What is prepared from a source that cannot be read depends on the error in its words alone. -/
theorem prepare_error (job : Job) (options : Options) (text : String) (cause cause' : FileError) :
    ∃ error error', job.prepare options text (some (.error cause)) = ([], .error error) ∧
      job.prepare options text (some (.error cause')) = ([], .error error') ∧
      SameButCause (.error error : Except StubError Summary) (.error error') := by
  unfold prepare Job.modules
  cases job.modulesOf text with
  | error error => exact ⟨error, error, rfl, rfl, fun _ => rfl⟩
  | ok own => exact ⟨.read job.source cause, .read job.source cause', rfl, rfl, fun _ => rfl⟩

theorem follows_conclude (job : Job) (options : Options) (text : String)
    (source? : Option (Except FileError String)) (opened : Bool) :
    Follows (fun _ => Conversion.Alike) job opened (job.conclude options text source?)
      (job.conclude options text source?) := by
  unfold conclude
  rcases job.prepare options text source? with ⟨log, error | ⟨stub, summary⟩⟩
  · exact .done (.refl _)
  · refine (follows_write job stub opened).bind ?_
    rintro opened' (error | ok) (error' | ok') same
    · refine .done ⟨rfl, fun cause => ?_⟩
      have causes := same cause
      simp only [Except.mapError, Except.error.injEq] at causes ⊢
      exact causes
    · cases same .notText
    · cases same .notText
    · exact .done (.refl _)

/-- A conversion asks for the same whatever an error says. -/
theorem follows_generate (job : Job) (options : Options) :
    Follows (fun _ => Conversion.Alike) job false (job.generate options)
      (job.generate options) := by
  rw [generate_eq]
  refine .read (.inl rfl) (fun text => .look ?_) ?_
  · rintro (there | there)
    · exact follows_conclude job options text none false
    · refine .read (.inr rfl) (fun source => ?_) (fun cause cause' => ?_)
      · exact follows_conclude job options text (some (.ok source)) false
      · obtain ⟨error, error', prepared, prepared', same⟩ :=
          prepare_error job options text cause cause'
        have stops : (job.conclude options text (some (.error cause)) : Process _) =
            .done ([], .error error) := by
          rw [conclude, prepared]
          rfl
        have stops' : (job.conclude options text (some (.error cause')) : Process _) =
            .done ([], .error error') := by
          rw [conclude, prepared']
          rfl
        show Follows _ job false (job.conclude options text (some (.error cause)))
          (job.conclude options text (some (.error cause')))
        rw [stops, stops']
        exact .done ⟨rfl, same⟩
  · intro cause cause'
    exact .done ⟨rfl, fun _ => rfl⟩

theorem follows_convert {header : Path} {options : Options} {job : Job}
    (known : Job.ofHeader header options = .ok job) :
    Follows (fun _ => Conversion.Alike) job false (convert options header)
      (convert options header) := by
  unfold convert
  rw [known]
  refine (follows_generate job options).bind ?_
  rintro opened ⟨log, outcome⟩ ⟨log', outcome'⟩ ⟨same, same'⟩
  refine .done ⟨?_, same'⟩
  rw [show log = log' from same]

/-! ### A step of a job on its own tree and on a shared one -/

/-- The tree that a job runs on alone. What changed there since the start is the stub, and folders
on the way to it where nothing was. -/
structure Stands (job : Job) (start own : FileTree) (opened : Bool) : Prop where
  grounded : own.IsGrounded
  changes : ∀ address, own.entry? address ≠ start.entry? address →
    address = job.stub.names ∨ address <+: job.folder.names ∧
      start.entry? address = none ∧ own.entry? address = some .folder
  folder : opened = true → own.entry? job.folder.names = some .folder

/-- A shared tree has what the job's own tree has on the ways to its files, but for folders that
others made. None of those stands in the place of the stub. -/
structure Sees (job : Job) (own shared : FileTree) : Prop where
  header : own.AgreesOn shared job.header
  source : own.AgreesOn shared job.source
  above : own.AgreesOn shared job.stub
  stub : shared.entry? job.stub.names = own.entry? job.stub.names

open FileTree

section

variable {start own : FileTree} {opened : Bool} {job : Job} {header : Path} {options : Options}
  (known : Job.ofHeader header options = .ok job)

include known

theorem prefix_of_ofHeader : job.folder.names <+: job.stub.names := by
  obtain ⟨name, stub⟩ := names_of_ofHeader known
  rw [stub]
  exact List.prefix_append _ _

theorem Stands.makeFolders (plain : job.IsPlain) (stands : job.Stands start own opened)
    {opened' : Bool} (folder : opened' = true →
      FileTree.entry? (own.makeFolders job.folder).2 job.folder.names = some .folder) :
    job.Stands start (own.makeFolders job.folder).2 opened' := by
  refine ⟨stands.grounded.makeFolders job.folder, ?_, folder⟩
  intro address differs
  rcases makeFolders_cases (isPlain_folder known plain) own address with
    kept | ⟨missing, made, inside⟩
  · rw [kept] at differs ⊢
    exact stands.changes address differs
  · by_cases same : own.entry? address = start.entry? address
    · exact .inr ⟨inside, same.symm.trans missing, made⟩
    · rcases stands.changes address same with atStub | ⟨-, -, there⟩
      · exact .inl atStub
      · rw [there] at missing
        cases missing

theorem Stands.put (stands : job.Stands start own true) {content : ByteArray}
    (free : own.entry? job.stub.names ≠ some .folder) :
    job.Stands start (own.put job.stub.names (.file content)) true := by
  obtain ⟨name, stub⟩ := names_of_ofHeader known
  have folder := stands.folder rfl
  refine ⟨?_, ?_, fun _ => folder_of_put free folder⟩
  · rw [stub] at free ⊢
    exact stands.grounded.put folder free
  · intro address differs
    by_cases atStub : address = job.stub.names
    · exact .inl atStub
    · rw [entry?_put_of_ne _ _ atStub] at differs ⊢
      exact stands.changes address differs

/-- In a folder that was opened nothing on the way to the stub is seen otherwise. -/
theorem Sees.eq_above_stub {shared : FileTree} (sees : job.Sees own shared)
    (stands : job.Stands start own true) (address : Address) (inside : address <+: job.stub.names) :
    shared.entry? address = own.entry? address := by
  obtain ⟨name, stub⟩ := names_of_ofHeader known
  have agrees := sees.above address inside
  rw [stub, List.prefix_concat_iff] at inside
  rcases inside with atStub | above
  · rw [atStub, ← stub]
    exact sees.stub
  · have there := stands.grounded.folder_of_prefix above (stands.folder rfl)
    rw [there]
    exact agrees.folder there

end

section

variable {α : Type} {R : Bool → α → α → Prop} {job : Job} {start own shared : FileTree}
  {opened : Bool} {process : Process α}

/-- A call of a job on its own tree and on the shared one: the job goes on alike behind it, and both
trees change alike. -/
structure GoesOn (R : Bool → α → α → Prop) (job : Job) (start own shared : FileTree)
    (call : FileCall) (next next' : call.Answer → Process α) (opened : Bool) : Prop where
  follows : Follows R job opened (next (call.answer.run shared).1) (next' (call.answer.run own).1)
  stands : job.Stands start (call.answer.run own).2 opened
  alike : ChangesAlike job.stub.names own shared (call.answer.run own).2 (call.answer.run shared).2
  keeps : ∀ address, shared.entry? address = some .folder →
    FileTree.entry? (call.answer.run shared).2 address = some .folder

theorem goesOn_read {path : Path} {next next' : Except FileError String → Process α}
    (noUp : ['.', '.'] ∉ Path.partsOf path.text) (agrees : own.AgreesOn shared path)
    (ok : ∀ text, Follows R job opened (next (.ok text)) (next' (.ok text)))
    (failed : ∀ cause cause', Follows R job opened (next (.error cause)) (next' (.error cause')))
    (stands : job.Stands start own opened) :
    GoesOn R job start own shared (.readText path) next next' opened := by
  refine ⟨?_, stands, .refl _ own shared, fun _ there => there⟩
  have same := readText_ok_iff noUp stands.grounded agrees
  show Follows R job opened (next (shared.readText path)) (next' (own.readText path))
  cases alone : own.readText path with
  | ok text =>
      rw [(same text).2 alone]
      exact ok text
  | error cause =>
      cases read : shared.readText path with
      | ok text =>
          rw [(same text).1 read] at alone
          cases alone
      | error cause' => exact failed cause' cause

theorem goesOn_look {next next' : Bool → Process α}
    (noUp : ['.', '.'] ∉ Path.partsOf job.source.text) (sees : job.Sees own shared)
    (found : ∀ there, Follows R job opened (next there) (next' there))
    (stands : job.Stands start own opened) :
    GoesOn R job start own shared (.isFile job.source) next next' opened := by
  refine ⟨?_, stands, .refl _ own shared, fun _ there => there⟩
  show Follows R job opened (next (shared.isFile job.source)) (next' (own.isFile job.source))
  rw [isFile_congr noUp stands.grounded sees.source]
  exact found _

variable {header : Path} {options : Options} (known : Job.ofHeader header options = .ok job)
  (plain : job.IsPlain)

include known plain

/-- The folder of a job is opened on both trees or on neither. -/
theorem goesOn_makeFolders {next next' : Except FileError Unit → Process α}
    (ok : Follows R job true (next (.ok ())) (next' (.ok ())))
    (failed : ∀ cause cause', Follows R job opened (next (.error cause)) (next' (.error cause')))
    (stands : job.Stands start own opened) (sees : job.Sees own shared) :
    ∃ opened', GoesOn R job start own shared (.makeFolders job.folder) next next' opened' := by
  have plainFolder := isPlain_folder known plain
  have within := prefix_of_ofHeader known
  obtain ⟨answer, changes⟩ := makeFolders_congr plainFolder
    fun address inside => sees.above address (inside.trans within)
  have alike := changes.mono within
  have keeps : ∀ address, shared.entry? address = some .folder →
      FileTree.entry? (shared.makeFolders job.folder).2 address = some .folder :=
    fun _ => (makeFolders_addsFolders shared job.folder).folder
  have goesOn (opened' : Bool)
      (follows : Follows R job opened' (next (shared.makeFolders job.folder).1)
        (next' (own.makeFolders job.folder).1))
      (folder : opened' = true →
        FileTree.entry? (own.makeFolders job.folder).2 job.folder.names = some .folder) :
      GoesOn R job start own shared (.makeFolders job.folder) next next' opened' :=
    ⟨follows, stands.makeFolders known plain folder, alike, keeps⟩
  rcases shares : (shared.makeFolders job.folder).1 with cause | done <;>
    rcases alone : (own.makeFolders job.folder).1 with cause' | done' <;>
    rw [shares, alone] at answer
  · refine ⟨opened, goesOn opened ?_ fun was =>
      (makeFolders_addsFolders own job.folder).folder (stands.folder was)⟩
    rw [shares, alone]
    exact failed cause cause'
  · cases answer
  · cases answer
  · refine ⟨true, goesOn true ?_ fun _ => folder_of_makeFolders plainFolder (Prod.ext alone rfl)⟩
    rw [shares, alone]
    exact ok

/-- In the opened folder the stub is written on both trees or on neither. -/
theorem goesOn_write {text : String} {next next' : Except FileError Unit → Process α}
    (answered : ∀ answer, Follows R job true (next answer) (next' answer))
    (stands : job.Stands start own true) (sees : job.Sees own shared) :
    GoesOn R job start own shared (.writeText job.stub text) next next' true := by
  rcases writeBytes_congr plain.stub.1 (sees.eq_above_stub known stands) text.toUTF8 with
    ⟨error, shares, alone⟩ | ⟨free, shares, alone⟩
  · have ran : (FileCall.answer (.writeText job.stub text)).run shared = (.error error, shared) :=
      run_writeText_error shares
    have ranAlone : (FileCall.answer (.writeText job.stub text)).run own = (.error error, own) :=
      run_writeText_error alone
    constructor
    · rw [ran, ranAlone]
      exact answered _
    · rwa [ranAlone]
    · rw [ran, ranAlone]
      exact .refl _ own shared
    · rw [ran]
      exact fun _ there => there
  · have ran : (FileCall.answer (.writeText job.stub text)).run shared = _ :=
      run_writeText_ok shares
    have ranAlone : (FileCall.answer (.writeText job.stub text)).run own = _ :=
      run_writeText_ok alone
    have below : job.stub.names ≠ [] := by
      intro top
      rw [top] at free
      exact free rfl
    constructor
    · rw [ran, ranAlone]
      exact answered _
    · rw [ranAlone]
      exact stands.put known free
    · rw [ran, ranAlone]
      exact changesAlike_put (List.prefix_refl _) below (entry?_put_self shared _ below)
        fun address apart => entry?_put_of_ne shared _ apart
    · rw [ran]
      exact fun _ => folder_of_put (by rwa [sees.stub])

/-- A job goes on alike on its own tree and on the shared one, and changes both alike. -/
theorem Follows.step {call : FileCall} {next : call.Answer → Process α}
    (follows : Follows R job opened (.ask call next) process)
    (stands : job.Stands start own opened) (sees : job.Sees own shared) :
    ∃ (next' : call.Answer → Process α) (opened' : Bool), process = .ask call next' ∧
      GoesOn R job start own shared call next next' opened' := by
  cases follows with
  | @read _ path next next' reads ok failed =>
      refine ⟨next', opened, rfl, ?_⟩
      rcases reads with rfl | rfl
      · exact goesOn_read plain.header sees.header ok failed stands
      · exact goesOn_read plain.source sees.source ok failed stands
  | @look _ next next' found =>
      exact ⟨next', opened, rfl, goesOn_look plain.source sees found stands⟩
  | @makeFolders _ next next' ok failed =>
      obtain ⟨opened', goesOn⟩ := goesOn_makeFolders known plain ok failed stands sees
      exact ⟨next', opened', rfl, goesOn⟩
  | @write text next next' answered =>
      exact ⟨next', true, rfl, goesOn_write known plain answered stands sees⟩

end

end Job

/-! ### The shared tree put together -/

/-- A shared tree has what the own trees changed since the start, and the start elsewhere. -/
structure Merged (start : FileTree) (owns : List FileTree) (shared : FileTree) : Prop where
  kept : ∀ address, (∀ own ∈ owns, own.entry? address = start.entry? address) →
    shared.entry? address = start.entry? address
  taken : ∀ own ∈ owns, ∀ address, own.entry? address ≠ start.entry? address →
    shared.entry? address = own.entry? address

namespace Merged

variable {start shared shared' : FileTree} {owns owns' : List FileTree}

/-- The own trees determine the shared one, in whatever order they come. -/
theorem unique (merged : Merged start owns shared) (merged' : Merged start owns' shared')
    (same : ∀ own, own ∈ owns ↔ own ∈ owns') (address : Address) :
    shared'.entry? address = shared.entry? address := by
  by_cases kept : ∀ own ∈ owns, own.entry? address = start.entry? address
  · rw [merged.kept address kept,
      merged'.kept address fun own inside => kept own ((same own).2 inside)]
  · push Not at kept
    obtain ⟨own, inside, differs⟩ := kept
    rw [merged.taken own inside address differs,
      merged'.taken own ((same own).1 inside) address differs]

/-- One own tree and the shared one go on alike. The others changed nothing on the way but to make
folders. -/
theorem step {before after : List FileTree} {own own' : FileTree} {whole : Address}
    (merged : Merged start (before ++ own :: after) shared)
    (alike : FileTree.ChangesAlike whole own shared own' shared')
    (keeps : ∀ address, shared.entry? address = some .folder →
      shared'.entry? address = some .folder)
    (others : ∀ other ∈ before ++ after, ∀ address, address <+: whole →
      other.entry? address ≠ start.entry? address → other.entry? address = some .folder) :
    Merged start (before ++ own' :: after) shared' := by
  have beside : ∀ other ∈ before ++ after, other ∈ before ++ own :: after := by
    intro other inside
    rcases List.mem_append.1 inside with inside | inside
    · simp [inside]
    · simp [inside]
  refine ⟨?_, ?_⟩
  · intro address kept
    have keptOwn := kept own' (by simp)
    rcases alike address with ⟨same, same'⟩ | ⟨-, same'⟩
    · rw [same']
      refine merged.kept address ?_
      intro other inside
      rw [List.mem_append, List.mem_cons] at inside
      rcases inside with inside | rfl | inside
      · exact kept other (by simp [inside])
      · rw [← same, keptOwn]
      · exact kept other (by simp [inside])
    · rw [same', keptOwn]
  · intro other inside address differs
    by_cases isOwn : other = own'
    · subst isOwn
      rcases alike address with ⟨same, same'⟩ | ⟨-, same'⟩
      · rw [same] at differs ⊢
        rw [same']
        exact merged.taken own (by simp) address differs
      · exact same'
    · have inside' : other ∈ before ++ after := by
        simpa [isOwn] using inside
      have taken := merged.taken other (beside other inside') address differs
      rcases alike address with ⟨-, same'⟩ | ⟨within, -⟩
      · rw [same', taken]
      · have folder := others other inside' address within differs
        rw [folder] at taken ⊢
        exact keeps address taken

end Merged

/-- A conversion in a batch: its process on the shared tree, and the same process as far on a tree
of its own. -/
structure Worker where
  header : Path
  process : Process Conversion
  alone : Process Conversion
  own : FileTree

namespace Worker

/-- On its own tree a worker has come from the start, and it goes on there as on the shared tree. A
header that has no job is done at once. -/
structure Works (options : Options) (start : FileTree) (worker : Worker) : Prop where
  ran : worker.alone.perform.run worker.own =
    (convert options worker.header : StateM FileTree _).run start
  follows : ∀ job, Job.ofHeader worker.header options = .ok job → ∃ opened,
    Job.Follows (fun _ => Conversion.Alike) job opened worker.process worker.alone ∧
      job.Stands start worker.own opened
  outside : ∀ error, Job.ofHeader worker.header options = .error error →
    (∃ conversion, worker.process = .done conversion ∧ worker.alone = .done conversion) ∧
      worker.own = start

/-- The jobs of two headers leave each other's files alone. -/
def Apart (options : Options) (header header' : Path) : Prop :=
  ∀ job job', Job.ofHeader header options = .ok job → Job.ofHeader header' options = .ok job' →
    job.Spares job' ∧ job'.Spares job

theorem Apart.symm {options : Options} {header header' : Path}
    (apart : Apart options header header') : Apart options header' header :=
  fun job job' known known' => (apart job' job known' known).symm

variable {options : Options} {start shared : FileTree}

/-- Where another worker changed something on the way to a file of a job, it made a folder where
nothing was. -/
theorem folder_of_apart {header : Path} {other : Worker} {job : Job}
    (known : Job.ofHeader header options = .ok job)
    (works : other.Works options start) (apart : Apart options header other.header)
    {address place : Address}
    (spared : ∀ job', Job.ofHeader other.header options = .ok job' → ¬job'.stub.names <+: place)
    (inside : address <+: place) (differs : other.own.entry? address ≠ start.entry? address) :
    start.entry? address = none ∧ other.own.entry? address = some .folder ∧
      address ≠ job.stub.names := by
  cases known' : Job.ofHeader other.header options with
  | error error =>
      rw [(works.outside error known').2] at differs
      exact absurd rfl differs
  | ok job' =>
      obtain ⟨opened, -, stands⟩ := works.follows job' known'
      rcases stands.changes address differs with atStub | ⟨above, missing, folder⟩
      · subst atStub
        exact absurd inside (spared job' known')
      · refine ⟨missing, folder, ?_⟩
        rintro rfl
        exact (apart job job' known known').1.stub
          (above.trans (Job.prefix_of_ofHeader known'))

/-- A worker whose process asks goes on alike on its own tree and on the shared one. -/
theorem Works.step {worker : Worker} {job : Job} {call : FileCall}
    {next : call.Answer → Process Conversion} (works : worker.Works options start)
    (asks : worker.process = .ask call next)
    (known : Job.ofHeader worker.header options = .ok job) (plain : job.IsPlain)
    (sees : job.Sees worker.own shared) :
    ∃ (next' : call.Answer → Process Conversion) (opened : Bool),
      Job.GoesOn (fun _ => Conversion.Alike) job start worker.own shared call next next' opened ∧
        Works options start ⟨worker.header, next (call.answer.run shared).1,
          next' (call.answer.run worker.own).1, (call.answer.run worker.own).2⟩ := by
  obtain ⟨opened, follows, stands⟩ := works.follows job known
  rw [asks] at follows
  obtain ⟨next', opened', asks', goesOn⟩ := follows.step known plain stands sees
  refine ⟨next', opened', goesOn, ?_, ?_, ?_⟩
  · have ran := works.ran
    rw [asks'] at ran
    exact ran
  · intro job' known'
    cases known.symm.trans known'
    exact ⟨opened', goesOn.follows, goesOn.stands⟩
  · intro error known'
    cases known.symm.trans known'

/-- Where no other worker has its stub on the way to a place, the shared tree has there what the own
tree of a worker has, or a folder where the own tree has nothing. -/
theorem entry?_of_merged {before after : List Worker} {worker : Worker} {job : Job}
    (known : Job.ofHeader worker.header options = .ok job)
    (merged : Merged start ((before ++ worker :: after).map own) shared)
    (others : ∀ other ∈ before ++ after,
      other.Works options start ∧ Apart options worker.header other.header)
    {place address : Address} (spared : ∀ other ∈ before ++ after, ∀ job',
      Job.ofHeader other.header options = .ok job' → ¬job'.stub.names <+: place)
    (inside : address <+: place) :
    shared.entry? address = worker.own.entry? address ∨
      address ≠ job.stub.names ∧ worker.own.entry? address = none ∧
        shared.entry? address = some .folder := by
  by_cases same : worker.own.entry? address = start.entry? address
  · by_cases kept : ∀ other ∈ before ++ after, other.own.entry? address = start.entry? address
    · left
      rw [same]
      refine merged.kept address ?_
      intro own' member
      obtain ⟨other, inside', rfl⟩ := List.mem_map.1 member
      rw [List.mem_append, List.mem_cons] at inside'
      rcases inside' with inside' | rfl | inside'
      · exact kept other (by simp [inside'])
      · exact same
      · exact kept other (by simp [inside'])
    · push Not at kept
      obtain ⟨other, inside', differs⟩ := kept
      obtain ⟨works, apart⟩ := others other inside'
      obtain ⟨missing, folder, notStub⟩ :=
        folder_of_apart known works apart (spared other inside') inside differs
      have member : other.own ∈ (before ++ worker :: after).map own := by
        refine List.mem_map.2 ⟨other, ?_, rfl⟩
        rcases List.mem_append.1 inside' with inside' | inside'
        · simp [inside']
        · simp [inside']
      right
      exact ⟨notStub, same.trans missing, (merged.taken _ member address differs).trans folder⟩
  · exact .inl (merged.taken worker.own (by simp) address same)

theorem sees_of_merged {before after : List Worker} {worker : Worker} {job : Job}
    (known : Job.ofHeader worker.header options = .ok job)
    (merged : Merged start ((before ++ worker :: after).map own) shared)
    (others : ∀ other ∈ before ++ after,
      other.Works options start ∧ Apart options worker.header other.header) :
    job.Sees worker.own shared := by
  have spares (other : Worker) (inside : other ∈ before ++ after) (job' : Job)
      (known' : Job.ofHeader other.header options = .ok job') : job'.Spares job :=
    ((others other inside).2 job job' known known').2
  have agrees (place : Address) (spared : ∀ other ∈ before ++ after, ∀ job',
      Job.ofHeader other.header options = .ok job' → ¬job'.stub.names <+: place)
      (address : Address) (inside : address <+: place) :
      worker.own.AgreesAt shared address := by
    rcases entry?_of_merged known merged others spared inside with same | ⟨-, missing, folder⟩
    · exact .inl same
    · exact .inr ⟨missing, folder⟩
  have sparesStub : ∀ other ∈ before ++ after, ∀ job',
      Job.ofHeader other.header options = .ok job' → ¬job'.stub.names <+: job.stub.names :=
    fun other inside job' known' => (spares other inside job' known').stub
  refine ⟨agrees _ fun other inside job' known' => (spares other inside job' known').header,
    agrees _ fun other inside job' known' => (spares other inside job' known').source,
    agrees _ sparesStub, ?_⟩
  rcases entry?_of_merged known merged others sparesStub (List.prefix_refl _) with
    same | ⟨notStub, -⟩
  · exact same
  · exact absurd rfl notStub

end Worker

/-! ### The steps of a batch -/

/-- The stubs of a batch stay out of the way of its files. -/
structure IsIndependent (options : Options) (headers : List Path) : Prop where
  plain : ∀ header ∈ headers, ∀ job, Job.ofHeader header options = .ok job → job.IsPlain
  apart : headers.Pairwise (Worker.Apart options)

/-- A pool holds the processes of workers, and the shared tree has what these changed. -/
structure Holds (options : Options) (start : FileTree) (headers : List Path)
    (workers : List Worker) (pool : Process.Pool Conversion) : Prop where
  headers : workers.map Worker.header = headers
  processes : workers.map Worker.process = pool.1
  works : ∀ worker ∈ workers, worker.Works options start
  merged : Merged start (workers.map Worker.own) pool.2

variable {options : Options} {start : FileTree} {headers : List Path}

theorem holds_start (grounded : start.IsGrounded) :
    Holds options start headers
      (headers.map fun header =>
        ⟨header, convert options header, convert options header, start⟩)
      (headers.map (convert options), start) := by
  refine ⟨?_, ?_, ?_, ?_, ?_⟩
  · rw [List.map_map]
    exact List.map_id headers
  · rw [List.map_map]
    rfl
  · intro worker inside
    obtain ⟨header, -, rfl⟩ := List.mem_map.1 inside
    refine ⟨by rw [Process.perform_convert], ?_, ?_⟩
    · intro job known
      refine ⟨false, Job.follows_convert known, grounded, ?_, fun opened => by cases opened⟩
      intro address differs
      exact absurd rfl differs
    · intro error known
      have stops : (convert options header : Process _) =
          .done ([], .error (.outsideHome error)) := by
        unfold convert
        rw [known]
        rfl
      exact ⟨⟨_, stops, stops⟩, rfl⟩
  · intro address _
    rfl
  · intro own member address differs
    obtain ⟨worker, inside, rfl⟩ := List.mem_map.1 member
    obtain ⟨header, -, rfl⟩ := List.mem_map.1 inside
    exact absurd rfl differs

theorem Holds.step (independent : IsIndependent options headers) {workers : List Worker}
    {pool pool' : Process.Pool Conversion} (holds : Holds options start headers workers pool)
    (step : Process.Step pool pool') :
    ∃ workers', Holds options start headers workers' pool' := by
  obtain ⟨known, processes, works, merged⟩ := holds
  cases step with
  | call before after call next tree =>
      obtain ⟨ahead, rest, rfl, rfl, asking⟩ := List.map_eq_append_iff.1 processes
      obtain ⟨worker, behind, rfl, asks, rfl⟩ := List.map_eq_cons_iff.1 asking
      have worksWorker := works worker (by simp)
      have others : ∀ other ∈ ahead ++ behind, other.Works options start ∧
          Worker.Apart options worker.header other.header := by
        have apart := independent.apart
        rw [← known, List.pairwise_map, List.pairwise_append, List.pairwise_cons] at apart
        intro other inside
        rcases List.mem_append.1 inside with inside | inside
        · exact ⟨works other (by simp [inside]),
            (apart.2.2 other inside worker (by simp)).symm⟩
        · exact ⟨works other (by simp [inside]), apart.2.1.1 other inside⟩
      cases job? : Job.ofHeader worker.header options with
      | error error =>
          obtain ⟨⟨conversion, stops, -⟩, -⟩ := worksWorker.outside error job?
          rw [stops] at asks
          cases asks
      | ok job =>
          have plain := independent.plain worker.header (by rw [← known]; simp) job job?
          have sees := Worker.sees_of_merged job? merged others
          obtain ⟨next', opened, goesOn, works'⟩ := worksWorker.step asks job? plain sees
          refine ⟨ahead ++ ⟨worker.header, next (call.answer.run tree).1,
            next' (call.answer.run worker.own).1, (call.answer.run worker.own).2⟩ :: behind,
            ?_, ?_, ?_, ?_⟩
          · rw [← known]
            simp
          · simp
          · intro other inside
            rw [List.mem_append, List.mem_cons] at inside
            rcases inside with inside | rfl | inside
            · exact works other (by simp [inside])
            · exact works'
            · exact works other (by simp [inside])
          · rw [List.map_append, List.map_cons] at merged ⊢
            refine merged.step goesOn.alike goesOn.keeps ?_
            intro own member address inside differs
            rw [← List.map_append] at member
            obtain ⟨other, inside', rfl⟩ := List.mem_map.1 member
            obtain ⟨works', apart⟩ := others other inside'
            exact (Worker.folder_of_apart job? works' apart
              (fun job' known' => (apart job job' job? known').2.stub) inside differs).2.1

theorem holds_of_finishes (grounded : start.IsGrounded)
    (independent : IsIndependent options headers) {results : List Conversion} {after : FileTree}
    (finishes : Finishes options headers start results after) :
    ∃ workers, Holds options start headers workers (results.map Process.done, after) := by
  have holds : ∀ pool, Process.Steps (headers.map (convert options), start) pool →
      ∃ workers, Holds options start headers workers pool := by
    intro pool steps
    induction steps with
    | refl => exact ⟨_, holds_start grounded⟩
    | tail _ step ih =>
        obtain ⟨workers, holds⟩ := ih
        exact holds.step independent step
  exact holds _ finishes

/-! ### What a batch comes to -/

/-- What a header comes to alone: it has no job, or its job makes the stub. -/
def convertAlone (options : Options) (start : FileTree) (header : Path) : Conversion × FileTree :=
  match Job.ofHeader header options with
  | .error outside => (([], .error (.outsideHome outside)), start)
  | .ok job =>
      let made := (job.generate options : StateM FileTree _).run start
      ((job.line :: made.1.1, made.1.2), made.2)

theorem run_convert (options : Options) (start : FileTree) (header : Path) :
    (convert options header : StateM FileTree _).run start = convertAlone options start header := by
  unfold convert convertAlone
  cases Job.ofHeader header options with
  | error outside => rfl
  | ok job =>
      dsimp only
      rcases ran : (job.generate options : StateM FileTree _).run start with ⟨made, after⟩
      rw [FileTree.run_bind ran]
      rfl

/-- Results that are, header by header, those that the headers have alone. -/
def AreAlone (options : Options) (start : FileTree) (headers : List Path)
    (results : List Conversion) : Prop :=
  List.Forall₂ (fun header result => result.Alike (convertAlone options start header).1) headers
    results

theorem Worker.Works.ends {worker : Worker} (works : worker.Works options start)
    {result : Conversion} (stops : worker.process = .done result) :
    result.Alike (convertAlone options start worker.header).1 ∧
      worker.own = (convertAlone options start worker.header).2 := by
  have ran := works.ran
  rw [run_convert] at ran
  cases job? : Job.ofHeader worker.header options with
  | error error =>
      obtain ⟨⟨conversion, stops', stopsAlone⟩, -⟩ := works.outside error job?
      rw [stops'] at stops
      cases stops
      rw [stopsAlone] at ran
      rw [← ran]
      exact ⟨.refl _, rfl⟩
  | ok job =>
      obtain ⟨opened, follows, -⟩ := works.follows job job?
      rw [stops] at follows
      generalize worker.alone = process at follows ran
      cases follows with
      | done related =>
          rw [← ran]
          exact ⟨related, rfl⟩

theorem areAlone_of_works {workers : List Worker}
    (works : ∀ worker ∈ workers, worker.Works options start) {results : List Conversion}
    (processes : workers.map Worker.process = results.map Process.done) :
    AreAlone options start (workers.map Worker.header) results ∧
      workers.map Worker.own =
        (workers.map Worker.header).map fun header => (convertAlone options start header).2 := by
  induction workers generalizing results with
  | nil =>
      cases results with
      | nil => exact ⟨.nil, rfl⟩
      | cons result results => cases processes
  | cons worker workers ih =>
      cases results with
      | nil => cases processes
      | cons result results =>
          rw [List.map_cons, List.map_cons, List.cons.injEq] at processes
          obtain ⟨alike, own⟩ := (works worker (by simp)).ends processes.1
          obtain ⟨others, owns⟩ :=
            ih (fun worker inside => works worker (by simp [inside])) processes.2
          refine ⟨.cons alike others, ?_⟩
          rw [List.map_cons, List.map_cons, List.map_cons, own, owns]

/-- Each header has the result that it has alone, and the tree is put together from what each leaves
alone. -/
theorem ends_of_finishes (grounded : start.IsGrounded)
    (independent : IsIndependent options headers) {results : List Conversion} {after : FileTree}
    (finishes : Finishes options headers start results after) :
    AreAlone options start headers results ∧
      Merged start (headers.map fun header => (convertAlone options start header).2) after := by
  obtain ⟨workers, holds⟩ := holds_of_finishes grounded independent finishes
  obtain ⟨rfl, processes, works, merged⟩ := holds
  obtain ⟨results, owns⟩ := areAlone_of_works works processes
  exact ⟨results, owns ▸ merged⟩

theorem AreAlone.of_mem_zip {results : List Conversion}
    (areAlone : AreAlone options start headers results) {header : Path} {result : Conversion}
    (inside : (header, result) ∈ headers.zip results) :
    result.Alike (convertAlone options start header).1 :=
  (List.forall₂_iff_zip.1 areAlone).2 inside

namespace IsIndependent

theorem perm {headers' : List Path} (independent : IsIndependent options headers)
    (permuted : headers'.Perm headers) : IsIndependent options headers' where
  plain header inside := independent.plain header (permuted.mem_iff.1 inside)
  apart := (permuted.pairwise_iff Worker.Apart.symm).2 independent.apart

theorem sublist {others : List Path} (independent : IsIndependent options headers)
    (part : others.Sublist headers) : IsIndependent options others where
  plain header inside := independent.plain header (part.subset inside)
  apart := independent.apart.sublist part

end IsIndependent

/-- Two runs of batches, possibly in another order or of other headers, give a header that both have
alike results. -/
def SameResults (headers headers' : List Path) (results results' : List Conversion) : Prop :=
  ∀ header result result', (header, result) ∈ headers.zip results →
    (header, result') ∈ headers'.zip results' → result.Alike result'

/-- Two trees with the same files and folders. -/
def FileTree.SameEntries (tree tree' : FileTree) : Prop :=
  ∀ address, tree'.entry? address = tree.entry? address

theorem AreAlone.sameResults {headers' : List Path} {results results' : List Conversion}
    (areAlone : AreAlone options start headers results)
    (areAlone' : AreAlone options start headers' results') :
    SameResults headers headers' results results' :=
  fun _ _ _ inside inside' =>
    (areAlone.of_mem_zip inside).trans (areAlone'.of_mem_zip inside').symm

/-- Conversions that stay out of each other's way can be carried out in any order, one after the
other or operation by operation in turns. Every header has the result that it has alone, whatever
the others come to, and the same files stand in the end. -/
theorem convertAll_order {headers' : List Path} (grounded : start.IsGrounded)
    (independent : IsIndependent options headers) (permuted : headers'.Perm headers) :
    let run := (convertAll options headers : StateM FileTree _).run start
    let run' := (convertAll options headers' : StateM FileTree _).run start
    AreAlone options start headers run.1 ∧
      (SameResults headers headers' run.1 run'.1 ∧ run.2.SameEntries run'.2) ∧
      (∀ others : List Path, others.Sublist headers →
        SameResults headers others run.1
          ((convertAll options others : StateM FileTree _).run start).1) ∧
      ∀ results after, Finishes options headers' start results after →
        SameResults headers headers' run.1 results ∧ run.2.SameEntries after := by
  intro run run'
  have independent' := independent.perm permuted
  obtain ⟨areAlone, merged⟩ :=
    ends_of_finishes grounded independent (finishes_convertAll options headers start)
  have any : ∀ results after, Finishes options headers' start results after →
      SameResults headers headers' run.1 results ∧ run.2.SameEntries after := by
    intro results after finishes
    obtain ⟨areAlone', merged'⟩ := ends_of_finishes grounded independent' finishes
    refine ⟨areAlone.sameResults areAlone', ?_⟩
    refine merged.unique merged' ?_
    intro own
    simp only [List.mem_map, permuted.mem_iff]
  refine ⟨areAlone, any _ _ (finishes_convertAll options headers' start), ?_, any⟩
  intro others part
  obtain ⟨areAlone', -⟩ := ends_of_finishes grounded (independent.sublist part)
    (finishes_convertAll options others start)
  exact areAlone.sameResults areAlone'

theorem convertAll_order_of_two :
    let options : Options := ⟨some (Path.ofString "h"), some (Path.ofString "out"), true⟩
    let start := (FileTree.empty.put ["h".toList] .folder).put ["h".toList, "a.hpp".toList]
      (.file "int x;".toUTF8)
    let headers := [Path.ofString "h/a.hpp", Path.ofString "h/b/missing.hpp"]
    let headers' := [Path.ofString "h/b/missing.hpp", Path.ofString "h/a.hpp"]
    let run := (convertAll options headers : StateM FileTree _).run start
    let run' := (convertAll options headers' : StateM FileTree _).run start
    (start.IsGrounded ∧ IsIndependent options headers ∧ headers'.Perm headers) ∧
      SameResults headers headers' run.1 run'.1 ∧ run.2.SameEntries run'.2 := by
  intro options start headers headers' run run'
  have folder : (FileTree.empty.put ([] ++ ["h".toList]) .folder).IsGrounded :=
    FileTree.isGrounded_empty.put rfl (by simp [FileTree.entry?, FileTree.empty])
  have grounded : (FileTree.put _ (["h".toList] ++ ["a.hpp".toList])
      (.file "int x;".toUTF8)).IsGrounded :=
    folder.put rfl (by simp [FileTree.entry?, FileTree.empty, FileTree.put])
  have first : Job.ofHeader (Path.ofString "h/a.hpp") options = .ok
      ⟨Path.ofString "h/a.hpp", Path.ofString "h/a.cpp", Path.ofString "out/",
        Path.ofString "out/a.pxd"⟩ := by decide
  have second : Job.ofHeader (Path.ofString "h/b/missing.hpp") options = .ok
      ⟨Path.ofString "h/b/missing.hpp", Path.ofString "h/b/missing.cpp", Path.ofString "out/b",
        Path.ofString "out/b/missing.pxd"⟩ := by decide
  have independent : IsIndependent options headers := by
    constructor
    · intro header inside job known
      rcases List.mem_cons.1 inside with rfl | inside
      · cases first.symm.trans known
        decide
      · rw [List.mem_singleton.1 inside] at known
        cases second.symm.trans known
        decide
    · refine List.pairwise_pair.2 ?_
      intro job job' known known'
      cases first.symm.trans known
      cases second.symm.trans known'
      decide
  have permuted : headers'.Perm headers := .swap _ _ _
  exact ⟨⟨grounded, independent, permuted⟩, (convertAll_order grounded independent permuted).2.1⟩

end PxdStub
