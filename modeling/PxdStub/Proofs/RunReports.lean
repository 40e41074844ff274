import Mathlib
import PxdStub.Program
import PxdStub.Proofs.FileProcesses

/-!
The report of a run. What the conversions log in between comes in any order, but is never an error
and never in the name of the program. So the errors of a log, the lines about what was left out, and
the count at its end tell the results of all headers, header by header. Where the headers cannot be
collected one error tells why, and nothing else is reported.
-/

namespace PxdStub

/-! ### The log of a conversion -/

/-- A line that is logged on the way, and not about the outcome of a header. -/
structure LogLine.IsIncidental (line : LogLine) : Prop where
  level : line.level ≠ .error
  origin : line.origin ≠ .program

theorem Note.isIncidental_line (note : Note) : note.line.IsIncidental := by
  cases note <;> exact ⟨nofun, nofun⟩

namespace Process

variable {α β : Type} {holds : α → Prop}

/-- All values that a process can come to have a property, whatever its calls are answered. -/
def Always (holds : α → Prop) : Process α → Prop
  | done value => holds value
  | ask _ next => ∀ answer, (next answer).Always holds

theorem Always.bind {process : Process α} {rest : α → Process β} {holds' : β → Prop}
    (first : process.Always holds) (second : ∀ value, holds value → (rest value).Always holds') :
    (process >>= rest).Always holds' := by
  induction process with
  | done value => exact second value first
  | ask call next ih => exact fun answer => ih answer (first answer)

theorem Always.trivial (process : Process α) : process.Always fun _ => True := by
  induction process with
  | done value => exact ⟨⟩
  | ask call next ih => exact ih

theorem Always.behind {process : Process α} {rest : α → Process β} {holds' : β → Prop}
    (second : ∀ value, (rest value).Always holds') : (process >>= rest).Always holds' :=
  (Always.trivial process).bind fun value _ => second value

variable {ι : Type} {related : ι → α → Prop} {keys : List ι}

theorem always_of_step {pool pool' : Pool α} (step : Step pool pool')
    (always : List.Forall₂ (fun key process => process.Always (related key)) keys pool.1) :
    List.Forall₂ (fun key process => process.Always (related key)) keys pool'.1 := by
  obtain ⟨before, after, call, next, tree⟩ := step
  dsimp only at always ⊢
  induction before generalizing keys with
  | nil =>
      cases always with
      | cons here there => exact .cons (here _) there
  | cons process before ih =>
      cases always with
      | cons here there => exact .cons here (ih there)

/-- In a pool each process keeps its place, and what it can come to. -/
theorem always_of_steps {pool pool' : Pool α} (steps : Steps pool pool')
    (always : List.Forall₂ (fun key process => process.Always (related key)) keys pool.1) :
    List.Forall₂ (fun key process => process.Always (related key)) keys pool'.1 := by
  induction steps with
  | refl => exact always
  | tail _ step ih => exact always_of_step step ih

end Process

open Process (Always)

namespace Job

/-- A result that speaks of the files of a job. -/
def Concerns (job : Job) : Except StubError Summary → Prop
  | .ok summary => summary.stub = job.stub
  | .error (.read path _) => path = job.header ∨ path = job.source
  | .error (.write path _) => path = job.folder ∨ path = job.stub
  | .error (.parse path _) => path = job.header
  | .error (.outsideHome _) | .error (.pattern _ _) | .error (.glob _) => False

/-- A conversion of a job, which reports nothing on its own. -/
structure IsConverted (job : Job) (conversion : Conversion) : Prop where
  incidental : ∀ line ∈ conversion.1, line.IsIncidental
  result : job.Concerns conversion.2

theorem concerns_of_modulesOf {job : Job} {text : String} {error : StubError}
    (failed : job.modulesOf text = .error error) : job.Concerns (.error error) := by
  unfold modulesOf at failed
  split at failed
  · cases failed
  · cases failed
    rfl

theorem concerns_of_modules {job : Job} {text : String}
    {source? : Option (Except FileError String)} {error : StubError}
    (failed : job.modules text source? = .error error) : job.Concerns (.error error) := by
  unfold modules at failed
  cases found : job.modulesOf text with
  | error early =>
      rw [found] at failed
      cases failed
      exact concerns_of_modulesOf found
  | ok own =>
      rw [found] at failed
      rcases source? with - | cause | source
      · cases failed
      · cases failed
        exact .inr rfl
      · cases further : job.modulesOf source with
        | error early =>
            simp only [bind, Except.bind, further] at failed
            cases failed
            exact concerns_of_modulesOf further
        | ok further' =>
            simp only [bind, Except.bind, further] at failed
            cases failed

theorem isConverted_prepare (job : Job) (options : Options) (text : String)
    (source? : Option (Except FileError String)) :
    job.IsConverted ((job.prepare options text source?).1,
      (job.prepare options text source?).2.map Prod.snd) := by
  have notes : ∀ line ∈ (Header.ofText text.toList).notes.map Note.line, line.IsIncidental := by
    intro line mem
    obtain ⟨note, _, rfl⟩ := List.mem_map.1 mem
    exact note.isIncidental_line
  unfold prepare
  cases merged : job.modules text source? with
  | error error => exact ⟨fun _ mem => absurd mem List.not_mem_nil, concerns_of_modules merged⟩
  | ok modules =>
      dsimp only
      cases (Header.ofText text.toList).result with
      | error error => exact ⟨notes, rfl⟩
      | ok header =>
          refine ⟨fun line mem => ?_, rfl⟩
          obtain note | summary := List.mem_append.1 mem
          · exact notes line note
          · cases List.mem_singleton.1 summary
            exact ⟨nofun, nofun⟩

theorem always_write (job : Job) (stub : Stub) : (job.write stub : Process _).Always
    fun written => ∀ error, written = .error error → job.Concerns (.error error) := by
  refine .behind ?_
  rintro (cause | made)
  · rintro _ ⟨⟩
    exact .inl rfl
  · refine .behind ?_
    rintro (cause | written)
    · rintro _ ⟨⟩
      exact .inr rfl
    · exact nofun

theorem always_conclude (job : Job) (options : Options) (text : String)
    (source? : Option (Except FileError String)) :
    (job.conclude options text source? : Process _).Always job.IsConverted := by
  have converted := job.isConverted_prepare options text source?
  unfold conclude
  rcases prepared : job.prepare options text source? with ⟨log, error | ⟨stub, summary⟩⟩ <;>
    rw [prepared] at converted
  · exact converted
  · refine (job.always_write stub).bind ?_
    rintro (error | written) concerns
    · exact ⟨converted.incidental, concerns error rfl⟩
    · refine ⟨fun line mem => ?_, converted.result⟩
      obtain prior | last := List.mem_append.1 mem
      · exact converted.incidental line prior
      · cases List.mem_singleton.1 last
        exact ⟨nofun, nofun⟩

theorem always_generate (job : Job) (options : Options) :
    (job.generate options : Process _).Always job.IsConverted := by
  rw [generate_eq]
  refine .behind ?_
  rintro (cause | text)
  · exact ⟨fun _ mem => absurd mem List.not_mem_nil, .inl rfl⟩
  · refine .behind ?_
    rintro (there | there)
    · exact always_conclude job options text none
    · exact .behind fun read => always_conclude job options text (some read)

end Job

/-- A result that a header can have: one of its job, or that it has none. -/
def IsResultOf (options : Options) (header : Path) (result : Except StubError Summary) : Prop :=
  (∃ job, Job.ofHeader header options = .ok job ∧ job.Concerns result) ∨
    ∃ outside, Job.ofHeader header options = .error outside ∧ result = .error (.outsideHome outside)

/-- A conversion of a header, which reports nothing on its own. -/
structure IsConversionOf (options : Options) (header : Path) (conversion : Conversion) : Prop where
  incidental : ∀ line ∈ conversion.1, line.IsIncidental
  result : IsResultOf options header conversion.2

theorem IsConversionOf.isIncidental {options : Options} {headers : List Path}
    {conversions : List Conversion}
    (converted : List.Forall₂ (IsConversionOf options) headers conversions) :
    ∀ line ∈ conversions.flatMap Prod.fst, line.IsIncidental := by
  induction converted with
  | nil => exact fun _ mem => absurd mem List.not_mem_nil
  | cons here _ ih => exact List.forall_mem_append.2 ⟨here.incidental, ih⟩

theorem always_convert (options : Options) (header : Path) :
    (convert options header : Process _).Always (IsConversionOf options header) := by
  unfold convert
  split
  · next outside rejected =>
      exact ⟨fun _ mem => absurd mem List.not_mem_nil, .inr ⟨outside, rejected, rfl⟩⟩
  · next job known =>
      refine (job.always_generate options).bind fun conversion converted => ?_
      exact ⟨List.forall_mem_cons.2 ⟨⟨nofun, nofun⟩, converted.incidental⟩,
        .inl ⟨job, known, converted.result⟩⟩

/-- Each header gets a conversion of its own, in the place that it has among the headers. -/
theorem Finishes.conversions {options : Options} {headers : List Path} {start after : FileTree}
    {conversions : List Conversion} (finishes : Finishes options headers start conversions after) :
    List.Forall₂ (IsConversionOf options) headers conversions := by
  have always : List.Forall₂ (fun header process => process.Always (IsConversionOf options header))
      headers (headers.map (convert options : Path → Process _)) := by
    rw [List.forall₂_map_right_iff, List.forall₂_same]
    exact fun header _ => always_convert options header
  have kept := Process.always_of_steps finishes always
  rwa [List.forall₂_map_right_iff] at kept

/-! ### Collecting headers -/

/-- A step that leaves the files as they are. -/
def FileTree.OnlyReads {α : Type} (step : StateM FileTree α) : Prop :=
  ∀ tree, (step.run tree).2 = tree

namespace FileTree.OnlyReads

variable {α β : Type} {step : StateM FileTree α} {rest : α → StateM FileTree β}

theorem pure (value : α) : OnlyReads (Pure.pure value) :=
  fun _ => rfl

theorem bind (first : OnlyReads step) (second : ∀ value, OnlyReads (rest value)) :
    OnlyReads (step >>= rest) := by
  intro tree
  rcases ran : step.run tree with ⟨value, next⟩
  have same : next = tree := by rw [← first tree, ran]
  rw [run_bind ran, same]
  exact second value tree

end FileTree.OnlyReads

namespace Collection

open FileTree (OnlyReads)

variable {search : PatternSearch (StateM FileTree)}

theorem onlyReads_filesAmong (found : List (Except GlobError Path)) :
    OnlyReads (filesAmong found) := by
  induction found with
  | nil => exact .pure _
  | cons first rest ih =>
      cases first with
      | error error => exact .pure _
      | ok path =>
          have file : OnlyReads (Files.isFile path) := fun _ => rfl
          exact file.bind fun _ => ih.bind fun _ => .pure _

theorem onlyReads_headersOf (reads : ∀ pattern, OnlyReads (search pattern)) (path : Path) :
    OnlyReads (headersOf search path) := by
  unfold headersOf
  have folder : OnlyReads (Files.isFolder path) := fun _ => rfl
  refine folder.bind fun isFolder => ?_
  split
  · refine (reads _).bind fun found => ?_
    cases found with
    | error cause => exact .pure _
    | ok found => exact onlyReads_filesAmong found
  · exact .pure _

theorem onlyReads_headersOfAll (reads : ∀ pattern, OnlyReads (search pattern))
    (paths : List Path) : OnlyReads (headersOfAll search paths) := by
  induction paths with
  | nil => exact .pure _
  | cons path rest ih =>
      refine (onlyReads_headersOf reads path).bind fun headers => ?_
      cases headers with
      | error error => exact .pure _
      | ok headers => exact ih.bind fun _ => .pure _

theorem onlyReads_collect (paths : List Path) : OnlyReads (collect paths) :=
  (onlyReads_headersOfAll (fun _ _ => rfl) paths).bind fun _ => .pure _

variable {tree : FileTree}

theorem run_isFolder (tree : FileTree) (path : Path) :
    (Files.isFolder path : StateM FileTree _).run tree = (tree.isFolder path, tree) := rfl

theorem run_headersOf_of_isFolder {argument : Path}
    {found : List (Except GlobError Path)} (isFolder : tree.isFolder argument = true)
    (searched : (search (Search.pattern argument)).run tree = (.ok found, tree)) :
    (headersOf search argument).run tree = (filesAmong found : StateM FileTree _).run tree := by
  rw [headersOf, FileTree.run_bind (run_isFolder tree argument), isFolder, if_pos rfl,
    FileTree.run_bind searched]

theorem run_headersOf_of_other {argument : Path} (other : tree.isFolder argument = false) :
    (headersOf search argument).run tree = (.ok [argument], tree) := by
  rw [headersOf, FileTree.run_bind (run_isFolder tree argument), other]
  rfl

/-- Where the headers of a path cannot be collected those of the paths behind it are not looked for. -/
theorem run_collectBy_of_error {argument : Path} {error : StubError}
    (failed : (headersOf search argument).run tree = (.error error, tree)) (paths : List Path) :
    (collectBy search (argument :: paths)).run tree = (.error error, tree) := by
  have all : (headersOfAll search (argument :: paths)).run tree = (.error error, tree) := by
    rw [headersOfAll, FileTree.run_bind failed]
    rfl
  rw [collectBy, FileTree.run_bind all]
  rfl

end Collection

/-! ### Runs -/

namespace Program

/-- What a run warns of before it looks for headers. -/
def warnings (command : CommandLine) : List LogLine :=
  if command.hasPartialHomes then [partialHomes] else []

/-- What a run reports, by the log of its conversions and their results. -/
def reportOn (command : CommandLine) (headers : List Path) (library : List LogLine)
    (results : List (Except StubError Summary)) : Report :=
  if headers.isEmpty then
    ⟨1, LogLine.shown command.level (warnings command ++ [line .error "no headers found"])⟩
  else
    ⟨if failures results = 0 then 0 else 1,
      LogLine.shown command.level (warnings command ++ library ++ reportLines headers results)⟩

/-- The headers of a command, as its paths stand for them, or why they cannot be collected. -/
def headersIn (command : CommandLine) (tree : FileTree) : Except StubError (List Path) :=
  ((Collection.collect (command.paths.map Path.ofString) : StateM FileTree _).run tree).1

/-- What a run reports when headers cannot be collected. -/
def reportFailure (command : CommandLine) (error : StubError) : Report :=
  ⟨1, LogLine.shown command.level (warnings command ++ [uncollected error])⟩

/-- The runs of a command. The conversions of its headers take turns with each other, call by call,
and so do the lines that they log. Without headers nothing is converted. -/
inductive Runs (command : CommandLine) (start : FileTree) :
    List (Except StubError Summary) → Report → FileTree → Prop
  | converted {headers : List Path} {conversions : List Conversion} {library : List LogLine}
      {after : FileTree} (collected : headersIn command start = .ok headers)
      (finishes : Finishes command.options headers start conversions after)
      (logged : library.Perm (conversions.flatMap Prod.fst)) :
      Runs command start (conversions.map Prod.snd)
        (reportOn command headers library (conversions.map Prod.snd)) after
  | stopped {error : StubError} (failed : headersIn command start = .error error) :
      Runs command start [] (reportFailure command error) start

theorem run_eq {m : Type → Type} [Monad m] [LawfulMonad m] [Files m] (command : CommandLine) :
    (run command : m Report) = (do
      match ← Collection.collect (command.paths.map Path.ofString) with
      | .error error => return reportFailure command error
      | .ok headers =>
          let conversions ← convertAll command.options headers
          return reportOn command headers (conversions.flatMap Prod.fst)
            (conversions.map Prod.snd)) := by
  unfold run
  refine bind_congr ?_
  rintro (error | headers)
  · rfl
  · cases headers with
    | nil =>
        show _ = (pure [] : m (List Conversion)) >>= _
        rw [pure_bind]
        rfl
    | cons header headers => rfl

theorem run_of_error {command : CommandLine} {start : FileTree} {error : StubError}
    (failed : (Collection.collect (command.paths.map Path.ofString) : StateM FileTree _).run start =
      (.error error, start)) :
    (run command : StateM FileTree _).run start = (reportFailure command error, start) := by
  rw [run_eq, FileTree.run_bind failed]
  rfl

/-- To convert one header after the other is one of the runs. -/
theorem runs_run (command : CommandLine) (start : FileTree) :
    ∃ results, Runs command start results ((run command : StateM FileTree _).run start).1
      ((run command : StateM FileTree _).run start).2 := by
  have collected : (Collection.collect (command.paths.map Path.ofString) :
      StateM FileTree _).run start = (headersIn command start, start) :=
    Prod.ext rfl (Collection.onlyReads_collect _ start)
  cases found : headersIn command start with
  | error error =>
      rw [found] at collected
      rw [run_of_error collected]
      exact ⟨[], .stopped found⟩
  | ok headers =>
      rw [run_eq, FileTree.run_bind collected, found]
      have finishes := finishes_convertAll command.options headers start
      rcases converted : (convertAll command.options headers :
        StateM FileTree _).run start with ⟨conversions, after⟩
      rw [converted] at finishes
      dsimp only
      rw [FileTree.run_bind converted]
      exact ⟨_, .converted found finishes (.refl _)⟩

end Program

/-! ### Folders that cannot be read -/

/-- A path alone is a command line. -/
theorem CommandLine.parse_path {path : String} (filled : path ≠ "")
    (plain : path.toList.head? ≠ some '-') :
    CommandLine.parse [path] = .ok ⟨[path], none, none, false, 0, false⟩ := by
  have noOption : path ≠ "--" := by
    rintro rfl
    exact plain rfl
  have read : readArguments ⟨empty, .nothing⟩ [path] = .ok ⟨empty, .paths [path]⟩ := by
    rw [readArguments, if_neg noOption]
    split
    · next stop =>
        split at stop
        · next letters => simp [letters] at plain
        · next letters => simp [letters] at plain
        · cases stop
    · next reading step =>
        split at step
        · next letters => simp [letters] at plain
        · next letters => simp [letters] at plain
        · cases step
          rfl
  have settled : settle ⟨empty, .paths [path]⟩ = .ok ⟨[path], none, none, false, 0, false⟩ := by
    simp [settle, filled.symm, empty]
  rw [CommandLine.parse, read]
  simp only [bind, Except.bind, settled]
  rfl

theorem Search.below_singleton {folder : Path} {name : List Char} (filled : folder.text ≠ [])
    (ends : folder.text.getLast? ≠ some '/') (more : folder.components ≠ [.here])
    (whole : '/' ∉ name) : Search.below folder [name] = ⟨folder.text ++ '/' :: name⟩ := by
  have alone : Path.textOf [name] = name := by simp [Path.textOf]
  rw [Search.below, alone, Search.extend, if_neg more, Path.join, Path.isAbsolute_of_not_mem whole]
  simp [filled, ends]

/-- In a folder that holds one other folder alone a search fails when the path of that is too long. -/
theorem FileTree.glob_of_long {name deeper pattern : List Char} {folder : Path} :
    let tree := (empty.put [name] .folder).put [name, deeper] .folder
    Search.folder? pattern = some folder → tree.locate folder = .ok [name] →
    Search.isHeader [deeper] = false →
    maxPathSize < Text.size (Search.below folder [deeper]).text →
    tree.glob pattern = [.error ⟨Search.below folder [deeper], .nameTooLong⟩] := by
  intro tree spelled located other long
  have below : tree.below [name] = [([deeper], .folder)] := by
    simp [tree, below, put, empty]
  rw [glob, spelled]
  dsimp only
  rw [located]
  dsimp only
  rw [below, List.mergeSort_singleton]
  simp [meet, other, long]

theorem Collection.run_collect_of_glob {tree : FileTree} {argument : Path} {error : GlobError}
    (isFolder : tree.isFolder argument = true)
    (searched : tree.glob (Search.pattern argument) = [.error error]) (paths : List Path) :
    (collect (argument :: paths) : StateM FileTree _).run tree = (.error (.glob error), tree) := by
  have ran : (Files.glob (Search.pattern argument) : StateM FileTree _).run tree =
      (.ok (tree.glob (Search.pattern argument)), tree) := rfl
  refine run_collectBy_of_error ?_ paths
  rw [run_headersOf_of_isFolder isFolder ran, searched]
  rfl

/-! ### Lines as they are shown -/

namespace LogLine

def inPlainText (line : LogLine) : LogLine :=
  { line with text := Text.plain line.text }

theorem inPlainText_eq_self {line : LogLine} (visible : line.text.toList.all Text.isVisible) :
    line.inPlainText = line := by
  rw [inPlainText, Text.plain_eq_self (List.all_eq_true.1 visible)]

theorem filter_shown {keeps : LogLine → Bool} {level : Level}
    (blind : ∀ line, keeps line.inPlainText = keeps line)
    (visible : ∀ line, keeps line → line.level.rank ≤ level.rank) (log : List LogLine) :
    (shown level log).filter keeps = (log.filter keeps).map inPlainText := by
  have same : (shown level log).filter keeps =
      ((log.filter fun line => line.level.rank ≤ level.rank).filter keeps).map inPlainText := by
    rw [shown, List.filter_map]
    exact congrArg _ (List.filter_congr fun line _ => blind line)
  rw [same, List.filter_filter]
  refine congrArg _ (List.filter_congr fun line _ => ?_)
  rw [Bool.and_eq_left_iff_imp]
  exact fun kept => decide_eq_true (visible line kept)

theorem getLast?_shown {level : Level} {log : List LogLine} {last : LogLine}
    (visible : last.level.rank ≤ level.rank) :
    (shown level (log ++ [last])).getLast? = some last.inPlainText := by
  have kept : [last].filter (fun line => decide (line.level.rank ≤ level.rank)) = [last] :=
    List.filter_cons_of_pos (decide_eq_true visible)
  rw [shown, List.filter_append, kept, List.map_append]
  exact List.getLast?_concat

end LogLine

/-! ### What a report tells -/

namespace Program

def errorLine? : Except StubError Summary → Option LogLine
  | .error error => some (line .error error.report).inPlainText
  | .ok _ => none

/-- The line about declarations that the stub of a header does not have. -/
def lackLine? (header : Path) : Except StubError Summary → Option LogLine
  | .error _ => none
  | .ok summary =>
      if summary.omissions = [] then none
      else some (line .warn (header.toString ++ ": " ++ toString summary.omissions.length ++
        " declarations left out of " ++ summary.stub.toString)).inPlainText

def isError (line : LogLine) : Bool :=
  line.level = .error

def isOwnWarning (line : LogLine) : Bool :=
  line.level = .warn ∧ line.origin = .program

def countLine (written total : Nat) : LogLine :=
  line .info (toString written ++ " of " ++ toString total ++ " stubs written")

/-- A report that tells the results of all headers. -/
structure Tells (command : CommandLine) (headers : List Path)
    (results : List (Except StubError Summary)) (report : Report) : Prop where
  matched : List.Forall₂ (IsResultOf command.options) headers results
  success : report.status = 0 ↔ headers ≠ [] ∧ ∀ result ∈ results, result.isOk
  failure : report.status ≠ 0 → report.status = 1
  /-- One error for each header that failed, in the order of the headers. -/
  errors : report.log.filter isError =
    if headers = [] then [line .error "no headers found"] else results.filterMap errorLine?
  written : headers.length - failures results = results.countP (·.isOk)
  count : Level.info.rank ≤ command.level.rank → headers ≠ [] →
    report.log.getLast? = some (countLine (headers.length - failures results) headers.length)
  /-- One warning for each header whose stub lacks declarations. -/
  lacks : Level.info.rank ≤ command.level.rank → report.log.filter isOwnWarning =
    warnings command ++ (headers.zip results).filterMap fun pair => lackLine? pair.1 pair.2

theorem inPlainText_partialHomes : partialHomes.inPlainText = partialHomes :=
  LogLine.inPlainText_eq_self (by decide)

theorem isVisible_of_isDigit {c : Char} (digit : c.isDigit) : Text.isVisible c := by
  have bounds : 48 ≤ c.toNat ∧ c.toNat ≤ 57 := by
    simpa [Char.isDigit, UInt32.le_iff_toNat_le] using digit
  simp [Text.isVisible, show 32 ≤ c.toNat by omega, show c.toNat ≠ 127 by omega]

theorem inPlainText_countLine (written total : Nat) :
    (countLine written total).inPlainText = countLine written total := by
  have digits (count : Nat) : ∀ c ∈ (toString count).toList, Text.isVisible c := by
    intro c mem
    rw [Nat.toString_eq_repr, Nat.repr_eq_ofList_toDigits, String.toList_ofList] at mem
    exact isVisible_of_isDigit (Nat.isDigit_of_mem_toDigits (by decide) (by decide) mem)
  have words : " of ".toList.all Text.isVisible ∧ " stubs written".toList.all Text.isVisible := by
    decide
  refine LogLine.inPlainText_eq_self ?_
  rw [countLine, line, String.toList_append, String.toList_append, String.toList_append,
    List.all_append, List.all_append, List.all_append, List.all_eq_true.2 (digits written),
    List.all_eq_true.2 (digits total), words.1, words.2]
  rfl

/-- Lines of a result that are kept are the line of a choice. -/
theorem filter_reportLines {keeps : LogLine → Bool}
    {choose : Path → Except StubError Summary → Option LogLine}
    (each : ∀ header result, ((resultLines header result).filter keeps).map LogLine.inPlainText =
      (choose header result).toList)
    (count : ∀ text, keeps (line .info text) = false) (headers : List Path)
    (results : List (Except StubError Summary)) :
    ((reportLines headers results).filter keeps).map LogLine.inPlainText =
      (headers.zip results).filterMap fun pair => choose pair.1 pair.2 := by
  have none (text : String) : [line .info text].filter keeps = [] :=
    List.filter_cons_of_neg (by simp [count])
  rw [reportLines, List.filter_append, none, List.append_nil, List.filter_flatMap,
    List.map_flatMap, List.filterMap_eq_flatMap_toList]
  exact List.flatMap_congr fun pair _ => each pair.1 pair.2

theorem errors_resultLines (header : Path) (result : Except StubError Summary) :
    ((resultLines header result).filter isError).map LogLine.inPlainText =
      (errorLine? result).toList := by
  cases result with
  | error error => rfl
  | ok summary =>
      rw [resultLines]
      split <;> rfl

theorem lacks_resultLines (header : Path) (result : Except StubError Summary) :
    ((resultLines header result).filter isOwnWarning).map LogLine.inPlainText =
      (lackLine? header result).toList := by
  cases result with
  | error error => rfl
  | ok summary =>
      by_cases none : summary.omissions = []
      · rw [resultLines, lackLine?, if_pos none, if_pos (List.length_eq_zero_iff.2 none)]
        rfl
      · rw [resultLines, lackLine?, if_neg none, if_neg (mt List.length_eq_zero_iff.1 none)]
        rfl

theorem failures_eq_zero_iff {results : List (Except StubError Summary)} :
    failures results = 0 ↔ ∀ result ∈ results, result.isOk := by
  simp [failures]

theorem length_eq_failures_add (results : List (Except StubError Summary)) :
    results.length = failures results + results.countP (·.isOk) := by
  rw [failures, List.length_eq_countP_add_countP (·.isOk), Nat.add_comm]
  simp

/-- Of a whole log, the lines before any conversion and those of the results are kept. -/
theorem filter_log {keeps : LogLine → Bool}
    {choose : Path → Except StubError Summary → Option LogLine} {library : List LogLine}
    (each : ∀ header result, ((resultLines header result).filter keeps).map LogLine.inPlainText =
      (choose header result).toList)
    (count : ∀ text, keeps (line .info text) = false)
    (foreign : ∀ line, line.IsIncidental → ¬keeps line)
    (incidental : ∀ line ∈ library, line.IsIncidental) (first : List LogLine)
    (headers : List Path) (results : List (Except StubError Summary)) :
    ((first ++ library ++ reportLines headers results).filter keeps).map LogLine.inPlainText =
      (first.filter keeps).map LogLine.inPlainText ++
        (headers.zip results).filterMap fun pair => choose pair.1 pair.2 := by
  have none : library.filter keeps = [] :=
    List.filter_eq_nil_iff.2 fun line mem => foreign line (incidental line mem)
  rw [List.filter_append, List.filter_append, none, List.append_nil, List.map_append,
    filter_reportLines each count]

theorem filter_warnings (command : CommandLine) : (warnings command).filter isError = [] ∧
    ((warnings command).filter isOwnWarning).map LogLine.inPlainText = warnings command := by
  unfold warnings
  split
  · exact ⟨rfl, congrArg (fun line => [line]) inPlainText_partialHomes⟩
  · exact ⟨rfl, rfl⟩

theorem filter_isError_shown (level : Level) (log : List LogLine) :
    (LogLine.shown level log).filter isError = (log.filter isError).map LogLine.inPlainText := by
  refine LogLine.filter_shown (fun _ => rfl) (fun line kept => ?_) log
  rw [of_decide_eq_true kept]
  cases level <;> decide

theorem filter_isOwnWarning_shown {level : Level} (shows : Level.info.rank ≤ level.rank)
    (log : List LogLine) : (LogLine.shown level log).filter isOwnWarning =
      (log.filter isOwnWarning).map LogLine.inPlainText := by
  refine LogLine.filter_shown (fun _ => rfl) (fun line kept => ?_) log
  rw [(of_decide_eq_true kept).1]
  exact Nat.le_trans (by decide) shows

theorem tells_reportOn (command : CommandLine) {headers : List Path} {library : List LogLine}
    {results : List (Except StubError Summary)}
    (matched : List.Forall₂ (IsResultOf command.options) headers results)
    (incidental : ∀ line ∈ library, line.IsIncidental) :
    Tells command headers results (reportOn command headers library results) := by
  have paired := matched.length_eq
  have whole := length_eq_failures_add results
  have written : headers.length - failures results = results.countP (·.isOk) := by
    omega
  obtain ⟨silent, warned⟩ := filter_warnings command
  by_cases none : headers = []
  · subst none
    cases matched
    have log : (reportOn command [] library []).log =
        LogLine.shown command.level (warnings command ++ [line .error "no headers found"]) := rfl
    refine ⟨.nil, by simp [reportOn], fun _ => rfl, ?_, rfl, fun _ some => absurd rfl some, ?_⟩
    · rw [log, filter_isError_shown, List.filter_append, silent, if_pos rfl]
      exact congrArg (fun line => [line]) (LogLine.inPlainText_eq_self (by decide))
    · intro shows
      rw [log, filter_isOwnWarning_shown shows, List.filter_append, List.map_append, warned]
      rfl
  · have report : reportOn command headers library results =
        ⟨if failures results = 0 then 0 else 1, LogLine.shown command.level
          (warnings command ++ library ++ reportLines headers results)⟩ := by
      rw [reportOn, if_neg (mt List.isEmpty_iff.1 none)]
    rw [report]
    refine ⟨matched, ?_, ?_, ?_, written, fun shows _ => ?_, fun shows => ?_⟩
    · rw [← failures_eq_zero_iff]
      simp [none]
    · dsimp only
      split
      · exact fun differs => absurd rfl differs
      · exact fun _ => rfl
    · have second : (headers.zip results).map Prod.snd = results :=
        List.map_snd_zip (Nat.le_of_eq paired.symm)
      rw [filter_isError_shown, filter_log errors_resultLines (fun _ => rfl) ?_ incidental, silent,
        if_neg none]
      · rw [List.map_nil, List.nil_append]
        conv_rhs => rw [← second, List.filterMap_map]
        rfl
      · exact fun line incidental error => incidental.level (of_decide_eq_true error)
    · rw [reportLines, ← List.append_assoc, LogLine.getLast?_shown shows]
      exact congrArg some (inPlainText_countLine _ _)
    · rw [filter_isOwnWarning_shown shows,
        filter_log lacks_resultLines (fun _ => rfl) ?_ incidental, warned]
      exact fun line incidental own => incidental.origin (of_decide_eq_true own).2

/-- A report that tells why no headers could be collected, and speaks of no header. -/
structure TellsFailure (command : CommandLine) (error : StubError) (report : Report) : Prop where
  failure : report.status = 1
  errors : report.log.filter isError = [(uncollected error).inPlainText]
  alone : ∀ line ∈ report.log, isError line ∨ line ∈ warnings command

theorem inPlainText_of_mem_warnings {command : CommandLine} {line : LogLine}
    (inside : line ∈ warnings command) : line.inPlainText = line := by
  unfold warnings at inside
  split at inside
  · rw [List.mem_singleton.1 inside, inPlainText_partialHomes]
  · cases inside

theorem tellsFailure_reportFailure (command : CommandLine) (error : StubError) :
    TellsFailure command error (reportFailure command error) := by
  have log : (reportFailure command error).log =
      LogLine.shown command.level (warnings command ++ [uncollected error]) := rfl
  refine ⟨rfl, ?_, fun line inside => ?_⟩
  · rw [log, filter_isError_shown, List.filter_append, (filter_warnings command).1]
    rfl
  · rw [log, LogLine.shown] at inside
    obtain ⟨line, kept, rfl⟩ := List.mem_map.1 inside
    rcases List.mem_append.1 (List.mem_filter.1 kept).1 with warning | last
    · right
      show line.inPlainText ∈ warnings command
      rwa [inPlainText_of_mem_warnings warning]
    · left
      rw [List.mem_singleton.1 last]
      rfl

theorem head?_append_of_head? {first : String} {c : Char} (rest : String)
    (begins : first.toList.head? = some c) : (first ++ rest).toList.head? = some c := by
  rw [String.toList_append, List.head?_append, begins]
  rfl

/-- Without homes an error of a header says what failed. -/
theorem failed_of_isResultOf {options : Options} (noHome : options.cppHome = none) {header : Path}
    {error : StubError} (result : IsResultOf options header (.error error)) :
    error.report.toList.head? = some 'f' := by
  rcases result with ⟨job, -, concerns⟩ | ⟨outside, rejected, -⟩
  · cases error with
    | read path cause =>
        exact head?_append_of_head? _ (head?_append_of_head? _
          (head?_append_of_head? path.toString (by decide)))
    | write path cause =>
        exact head?_append_of_head? _ (head?_append_of_head? _
          (head?_append_of_head? path.toString (by decide)))
    | parse path cause =>
        exact head?_append_of_head? _ (head?_append_of_head? _
          (head?_append_of_head? path.toString (by decide)))
    | outsideHome outside => exact concerns.elim
    | pattern text cause => exact concerns.elim
    | glob error => exact concerns.elim
  · unfold Job.ofHeader Job.folderOf at rejected
    rw [noHome] at rejected
    cases rejected

theorem head?_plain {text : String} {c : Char} (begins : text.toList.head? = some c)
    (visible : Text.isVisible c) : (Text.plain text).toList.head? = some c := by
  obtain ⟨rest, whole⟩ := List.head?_eq_some_iff.1 begins
  simp [Text.plain, whole, Text.plainFrom, Text.Control.shows, visible]

theorem Tells.exists_header {command : CommandLine} {headers : List Path}
    {results : List (Except StubError Summary)} {report : Report}
    (tells : Tells command headers results report) {result : Except StubError Summary}
    (inside : result ∈ results) : ∃ header, IsResultOf command.options header result := by
  obtain ⟨place, rfl⟩ := List.get_of_mem inside
  obtain ⟨paired, matched⟩ := List.forall₂_iff_get.1 tells.matched
  exact ⟨_, matched place (by omega) place.isLt⟩

/-- A report of why headers cannot be collected tells no results of headers. -/
theorem not_tells_of_tellsFailure {command : CommandLine} (noHome : command.cppHome = none)
    {error : StubError} {report : Report} (told : TellsFailure command error report)
    (headers : List Path) (results : List (Except StubError Summary)) :
    ¬Tells command headers results report := by
  intro tells
  have collect : (uncollected error).inPlainText.text.toList.head? = some 'c' :=
    head?_plain (head?_append_of_head? error.report (by decide)) (by decide)
  have same := told.errors.symm.trans tells.errors
  split at same
  · rw [(List.cons.inj same).1] at collect
    revert collect
    decide
  · have among : (uncollected error).inPlainText ∈ results.filterMap errorLine? :=
      same ▸ List.mem_singleton_self _
    obtain ⟨result, inside, told⟩ := List.mem_filterMap.1 among
    have unplaced : command.options.cppHome = none := by simp [CommandLine.options, noHome]
    cases result with
    | ok summary => cases told
    | error failed =>
        obtain ⟨header, matched⟩ := tells.exists_header inside
        have begins : (line .error failed.report).inPlainText.text.toList.head? = some 'f' :=
          head?_plain (failed_of_isResultOf unplaced matched) (by decide)
        rw [Option.some.inj told, collect] at begins
        revert begins
        decide

/-- Every run of an accepted command line tells the results of all headers, in whatever order its
conversions take their turns. Where the headers cannot be collected it tells that alone, and leaves
the files as they are. -/
theorem runArguments_tells {arguments : List String} {command : CommandLine}
    (accepted : CommandLine.parse arguments = .ok command) (start : FileTree) :
    (∃ results, Runs command start results
      ((runArguments arguments : StateM FileTree _).run start).1
      ((runArguments arguments : StateM FileTree _).run start).2) ∧
    ∀ results report after, Runs command start results report after →
      match headersIn command start with
      | .ok headers => Tells command headers results report
      | .error error => TellsFailure command error report ∧ results = [] ∧ after = start := by
  constructor
  · rw [runArguments, accepted]
    exact runs_run command start
  · intro results report after runs
    cases runs with
    | converted collected finishes logged =>
        rw [collected]
        have conversions := finishes.conversions
        refine tells_reportOn command ?_ fun line mem => ?_
        · rw [List.forall₂_map_right_iff]
          exact conversions.imp fun _ _ converted => converted.result
        · exact IsConversionOf.isIncidental conversions line (logged.mem_iff.1 mem)
    | stopped failed =>
        rw [failed]
        exact ⟨tellsFailure_reportFailure command _, rfl, rfl⟩

/-- A run on a header that is there and one that is missing. -/
theorem runArguments_tells_of_two :
    let command : CommandLine := ⟨["a.hpp", "b.hpp"], none, none, false, 0, false⟩
    let start := FileTree.empty.put ["a.hpp".toList] (.file "int x;".toUTF8)
    let headers := [Path.ofString "a.hpp", Path.ofString "b.hpp"]
    let report := ((runArguments ["a.hpp", "b.hpp"] : StateM FileTree _).run start).1
    CommandLine.parse ["a.hpp", "b.hpp"] = .ok command ∧ headersIn command start = .ok headers ∧
      ∃ results, Tells command headers results report := by
  intro command start headers report
  have accepted : CommandLine.parse ["a.hpp", "b.hpp"] = .ok command := by decide
  have collected : headersIn command start = .ok headers := by
    cbv
  obtain ⟨⟨results, runs⟩, tells⟩ := runArguments_tells accepted start
  have told := tells results report _ runs
  rw [collected] at told
  exact ⟨accepted, collected, results, told⟩

/-- No headers are told of when a folder below the only path cannot be read. -/
theorem runArguments_unread :
    let name := List.replicate 255 'd'
    let deeper := List.replicate 255 'e'
    let argument := (List.replicate 14 (name ++ "/../".toList)).flatten ++ name
    let command : CommandLine := ⟨[String.ofList argument], none, none, false, 0, false⟩
    let start := (FileTree.empty.put [name] .folder).put [name, deeper] .folder
    let error : StubError := .glob ⟨⟨argument ++ '/' :: deeper⟩, .nameTooLong⟩
    let report := ((runArguments [String.ofList argument] : StateM FileTree _).run start).1
    CommandLine.parse [String.ofList argument] = .ok command ∧
      headersIn command start = .error error ∧ report.status = 1 ∧
      report.log.filter isError = [(uncollected error).inPlainText] ∧
      ∀ headers results, ¬Tells command headers results report := by
  intro name deeper argument command start error report
  have accepted : CommandLine.parse [String.ofList argument] = .ok command := by
    refine CommandLine.parse_path (fun empty => ?_) ?_
    · have none := congrArg String.toList empty
      rw [String.toList_ofList] at none
      revert none
      decide +kernel
    · rw [String.toList_ofList]
      decide +kernel
  have spelled : Search.folder? (Search.pattern ⟨argument⟩) = some ⟨argument⟩ := by decide +kernel
  have located : start.locate ⟨argument⟩ = .ok [name] := by decide +kernel
  have isFolder : start.isFolder ⟨argument⟩ = true := by decide +kernel
  have below : Search.below ⟨argument⟩ [deeper] = ⟨argument ++ '/' :: deeper⟩ :=
    Search.below_singleton (by decide +kernel) (by decide +kernel) (by decide +kernel)
      (by decide +kernel)
  have long : FileTree.maxPathSize < Text.size (Search.below ⟨argument⟩ [deeper]).text := by
    have size : Text.size name = 255 := by decide +kernel
    have size' : Text.size deeper = 255 := by decide +kernel
    rw [below]
    simp [argument, size, size', FileTree.maxPathSize, List.replicate_succ]
    decide
  have globbed := FileTree.glob_of_long spelled located (by decide +kernel) long
  rw [below] at globbed
  have collected := Collection.run_collect_of_glob isFolder globbed []
  have paths : command.paths.map Path.ofString = [⟨argument⟩] := by
    simp [command, Path.ofString]
  rw [← paths] at collected
  have uncollectable : headersIn command start = .error error := by
    rw [headersIn, collected]
  have ran : report = reportFailure command error := by
    show ((runArguments [String.ofList argument] : StateM FileTree _).run start).1 = _
    rw [runArguments, accepted]
    exact congrArg Prod.fst (run_of_error collected)
  have told := tellsFailure_reportFailure command error
  rw [← ran] at told
  exact ⟨accepted, uncollectable, told.failure, told.errors, not_tells_of_tellsFailure rfl told⟩

end Program

end PxdStub
