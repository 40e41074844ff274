import PxdStub.Files
import PxdStub.Header
import PxdStub.Include
import PxdStub.Log
import PxdStub.Stub

/-!
Making one stub: the header and its source are read, the stub is prepared from their texts, and only
then is anything written.
-/

namespace PxdStub

structure Summary where
  stub : Path
  namespaceName : Option String
  modules : List String
  declarations : Nat
  omissions : List Omission
  deriving DecidableEq, Repr

def sortedNames (names : List String) : List String :=
  (names.mergeSort fun left right => Text.le left.toList right.toList).eraseReps

namespace Job

def line (job : Job) : LogLine :=
  ⟨.debug, .generation, "header " ++ job.header.toString ++ " (source " ++ job.source.toString ++
    ") -> " ++ job.stub.toString⟩

def modulesOf (job : Job) (text : String) : Except StubError (List String) :=
  match Include.find text.toList (job.header.fileName?.getD []) job.folder with
  | .ok modules => .ok modules
  | .error error => .error (.parse job.header error)

/-- The modules that header and source include. The source is missing, cannot be read, or has a
text. -/
def modules (job : Job) (header : String) (source? : Option (Except FileError String)) :
    Except StubError (List String) := do
  let own ← job.modulesOf header
  match source? with
  | none => return sortedNames own
  | some (.error cause) => throw (.read job.source cause)
  | some (.ok source) =>
      let further ← job.modulesOf source
      return sortedNames (own ++ further)

def namespaceText : Option String → String
  | none => "None"
  | some name => "Some(\"" ++ name ++ "\")"

def headerLine (job : Job) (header : Header) (modules : List String) : LogLine :=
  let path := job.header.toString
  let name := namespaceText header.namespaceName
  let includes := modules.length
  let declarations := header.declarations.length
  ⟨.info, .generation,
    s!"{path}: namespace {name}, {includes} includes, {declarations} declarations"⟩

def stubOf (job : Job) (options : Options) (hasSource : Bool) (modules : List String)
    (header : Header) : Stub :=
  { header := job.header
    source := if hasSource then some job.source else none
    modules
    namespaceName := header.namespaceName
    showContent := options.showContent
    declarations := header.declarations }

def summaryOf (job : Job) (modules : List String) (header : Header) : Summary :=
  { stub := job.stub
    namespaceName := header.namespaceName
    modules
    declarations := header.declarations.length
    omissions := header.omissions }

/-- The stub of a job and the summary of its making, from the texts of header and source. -/
def prepare (job : Job) (options : Options) (text : String)
    (source? : Option (Except FileError String)) :
    List LogLine × Except StubError (Stub × Summary) :=
  match job.modules text source? with
  | .error error => ([], .error error)
  | .ok modules =>
      let run := Header.ofText text.toList
      let log := run.notes.map Note.line
      match run.result with
      | .error error => (log, .error (.parse job.header error))
      | .ok header =>
          (log ++ [job.headerLine header modules],
            .ok (job.stubOf options source?.isSome modules header, job.summaryOf modules header))

variable {m : Type → Type} [Monad m] [Files m]

def write (job : Job) (stub : Stub) : m (Except StubError Unit) := do
  match ← Files.makeFolders job.folder with
  | .error cause => return .error (.write job.folder cause)
  | .ok () =>
      match ← Files.writeText job.stub stub.render with
      | .error cause => return .error (.write job.stub cause)
      | .ok () => return .ok ()

/-- Makes the stub of a job, with the log of its making. -/
def generate (job : Job) (options : Options) : m (List LogLine × Except StubError Summary) := do
  match ← Files.readText job.header with
  | .error cause => return ([], .error (.read job.header cause))
  | .ok text =>
      let source? ← do
        if ← Files.isFile job.source then
          let read ← Files.readText job.source
          pure (some read)
        else pure none
      match job.prepare options text source? with
      | (log, .error error) => return (log, .error error)
      | (log, .ok (stub, summary)) =>
          match ← job.write stub with
          | .error error => return (log, .error error)
          | .ok () =>
              return (log ++ [⟨.info, .generation, "wrote " ++ job.stub.toString⟩], .ok summary)

end Job

variable {m : Type → Type} [Monad m] [Files m]

def convert (options : Options) (header : Path) :
    m (List LogLine × Except StubError Summary) :=
  match Job.ofHeader header options with
  | .error error => return ([], .error (.outsideHome error))
  | .ok job => do
      let (log, result) ← job.generate options
      return (job.line :: log, result)

def convertAll (options : Options) (headers : List Path) :
    m (List (List LogLine × Except StubError Summary)) :=
  headers.mapM (convert options)

end PxdStub
