import PxdStub.Collection
import PxdStub.CommandLine
import PxdStub.Generation

/-!
A run of the program: it collects the headers, makes their stubs, and reports on every one.
-/

namespace PxdStub

structure Report where
  status : Nat
  log : List LogLine
  deriving DecidableEq, Repr

namespace Program

def line (level : Level) (text : String) : LogLine :=
  ⟨level, .program, text⟩

def partialHomes : LogLine :=
  line .warn
    "--cpp-home and --cython-home only apply together, writing stubs to the current directory"

def uncollected (error : StubError) : LogLine :=
  line .error ("cannot collect headers: " ++ error.report)

def resultLines (header : Path) : Except StubError Summary → List LogLine
  | .error error => [line .error error.report]
  | .ok summary =>
      let path := header.toString
      let stub := summary.stub.toString
      let count := summary.omissions.length
      if count = 0 then []
      else [line .warn s!"{path}: {count} declarations left out of {stub}"]

def failures (results : List (Except StubError Summary)) : Nat :=
  results.countP fun result => !result.isOk

/-- The report on results, of which there is one for each header. -/
def reportLines (headers : List Path) (results : List (Except StubError Summary)) :
    List LogLine :=
  let total := headers.length
  let written := total - failures results
  ((headers.zip results).flatMap fun (header, result) => resultLines header result) ++
    [line .info s!"{written} of {total} stubs written"]

variable {m : Type → Type} [Monad m] [Files m]

/-- Runs an accepted command line. The status is 0 when there are headers and each got its stub. -/
def run (command : CommandLine) : m Report := do
  let warnings := if command.hasPartialHomes then [partialHomes] else []
  match ← Collection.collect (command.paths.map Path.ofString) with
  | .error error => return ⟨1, LogLine.shown command.level (warnings ++ [uncollected error])⟩
  | .ok headers =>
      if headers.isEmpty then
        return ⟨1, LogLine.shown command.level (warnings ++ [line .error "no headers found"])⟩
      else
        let conversions ← convertAll command.options headers
        let results := conversions.map Prod.snd
        let log := warnings ++ conversions.flatMap Prod.fst ++ reportLines headers results
        return ⟨if failures results = 0 then 0 else 1, LogLine.shown command.level log⟩

def stopStatus : CommandLine.Stop → Nat
  | .help | .version => 0
  | _ => 2

def runArguments (arguments : List String) : m Report :=
  match CommandLine.parse arguments with
  | .error stop => return ⟨stopStatus stop, []⟩
  | .ok command => run command

end Program

end PxdStub
