import PxdStub.Job
import PxdStub.Log
import PxdStub.Text.Find

/-!
The command line: paths, the two homes, and flags.

Options and paths may be mixed; behind `--` all is a path. A value stays pending until the next
option or the end settles it, and only then is it checked.
-/

namespace PxdStub

structure CommandLine where
  paths : List String
  cppHome : Option String
  cythonHome : Option String
  noContent : Bool
  /-- How often more logging is asked for. -/
  verbosity : Nat
  quiet : Bool
  deriving DecidableEq, Repr

namespace CommandLine

/-- Why the reading of a command line stops before its end. -/
inductive Stop where
  | help
  | version
  | unknownOption
  | conflict
  | missingPaths
  | invalidValue
  | unneededValue
  deriving DecidableEq, Repr

inductive Home where
  | cpp
  | cython
  deriving DecidableEq, Repr

/-- What has been read and not yet been settled. -/
inductive Pending where
  | nothing
  | home (which : Home) (value : Option String)
  | paths (values : List String)
  deriving DecidableEq, Repr

structure Reading where
  settled : CommandLine
  pending : Pending
  deriving DecidableEq, Repr

/-- More requests for logging than this count no further. -/
def maxVerbosity : Nat := 255

def empty : CommandLine := ⟨[], none, none, false, 0, false⟩

def home? (line : CommandLine) : Home → Option String
  | .cpp => line.cppHome
  | .cython => line.cythonHome

/-- A home is given once, and is not empty. -/
def setHome (line : CommandLine) (which : Home) (value : String) : Except Stop CommandLine :=
  if (line.home? which).isSome then .error .conflict
  else if value = "" then .error .invalidValue
  else match which with
    | .cpp => .ok { line with cppHome := some value }
    | .cython => .ok { line with cythonHome := some value }

def settle (reading : Reading) : Except Stop CommandLine :=
  match reading.pending with
  | .nothing => .ok reading.settled
  | .home _ none => .error .invalidValue
  | .home which (some value) => reading.settled.setHome which value
  | .paths values =>
      if values.contains "" then .error .invalidValue
      else .ok { reading.settled with paths := reading.settled.paths ++ values }

def setQuiet (line : CommandLine) : Except Stop CommandLine :=
  if line.quiet then .error .conflict else .ok { line with quiet := true }

def setNoContent (line : CommandLine) : Except Stop CommandLine :=
  if line.noContent then .error .conflict else .ok { line with noContent := true }

def moreVerbose (line : CommandLine) : CommandLine :=
  { line with verbosity := min (line.verbosity + 1) maxVerbosity }

/-- What a flag does to a settled command line. -/
abbrev Flag := CommandLine → Except Stop CommandLine

def longFlag? : String → Option Flag
  | "no-content" => some setNoContent
  | "quiet" => some setQuiet
  | "verbose" => some fun line => .ok line.moreVerbose
  | "help" => some fun _ => .error .help
  | "version" => some fun _ => .error .version
  | _ => none

def shortFlag? : Char → Option Flag
  | 'q' => some setQuiet
  | 'v' => some fun line => .ok line.moreVerbose
  | 'h' => some fun _ => .error .help
  | 'V' => some fun _ => .error .version
  | _ => none

def longHome? : String → Option Home
  | "cpp-home" => some .cpp
  | "cython-home" => some .cython
  | _ => none

def applyFlag (reading : Reading) (flag : Flag) : Except Stop Reading := do
  let settled ← settle reading
  let settled ← flag settled
  return ⟨settled, .nothing⟩

def readHome (reading : Reading) (which : Home) (value? : Option String) :
    Except Stop Reading := do
  let settled ← settle reading
  match value? with
  | some value => return ⟨← settled.setHome which value, .nothing⟩
  | none => return ⟨settled, .home which none⟩

/-- An option with two dashes; its value may follow an equals sign. -/
def readLong (reading : Reading) (option : List Char) : Except Stop Reading :=
  let (name, value?) := match Text.cut? ['='] option with
    | some (name, value) => (String.ofList name, some (String.ofList value))
    | none => (String.ofList option, none)
  match longHome? name with
  | some which => readHome reading which value?
  | none =>
      match longFlag? name with
      | none => .error .unknownOption
      | some flag =>
          if value?.isSome then .error .unneededValue else applyFlag reading flag

/-- Flags of one letter, several of which may share a dash. -/
def readShort (reading : Reading) : List Char → Except Stop Reading
  | [] => .ok reading
  | letter :: rest =>
      match shortFlag? letter with
      | none => .error .unknownOption
      | some flag =>
          match applyFlag reading flag with
          | .error stop => .error stop
          | .ok reading => readShort reading rest

def readPath (reading : Reading) (path : String) : Except Stop Reading :=
  match reading.pending with
  | .paths values => .ok { reading with pending := .paths (values ++ [path]) }
  | _ => do return ⟨← settle reading, .paths [path]⟩

/-- An argument that is no option: the value that a home waits for, or a path. -/
def readPlain (reading : Reading) (argument : String) : Except Stop Reading :=
  match reading.pending with
  | .home which none => .ok { reading with pending := .home which (some argument) }
  | _ => readPath reading argument

def readPaths (reading : Reading) : List String → Except Stop Reading
  | [] => .ok reading
  | path :: rest =>
      match readPath reading path with
      | .error stop => .error stop
      | .ok reading => readPaths reading rest

def readArguments (reading : Reading) : List String → Except Stop Reading
  | [] => .ok reading
  | argument :: rest =>
      let step := match argument.toList with
        | '-' :: '-' :: option => readLong reading option
        | '-' :: letter :: letters => readShort reading (letter :: letters)
        | _ => readPlain reading argument
      if argument = "--" then readPaths reading rest
      else match step with
        | .error stop => .error stop
        | .ok reading => readArguments reading rest

def parse (arguments : List String) : Except Stop CommandLine := do
  let reading ← readArguments ⟨empty, .nothing⟩ arguments
  let line ← settle reading
  if 0 < line.verbosity && line.quiet then throw .conflict
  else if line.paths.isEmpty then throw .missingPaths
  else return line

def options (line : CommandLine) : Options :=
  { cppHome := line.cppHome.map Path.ofString
    cythonHome := line.cythonHome.map Path.ofString
    showContent := !line.noContent }

def level (line : CommandLine) : Level :=
  if line.quiet then .error
  else match line.verbosity with
    | 0 => .info
    | 1 => .debug
    | _ => .trace

def hasPartialHomes (line : CommandLine) : Bool :=
  line.cppHome.isSome != line.cythonHome.isSome

end CommandLine

end PxdStub
