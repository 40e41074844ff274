import PxdStub.Program

/-!
The program on the files of the machine.
-/

namespace PxdStub

/-- The system's number and text for an error, where it has one. -/
def FileError.ofError : IO.Error → FileError
  | .noFileOrDirectory _ code details => .system code.toNat details
  | .alreadyExists _ code details => .system code.toNat details
  | .inappropriateType _ code details => .system code.toNat details
  | .invalidArgument _ code details => .system code.toNat details
  | .permissionDenied _ code details => .system code.toNat details
  | error => .system 5 error.toString

def attempt (action : IO α) : IO (Except FileError α) := do
  try
    let value ← action
    return .ok value
  catch error => return .error (.ofError error)

def readMachineText (path : Path) : IO (Except FileError String) := do
  match ← attempt (IO.FS.readBinFile path.toString) with
  | .error error => return .error error
  | .ok content =>
      match String.fromUTF8? content with
      | some text => return .ok text
      | none => return .error .notText

def isMachineFolder (path : Path) : IO Bool := do
  try
    let real ← IO.FS.realPath path.toString
    real.isDir
  catch _ => return false

def isMachineFile (path : Path) : IO Bool := do
  try
    let real ← IO.FS.realPath path.toString
    let data ← real.metadata
    return data.type == .file
  catch _ => return false

/-- What a search for headers comes upon below a folder of the machine. -/
partial def machineSearch (folder : Path) : IO (List (Except GlobError Path)) := do
  let listed ← attempt do
    let real ← IO.FS.realPath folder.toString
    real.readDir
  match listed with
  | .error cause => return [.error ⟨folder, cause⟩]
  | .ok entries =>
      let names := (entries.map fun entry => entry.fileName).qsort (· < ·)
      let mut found := []
      for name in names do
        let path := Search.below folder [name.toList]
        if Search.isHeader [name.toList] then
          found := found ++ [.ok path]
        if ← isMachineFolder path then
          found := found ++ (← machineSearch path)
      return found

instance : Files IO where
  readText := readMachineText
  writeText path text := attempt (IO.FS.writeFile path.toString text)
  makeFolders path := attempt (IO.FS.createDirAll path.toString)
  isFile := isMachineFile
  isFolder := isMachineFolder
  glob pattern := do
    match Search.folder? pattern with
    | none => return .ok []
    | some folder =>
        if ← isMachineFolder folder then return .ok (← machineSearch folder)
        else return .ok []

def usage : String :=
  "Generate Cython .pxd declaration stubs from C++ headers.\n\n" ++
  "Usage: pxdstub [OPTIONS] <PATH>...\n\n" ++
  "Arguments:\n" ++
  "  <PATH>...  Header files, or directories searched recursively for *.hpp\n\n" ++
  "Options:\n" ++
  "      --cpp-home <DIR>     Root of the C++ source tree\n" ++
  "      --cython-home <DIR>  Root of the generated stub tree\n" ++
  "      --no-content         Write stubs with empty extern blocks\n" ++
  "  -v, --verbose...         More logging (-v debug, -vv trace)\n" ++
  "  -q, --quiet              Only log errors\n" ++
  "  -h, --help               Print help\n" ++
  "  -V, --version            Print version\n"

def CommandLine.Stop.message : CommandLine.Stop → String
  | .help => usage
  | .version => "pxdstub 0.1.0\n"
  | .unknownOption => "error: unexpected argument\n"
  | .conflict => "error: arguments cannot be used together\n"
  | .missingPaths => "error: no <PATH> was given\n"
  | .invalidValue => "error: a value is required\n"
  | .unneededValue => "error: unexpected value\n"

def Origin.label : Origin → String
  | .items => "items"
  | .declarations => "declarations"
  | .generation => "generation"
  | .program => "pxdstub"

end PxdStub

open PxdStub in
def main (arguments : List String) : IO UInt32 := do
  match CommandLine.parse arguments with
  | .error stop =>
      let status := Program.stopStatus stop
      let stream ← if status = 0 then IO.getStdout else IO.getStderr
      stream.putStr stop.message
      return UInt32.ofNat status
  | .ok command =>
      let report ← (Program.run command : IO Report)
      for line in report.log do
        IO.eprintln ("[" ++ line.level.label ++ " " ++ line.origin.label ++ "] " ++ line.text)
      return UInt32.ofNat report.status
