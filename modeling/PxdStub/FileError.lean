import PxdStub.Job
import PxdStub.ParseError

/-!
What can go wrong with files, with a search for headers, and with one conversion.
-/

namespace PxdStub

inductive FileError where
  /-- An error of the operating system, with its number. -/
  | system (code : Nat) (text : String)
  | notText
  /-- A path with a NUL character, which no file can have. -/
  | notAPath
  deriving DecidableEq, Repr

namespace FileError

def notFound : FileError := system 2 "No such file or directory"

def alreadyExists : FileError := system 17 "File exists"

def notAFolder : FileError := system 20 "Not a directory"

def isAFolder : FileError := system 21 "Is a directory"

def nameTooLong : FileError := system 36 "File name too long"

def message : FileError → String
  | system code text => s!"{text} (os error {code})"
  | notText => "stream did not contain valid UTF-8"
  | notAPath => "file name contained an unexpected NUL byte"

end FileError

/-- Where a pattern is no pattern, and why. -/
structure PatternError where
  position : Nat
  reason : String
  deriving DecidableEq, Repr

def PatternError.message (error : PatternError) : String :=
  let position := error.position
  let reason := error.reason
  s!"Pattern syntax error near position {position}: {reason}"

/-- A folder that a search cannot read. -/
structure GlobError where
  path : Path
  cause : FileError
  deriving DecidableEq, Repr

def GlobError.message (error : GlobError) : String :=
  "attempting to read `" ++ error.path.toString ++ "` resulted in an error: " ++
    error.cause.message

inductive StubError where
  | read (path : Path) (cause : FileError)
  | write (path : Path) (cause : FileError)
  | outsideHome (error : OutsideHome)
  | parse (header : Path) (cause : ParseError)
  | pattern (text : String) (cause : PatternError)
  | glob (error : GlobError)
  deriving DecidableEq, Repr

namespace StubError

def message : StubError → String
  | read path _ => "failed to read " ++ path.toString
  | write path _ => "failed to write " ++ path.toString
  | outsideHome error =>
      error.header.toString ++ " is not inside the C++ home " ++ error.home.toString
  | parse header _ => "failed to parse " ++ header.toString
  | pattern text _ => "invalid search pattern `" ++ text ++ "`"
  | glob error => error.message

def cause? : StubError → Option String
  | read _ cause | write _ cause => some cause.message
  | outsideHome _ => none
  | parse _ cause => some cause.message
  | pattern _ cause => some cause.message
  | glob _ => none

def report (error : StubError) : String :=
  match error.cause? with
  | some cause => error.message ++ ": " ++ cause
  | none => error.message

end StubError

end PxdStub
