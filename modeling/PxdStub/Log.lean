import PxdStub.Item.Outcome
import PxdStub.Text.Plain

/-!
The log: lines with a level and the part of the program that they come from.
-/

namespace PxdStub

inductive Level where
  | error
  | warn
  | info
  | debug
  | trace
  deriving DecidableEq, Repr

namespace Level

def rank : Level → Nat
  | error => 1
  | warn => 2
  | info => 3
  | debug => 4
  | trace => 5

def label : Level → String
  | error => "ERROR"
  | warn => "WARN"
  | info => "INFO"
  | debug => "DEBUG"
  | trace => "TRACE"

end Level

inductive Origin where
  | items
  | declarations
  | generation
  | program
  deriving DecidableEq, Repr

structure LogLine where
  level : Level
  origin : Origin
  text : String
  deriving DecidableEq, Repr

/-- The lines that a log of the given level shows, in plain text. -/
def LogLine.shown (level : Level) (log : List LogLine) : List LogLine :=
  (log.filter fun line => line.level.rank ≤ level.rank).map fun line =>
    { line with text := Text.plain line.text }

/-- What the log says about a note. Items are indented by the classes around them. -/
def Note.line : Note → LogLine
  | item depth kind text =>
      let margin := String.ofList (List.replicate (2 * depth) ' ')
      ⟨.debug, .items, margin ++ kind.label ++ ": " ++ text⟩
  | skipped text => ⟨.debug, .declarations, text ++ " skipped"⟩
  | forwardDeclaration className =>
      ⟨.debug, .declarations, "forward declaration of class " ++ className ++ " skipped"⟩
  | nestedClass inner outer =>
      ⟨.debug, .declarations, "nested class " ++ inner ++ " in " ++ outer ++ " not emitted"⟩
  | omitted omission | lost omission => ⟨.warn, .declarations, omission.message⟩

end PxdStub
