import ProtoScript.FileTree
import ProtoScript.Token.Text

/-!
# Faults

What can be wrong with a text that is read as a program. A fault is a complaint and a place; its
wording is given here once.
-/

namespace ProtoScript

/-- Something that a reader finds wrong. A missing token stands for the end of the input. -/
inductive Complaint where
  /-- Another token was needed. -/
  | expected (wanted : Token) (found : Option Token)
  /-- A name was needed. -/
  | expectedName (found : Option Token)
  /-- An expression was needed. -/
  | expectedExpression (found : Option Token)
  /-- The path of an import was needed. -/
  | expectedPath (found : Option Token)
  /-- A numeral that stands for no number. -/
  | badNumeral (spelling : String)
  /-- An assignment to something that cannot be assigned to. -/
  | badTarget
  /-- Something follows an argument or parameter that takes all that is left. -/
  | splatNotLast
  /-- The tokens of a mixin do not end. -/
  | openMixin
  /-- A file that imports itself, directly or through others. -/
  | circularImport (path : String)
  /-- A file that cannot be read. -/
  | unreadable (path : String) (error : FileError)
  /-- The reader gave up; it never does on inputs of the size it was started for. -/
  | tooDeep
  /-- The reader was to consume a token where none is left; it never is. -/
  | pastEnd
deriving DecidableEq, Repr

/-- A token as messages name it. -/
def shownOrEnd : Option Token → String
  | some t => t.shown
  | none => "end of input"

namespace Complaint

/-- The wording of a complaint. -/
def message : Complaint → String
  | expected wanted (some found) =>
    "Expected " ++ wanted.shown ++ ", but encountered " ++ found.shown
  | expected wanted none => "Expected " ++ wanted.shown ++ ", but encountered end of file"
  | expectedName found => "Expected identifier, got " ++ shownOrEnd found
  | expectedExpression found => "Expected expression, got " ++ shownOrEnd found
  | expectedPath found => "Expected import path, got " ++ shownOrEnd found
  | badNumeral spelling => "Invalid numeric literal '" ++ spelling ++ "'"
  | badTarget => "Invalid assignment target"
  | splatNotLast => "A splat argument must be the last argument"
  | openMixin => "Unterminated mixin"
  | circularImport path => "Circular import of '" ++ path ++ "'"
  | unreadable path error => "Could not open '" ++ path ++ "': " ++ error.message
  | tooDeep => "Nesting too deep"
  | pastEnd => "Reading past the end of input"

end Complaint

/-- A complaint about a place. -/
structure Fault where
  complaint : Complaint
  pos : Position
deriving DecidableEq, Repr

/-- A fault as it is reported for a file. -/
def Fault.diagnostic (f : Fault) (file : String) : Diagnostic :=
  ⟨.grammar, file, f.pos, f.complaint.message⟩

end ProtoScript
