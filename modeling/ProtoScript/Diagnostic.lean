/-!
# Diagnostics

A diagnostic says what went wrong, in which file and where. Its text has one fixed shape,
`file:row:col: Kind error: message`, which is all that a user of the language ever sees of it.
-/

namespace ProtoScript

/-- A place in a source text; rows and columns are counted from one. The row and column zero stand
for a place outside of every text, such as the command line. -/
structure Position where
  row : Nat
  col : Nat
deriving DecidableEq, Repr, Inhabited

namespace Position

/-- The place of the first character of a text. -/
def start : Position := ⟨1, 1⟩

/-- The place outside of every text. -/
def outside : Position := ⟨0, 0⟩

/-- The place just past a character: a line feed opens a new row. -/
def next (p : Position) (c : Char) : Position :=
  if c = '\n' then ⟨p.row + 1, 1⟩ else ⟨p.row, p.col + 1⟩

/-- The place just past a run of characters. -/
def after (p : Position) (cs : List Char) : Position :=
  cs.foldl next p

@[simp] theorem after_nil (p : Position) : p.after [] = p := rfl

@[simp] theorem after_cons (p : Position) (c : Char) (cs : List Char) :
    p.after (c :: cs) = (p.next c).after cs := rfl

theorem after_append (p : Position) (cs ds : List Char) :
    p.after (cs ++ ds) = (p.after cs).after ds := by
  simp [after]

/-- A place as it is written in a diagnostic. -/
def render (p : Position) : String :=
  toString p.row ++ ":" ++ toString p.col

end Position

/-- The kinds of errors that a program can meet. -/
inductive DiagnosticKind where
  /-- The text is not a program. -/
  | grammar
  /-- A value is not of the kind that is needed. -/
  | typing
  /-- Something that is referred to is not there. -/
  | missing
  /-- A name is declared twice in one scope. -/
  | redefinition
  /-- A call does not fit what is called. -/
  | argument
  /-- A text given to a macro cannot be expanded. -/
  | expansion
deriving DecidableEq, Repr, Inhabited

/-- The name of a kind in the text of a diagnostic. -/
def DiagnosticKind.label : DiagnosticKind → String
  | .grammar => "Syntax"
  | .typing => "TypeError"
  | .missing => "DoesNotExist"
  | .redefinition => "MultipleDefinition"
  | .argument => "ArgumentError"
  | .expansion => "MacroExpansionError"

/-- An error together with the file it is attributed to and its place there. -/
structure Diagnostic where
  kind : DiagnosticKind
  file : String
  pos : Position
  message : String
deriving DecidableEq, Repr, Inhabited

namespace Diagnostic

/-- The one line that is shown for a diagnostic. -/
def render (d : Diagnostic) : String :=
  d.file ++ ":" ++ d.pos.render ++ ": " ++ d.kind.label ++ " error: " ++ d.message

/-- The same error, attributed to another file. -/
def attributedTo (d : Diagnostic) (file : String) : Diagnostic :=
  { d with file }

end Diagnostic

end ProtoScript
