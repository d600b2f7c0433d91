import ProtoScript.Heap.Unwrap
import ProtoScript.Number.Integral
import ProtoScript.Number.Text
import ProtoScript.Text.Hidden

/-!
# Values as text

The text of a value that does not ask the value itself. It is what messages show, and what the
built-in conversion to a text yields.
-/

namespace ProtoScript.Heap

/-- The name of a type; the sides of a union are older than the union, so their number bounds how
deep unions nest. -/
def typeNameWithin (h : Heap) : Nat → ObjectRef → Option String
  | 0, _ => none
  | fuel + 1, o =>
    match (h.object o).kind with
    | .plain => none
    | .type name _ => some name
    | .union l r =>
      some ((h.typeNameWithin fuel l).getD "" ++ " | " ++ (h.typeNameWithin fuel r).getD "")

/-- The name of a type, and nothing for an object that is no type. -/
def typeName? (h : Heap) (o : ObjectRef) : Option String :=
  h.typeNameWithin (h.objects.size + 1) o

/-- A type as messages name it. -/
def typeLabel (h : Heap) (o : ObjectRef) : String :=
  (h.typeName? o).getD "<object>"

/-- An object as text. -/
def objectText (h : Heap) (o : ObjectRef) : String :=
  match h.typeName? o with
  | some name => "<type " ++ name ++ ">"
  | none => "<object>"

/-- A value as text, where arrays nest at most `fuel` deep. Elements of an array are unwrapped, and
texts among them stand between quotes.

An array that holds itself has no text, since going through it never ends: a run that asks for one
overflows its stack and is over. Here it has one, with `[...]` where the bound is met. -/
def textWithin (h : Heap) : Nat → Value → String
  | _, .null => "null"
  | _, .bool b => if b then "true" else "false"
  | _, .int i => Number.integerText i
  | _, .float x => Number.floatText x
  | _, .text s => s
  | _, .procedure p => "<func(" ++ ", ".intercalate (p.fixed.map (·.name)) ++ ")>"
  | _, .native n => "<native " ++ n.name ++ ">"
  | _, .object o => h.objectText o
  | 0, .array _ => "[...]"
  | fuel + 1, .array a =>
    let texts := (h.elements a).toList.map fun v =>
      match h.unwrap v with
      | .text s => "\"" ++ s ++ "\""
      | w => h.textWithin fuel w
    "[" ++ ", ".intercalate texts ++ "]"

/-- A value as text. Arrays that do not hold themselves nest at most as deep as there are arrays. -/
def text (h : Heap) (v : Value) : String :=
  h.textWithin (h.arrays.size + 1) v

/-- A value as it is shown inside other texts: unwrapped, and between quotes if it is a text. -/
def inspect (h : Heap) (v : Value) : String :=
  match h.unwrap v with
  | .text s => "\"" ++ s ++ "\""
  | w => h.text w

/-- One character of a name in a summary. The quote, the backslash and the most common controls have an
escape of their own; any other hidden character is given by its code point in hexadecimal. -/
def summaryChar (c : Char) : String :=
  if c = '"' then "\\\""
  else if c = '\\' then "\\\\"
  else if c = '\n' then "\\n"
  else if c = '\t' then "\\t"
  else if c = '\r' then "\\r"
  else if c = Char.ofNat 0 then "\\0"
  else if Text.isHidden c then
    "\\u\x7b" ++ String.ofList (Nat.toDigits 16 c.toNat) ++ "\x7d"
  else String.singleton c

/-- A name between quotes in a summary. -/
def summaryName (name : String) : String :=
  "\"" ++ String.join (name.toList.map summaryChar) ++ "\""

/-- The local shape of an object: its type name, the names of its members in order, and whether it
has a parent. -/
def summary (h : Heap) (o : ObjectRef) : String :=
  let names := (h.object o).members.names.mergeSort fun a b => decide (a ≤ b)
  let kind :=
    match h.typeName? o with
    | some name => "Some(" ++ summaryName name ++ ")"
    | none => "None"
  "Object \x7b kind: " ++ kind ++ ", members: [" ++ ", ".intercalate (names.map summaryName)
    ++ "], has_parent: " ++ (if (h.parent? o).isSome then "true" else "false") ++ " \x7d"

end ProtoScript.Heap
