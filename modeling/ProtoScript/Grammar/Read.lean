import ProtoScript.Grammar.Statement
import ProtoScript.Token.Scan

/-!
# Reading programs

The rules of the grammar are tied together with a bound on how deep they nest. Since a rule consumes a
token before it nests, the number of tokens is bound enough.

Imports nest in another way: each file on the way from the root to an import has a path of its own,
for a path that is on the way already is refused. All these paths but the first are written in some
file, so the total size of the files bounds how deep imports nest.
-/

namespace ProtoScript

namespace Grammar

/-- Reads a goal with at most the given number of rules inside each other. -/
def read (ctx : Context) : Nat → {α : Type} → Goal α → Reader α
  | 0, _, _ => do fail .tooDeep (← here ctx)
  | depth + 1, _, g => rule ctx (read ctx depth) g

/-- Imports each of the paths ahead of a program. -/
def importAll (ctx : Context) : List String → Reader (List Statement)
  | [] => return []
  | path :: paths => do
    let first ←
      try
        pure (some (← importPath ctx path .outside))
      catch fault =>
        record ctx fault
        pure none
    return first.toList ++ (← importAll ctx paths)

/-- Reads a whole file: first the given imports, then its tokens. -/
def readTokens (ctx : Context) (imports : List String) (ts : List Lexeme) : Inclusion :=
  let reader : Reader (List Statement) := do
    let imported ← importAll ctx imports
    return imported ++ (← read ctx (ts.length + 1) (.statements false))
  match reader ⟨ts, []⟩ with
  | .ok statements c => ⟨statements, c.errors⟩
  | .error fault c => ⟨[], c.errors ++ [fault.diagnostic ctx.file]⟩

/-- Reads a file whose imports nest at most `depth` deep. The paths of the files that are being read
are in `enclosing`. -/
def readSource (files : String → Except FileError String) :
    Nat → List String → List String → String → String → Inclusion
  | depth, enclosing, imports, file, source =>
    let ts := scan source
    let paths := file :: enclosing
    let bring (path : String) : Except Complaint Inclusion :=
      if path ∈ paths then .error (.circularImport path)
      else
        match files path with
        | .error e => .error (.unreadable path e)
        | .ok text =>
          match depth with
          | 0 => .error .tooDeep
          | depth + 1 => .ok (readSource files depth paths [] path text)
    readTokens ⟨file, lastPosition ts, bring⟩ imports ts

end Grammar

/-- What came out of reading a program: everything that could be read, and every error. -/
abbrev Reading := Grammar.Inclusion

/-- The files that a program can import, and how many characters they hold together. -/
structure Library where
  read : String → Except FileError String
  size : Nat

/-- The files of a tree. -/
def FileTree.library (t : FileTree) : Library :=
  ⟨t.read, t.size⟩

/-- Reads a program from the text of a file, with the given files imported ahead of it. -/
def readProgram (library : Library) (file : String) (imports : List String) (source : String) :
    Reading :=
  Grammar.readSource library.read (library.size + source.length + imports.length + 1) [] imports
    file source

/-- The paths that the import statements among some tokens name. -/
def importedPaths : List Lexeme → List String
  | t :: u :: ts =>
    match t.token, u.token with
    | .keyword .importWord, .text path => path :: importedPaths (u :: ts)
    | _, _ => importedPaths (u :: ts)
  | _ => []

end ProtoScript
