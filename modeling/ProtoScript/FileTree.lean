/-!
# File trees

The files that a program can see, as a value. Paths are resolved one component at a time, as an
operating system does it, from the root if they start with a slash and from the working directory
otherwise: every component but the last has to be a directory that exists, `.` stays where it is, and
`..` goes to the directory above.
-/

namespace ProtoScript

/-- Why a file could not be read or written. -/
inductive FileError where
  | notFound
  | isDirectory
  | notADirectory
  | nameTooLong
  | notText
  | nulInName
  | other (description : String) (code : Nat)
deriving DecidableEq, Repr, Inhabited

/-- The text of an error about a file. -/
def FileError.message : FileError → String
  | .notFound => "No such file or directory (os error 2)"
  | .notADirectory => "Not a directory (os error 20)"
  | .isDirectory => "Is a directory (os error 21)"
  | .nameTooLong => "File name too long (os error 36)"
  | .notText => "stream did not contain valid UTF-8"
  | .nulInName => "file name contained an unexpected NUL byte"
  | .other description code => description ++ " (os error " ++ toString code ++ ")"

/-- What stands at a place of the tree. A file whose bytes are no text can be seen but not read; a sink
is always empty, whatever is written to it. -/
inductive FileNode where
  | directory
  | text (contents : String)
  | binary
  | sink
deriving DecidableEq, Repr, Inhabited

/-- The file with the given bytes. -/
def FileNode.ofBytes (bytes : ByteArray) : FileNode :=
  match String.fromUTF8? bytes with
  | some contents => .text contents
  | none => .binary

/-- Where the way to a place starts: at the root, or some levels above the working directory. How far
below the root the working directory is remains unknown. -/
inductive Anchor where
  | root
  | above (levels : Nat)
deriving DecidableEq, Repr, Inhabited

/-- The directory above an anchor. The root is above itself. -/
def Anchor.parent : Anchor → Anchor
  | .root => .root
  | .above levels => .above (levels + 1)

/-- A place in the tree: from the anchor down along the names in `down`, the last one first. -/
structure Place where
  anchor : Anchor
  down : List String
deriving DecidableEq, Repr, Inhabited

namespace Place

/-- The root. -/
def top : Place := ⟨.root, []⟩

/-- The working directory. -/
def here : Place := ⟨.above 0, []⟩

/-- Goes on by one component of a path. -/
def enter (p : Place) (name : String) : Place :=
  if name = "." then p
  else if name = ".." then
    match p.down with
    | [] => ⟨p.anchor.parent, []⟩
    | _ :: names => ⟨p.anchor, names⟩
  else ⟨p.anchor, name :: p.down⟩

/-- The place that a path starts from. -/
def start (path : String) : Place :=
  if path.startsWith "/" then top else here

end Place

/-- The files and directories that are known. -/
structure FileTree where
  nodes : List (Place × FileNode)
deriving Inhabited

namespace FileTree

/-- What stands at a place, if anything does. -/
def node? (t : FileTree) (p : Place) : Option FileNode :=
  if p.down.isEmpty then some .directory
  else (t.nodes.find? fun entry => entry.1 == p).map Prod.snd

/-- Puts a node at a place, in the place of what was there. -/
def put (t : FileTree) (p : Place) (node : FileNode) : FileTree :=
  ⟨(p, node) :: t.nodes.filter fun entry => entry.1 != p⟩

/-- The directories that stand below the root everywhere. -/
def commonDirectories : List String :=
  ["bin", "dev", "etc", "home", "lib", "mnt", "opt", "proc", "root", "run", "sbin", "srv", "sys", "tmp",
    "usr", "var"]

/-- The tree without any file of its own: only what is everywhere is there. -/
def empty : FileTree :=
  ⟨(⟨.root, ["null", "dev"]⟩, .sink) ::
    commonDirectories.map fun name => (⟨.root, [name]⟩, .directory)⟩

/-- The components of a path. A slash at the end asks for a directory, as a last component `.` does. -/
def components (path : String) : List String :=
  let parts := path.splitOn "/"
  parts.filter (· != "") ++ (if parts.getLast? == some "" then ["."] else [])

/-- Follows components from a place, each of them through a directory that exists. -/
def walk (t : FileTree) (p : Place) : List String → Except FileError Place
  | [] => .ok p
  | name :: names =>
    match t.node? p with
    | none => .error .notFound
    | some .directory =>
      if name.utf8ByteSize > 255 then .error .nameTooLong else t.walk (p.enter name) names
    | some _ => .error .notADirectory

/-- What is wrong with a path before it is looked at as one. -/
def pathError? (path : String) : Option FileError :=
  if path.toList.contains (Char.ofNat 0) then some .nulInName
  else if path.isEmpty then some .notFound
  else if path.utf8ByteSize > 4095 then some .nameTooLong
  else none

/-- The place that a path names. -/
def locate (t : FileTree) (path : String) : Except FileError Place :=
  match pathError? path with
  | some e => .error e
  | none => t.walk (.start path) (components path)

/-- The text of the file that a path names. -/
def read (t : FileTree) (path : String) : Except FileError String := do
  let p ← t.locate path
  match t.node? p with
  | none => .error .notFound
  | some .directory => .error .isDirectory
  | some .binary => .error .notText
  | some (.text contents) => .ok contents
  | some .sink => .ok ""

/-- Writes a file, which may be new; the directory it is in has to exist. -/
def write (t : FileTree) (path contents : String) : Except FileError FileTree := do
  let _ ← match pathError? path with
    | some e => .error e
    | none => .ok ()
  let parts := (path.splitOn "/").filter (· != "")
  let p ← t.walk (.start path) parts.dropLast
  let _ ← match t.node? p with
    | none => .error .notFound
    | some .directory => .ok ()
    | some _ => .error .notADirectory
  let last := parts.getLast?.getD "."
  if path.endsWith "/" || last == "." || last == ".." then .error .isDirectory
  if last.utf8ByteSize > 255 then .error .nameTooLong
  let target := p.enter last
  match t.node? target with
  | some .directory => .error .isDirectory
  | some .sink => .ok t
  | _ => .ok (t.put target (.text contents))

/-- Makes the directories along the names, as far as they are missing. -/
def makeDirectories (t : FileTree) (p : Place) : List String → FileTree
  | [] => t
  | name :: names =>
    let next := p.enter name
    let t := if (t.node? next).isSome then t else t.put next .directory
    t.makeDirectories next names

/-- Adds a file, together with the directories that its path leads through. -/
def addFile (t : FileTree) (path : String) (node : FileNode) : FileTree :=
  let parts := components path
  (t.makeDirectories .here parts.dropLast).put (parts.foldl Place.enter .here) node

/-- The tree that holds the given files and the directories they are in. -/
def ofFiles (files : List (String × FileNode)) : FileTree :=
  files.foldl (fun t file => t.addFile file.1 file.2) empty

/-- How many characters all the files hold together. -/
def size (t : FileTree) : Nat :=
  t.nodes.foldl (fun total entry =>
    match entry.2 with
    | .text contents => total + contents.length
    | _ => total) 0

end FileTree

end ProtoScript
