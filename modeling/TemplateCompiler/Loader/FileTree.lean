import TemplateCompiler.Text.Utf8

/-!
# File trees

A directory with the files and directories in it. A place in the tree is the list of names on the way
to it; a path may also step back with two dots, and may have empty names and single dots in it, which
stay where they are. Every name on a path but the last one has to be that of a directory.

## What this module delivers

* `FileTree`: the tree.
* `IoFault`: why an access fails.
* `FileTree.locate`: the place that a path leads to.
* `FileTree.read`, `FileTree.write`, `FileTree.makeDirectory`, `FileTree.delete`: access to files.
-/

set_option autoImplicit false

namespace TemplateCompiler

/-- Why an access to a file fails. -/
inductive IoFault where
  | notFound
  | notDirectory
  | isDirectory
  | notUtf8
  /-- Any other reason, in the words of the operating system. -/
  | other (message : Text)
deriving DecidableEq, Repr

/-- A fault in words. -/
def IoFault.message : IoFault → Text
  | .notFound => "No such file or directory (os error 2)".toList
  | .notDirectory => "Not a directory (os error 20)".toList
  | .isDirectory => "Is a directory (os error 21)".toList
  | .notUtf8 => "stream did not contain valid UTF-8".toList
  | .other message => message

/-- The names on the way to a file or directory. -/
abbrev Place := List Text

/-- What is at a place. -/
inductive FileEntry where
  | directory
  | file (bytes : List UInt8)
deriving DecidableEq, Repr

/-- What is below a directory, by place. -/
structure FileTree where
  entries : List (Place × FileEntry)
deriving DecidableEq, Repr

/-- The names on a path. -/
def pathNames (path : Text) : List Text := Text.splitOn '/' path

/-- Whether a name on a path stays where it is. -/
def staysInPlace (name : Text) : Bool := name == [] || name == ".".toList

/-- Whether a name on a path names nothing: it stays in place or steps back. -/
def isDots (name : Text) : Bool := staysInPlace name || name == "..".toList

/-- Why nothing is read or written outside of a tree. The directories around it are there, and what
else they hold is not known. -/
def outsideFault (names : List Text) : IoFault :=
  if names.all isDots then .isDirectory else .notFound

namespace FileTree

/-- A directory with nothing in it. -/
def empty : FileTree := ⟨[]⟩

/-- What is at a place. The tree itself is a directory. -/
def at? (t : FileTree) (place : Place) : Option FileEntry :=
  if place = [] then some .directory else t.entries.lookup place

/-- Puts an entry at a place. -/
def put (t : FileTree) (place : Place) (entry : FileEntry) : FileTree :=
  ⟨(place, entry) :: t.entries.filter fun e => e.1 != place⟩

/-- The place that some names lead to. -/
def locate (t : FileTree) : Place → List Text → Except IoFault Place
  | place, [] => .ok place
  | place, name :: rest =>
    if t.at? place = some .directory then
      if staysInPlace name then t.locate place rest
      else if name = "..".toList then
        if place = [] then .error (outsideFault rest) else t.locate place.dropLast rest
      else if (t.at? (place ++ [name])).isSome then t.locate (place ++ [name]) rest
      else .error .notFound
    else .error .notDirectory

/-- The text of the file that some names lead to. -/
def read (t : FileTree) (names : List Text) : Except IoFault Text := do
  let place ← t.locate [] names
  match t.at? place with
  | none => .error .notFound
  | some .directory => .error .isDirectory
  | some (.file bytes) =>
    match Text.decode? bytes with
    | some text => return text
    | none => .error .notUtf8

/-- The names on the way to the directory that holds what some names lead to. A slash at the end of
the path does not count as a name. -/
def parentNames (names : List Text) : List Text :=
  (names.reverse.dropWhile List.isEmpty).tail.reverse

/-- Writes the file that some names lead to. Its directory has to exist, and its name does not end
with a slash. -/
def write (t : FileTree) (names : List Text) (bytes : List UInt8) : Except IoFault FileTree := do
  let parent ← t.locate [] (parentNames names ++ [[]])
  let name := names.getLastD []
  if name = [] then .error .isDirectory
  else if isDots name then
    let _ ← t.locate parent [name]
    .error .isDirectory
  else if t.at? (parent ++ [name]) = some .directory then .error .isDirectory
  else return t.put (parent ++ [name]) (.file bytes)

/-- Makes a directory, and those on the way to it. -/
def makeDirectory (t : FileTree) : Place → List Text → FileTree
  | _, [] => t
  | place, name :: rest =>
    if staysInPlace name then t.makeDirectory place rest
    else
      let next := place ++ [name]
      let t := if (t.at? next).isSome then t else t.put next .directory
      t.makeDirectory next rest

/-- Deletes what some names lead to, with everything below it. -/
def delete (t : FileTree) (names : List Text) : FileTree :=
  match t.locate [] names with
  | .ok place => ⟨t.entries.filter fun e => !place.isPrefixOf e.1⟩
  | .error _ => t

end FileTree

end TemplateCompiler
