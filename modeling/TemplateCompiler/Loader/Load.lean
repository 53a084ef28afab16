import TemplateCompiler.Compile
import TemplateCompiler.Loader.FileTree

/-!
# Loading templates as modules

A loader compiles the files of one extension and hands the code to a host, which evaluates it. The
code of a file is kept: it is compiled once, whatever becomes of the file.

The code is kept by the place of the file, so that several paths to one file share it. If there is no
such place, the path itself is taken, without the names on it that stay in place.

## What this module delivers

* `Loader`, `Loader.handles`: the files that a loader is for.
* `CodeCache`: the code that has been compiled.
* `LoadError`: why a load fails.
* `Loader.load`: one load.
-/

set_option autoImplicit false

namespace TemplateCompiler

/-- A loader for the files of one extension in a directory. -/
structure Loader where
  /-- The end of the names of the files, its dot included. -/
  extension : Text
  /-- The path of the directory. -/
  directory : Text
deriving DecidableEq, Repr

/-- The extension that is used unless another one is given. -/
def Loader.defaultExtension : Text := ".html".toList

/-- Whether a text ends with a pattern. -/
def endsWith (t pattern : Text) : Bool :=
  Text.startsWith t.reverse pattern.reverse

/-- Whether a loader is for the file at a path. -/
def Loader.handles (l : Loader) (path : Text) : Bool := endsWith path l.extension

/-- The path of a file in the directory of a loader. -/
def Loader.pathOf (l : Loader) (name : Text) : Text := l.directory ++ "/".toList ++ name

/-! ## The cache -/

/-- Compiled code by place. -/
abbrev CodeCache := List (Place × Text)

namespace CodeCache

/-- The code of a place. -/
def find? (place : Place) : CodeCache → Option Text
  | [] => none
  | (k, code) :: rest => if k = place then some code else find? place rest

/-- Keeps the code of a place. -/
def insert (c : CodeCache) (place : Place) (code : Text) : CodeCache := c ++ [(place, code)]

/-- Whether the code of a place is kept. -/
def contains (c : CodeCache) (place : Place) : Bool := (c.find? place).isSome

end CodeCache

/-- The names on a path without those that stay in place. -/
def plainNames (name : Text) : List Text :=
  (pathNames name).filter fun n => !staysInPlace n

/-- The names on a path without those that stay in place, but with the slash it ends with. -/
def absoluteNames (name : Text) : List Text :=
  plainNames name ++ (if endsWith name "/".toList then [[]] else [])

/-- Where a loader looks for a file: the place of the file, or else the path as it is. -/
def lookupNames (tree : FileTree) (name : Text) : List Text :=
  match tree.locate [] (pathNames name) with
  | .ok place => place
  | .error _ => absoluteNames name

/-- The place under which the code of a file is kept. -/
def cacheKey (names : List Text) : Place := names.filter fun n => n != []

/-! ## Loading -/

/-- Why a load fails. -/
inductive LoadError where
  /-- The loader is for other files. -/
  | unsupportedExtension (path extension : Text)
  | io (path : Text) (fault : IoFault)
  | compile (path : Text) (cause : CompileError)
  /-- The host could not evaluate the code. -/
  | host (path message : Text)
deriving DecidableEq, Repr

/-- A failed load in words. -/
def LoadError.message : LoadError → Text
  | .unsupportedExtension path extension =>
    path ++ " does not have the ".toList ++ extension ++ " extension".toList
  | .io path fault => "failed to read ".toList ++ path ++ ": ".toList ++ fault.message
  | .compile path cause => "failed to compile ".toList ++ path ++ ": ".toList ++ cause.message
  | .host path message =>
    "failed to load the module ".toList ++ path ++ ": ".toList ++ message

/-- A host: given the code and the name of its file, it may fail with a message. -/
abbrev Host := Text → Text → Option Text

/-- Code that is kept under a place. -/
structure LoadedCode where
  place : Place
  code : Text
deriving DecidableEq, Repr

/-- What a load leads to. -/
structure LoadOutcome where
  result : Except LoadError LoadedCode
  cache : CodeCache
  /-- What the host was called with. -/
  calls : List (Text × Text)

/-- The name of the file that some names lead to. -/
def Loader.filename (l : Loader) (names : List Text) : Text :=
  if names = [] then l.directory else l.pathOf (Text.join "/".toList names)

/-- Compiles a file whose code is not kept yet. -/
def Loader.compileFile (l : Loader) (tree : FileTree) (name : Text) (names : List Text) :
    Except LoadError Text :=
  match tree.read names with
  | .error fault => .error (.io (l.pathOf name) fault)
  | .ok source =>
    match TemplateCompiler.compile source with
    | .error e => .error (.compile (l.filename names) e)
    | .ok out => .ok out.code

/-- Hands code to a host. -/
def Loader.handOver (l : Loader) (host : Host) (names : List Text) (code : Text)
    (cache : CodeCache) : LoadOutcome :=
  let filename := l.filename names
  let result := match host code filename with
    | some message => .error (.host filename message)
    | none => .ok ⟨cacheKey names, code⟩
  ⟨result, cache, [(code, filename)]⟩

/-- Loads a file by its name in the directory of a loader. -/
def Loader.load (l : Loader) (tree : FileTree) (cache : CodeCache) (host : Host) (name : Text) :
    LoadOutcome :=
  let path := l.pathOf name
  if l.handles path then
    let names := lookupNames tree name
    match cache.find? (cacheKey names) with
    | some code => l.handOver host names code cache
    | none =>
      match l.compileFile tree name names with
      | .error e => ⟨.error e, cache, []⟩
      | .ok code => l.handOver host names code (cache.insert (cacheKey names) code)
  else ⟨.error (.unsupportedExtension path l.extension), cache, []⟩

end TemplateCompiler
