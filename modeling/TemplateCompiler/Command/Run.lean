import TemplateCompiler.Command.Arguments
import TemplateCompiler.Compile
import TemplateCompiler.Loader.FileTree
import TemplateCompiler.Text.Quoted

/-!
# Running commands

A command is run with some access to files: those of a file tree, or those of the machine.

## What this module delivers

* `FileAccess`: how files are read and written.
* `Outcome`: what a command prints, and its exit status.
* `Command.run`: a command, run with some access to files.
* `FileTree.access`: the access to a file tree.
-/

set_option autoImplicit false

namespace TemplateCompiler

/-- How files are read and written, by their path. -/
structure FileAccess (m : Type → Type) where
  read : Text → m (Except IoFault Text)
  write : Text → Text → m (Except IoFault Unit)

/-- What a command prints, and its exit status. -/
structure Outcome where
  status : Nat
  stdout : Text
  stderr : Text
deriving DecidableEq, Repr

/-- A line of output. -/
def line (t : Text) : Text := t ++ "\n".toList

/-- A successful command. -/
def Outcome.success (stdout stderr : Text) : Outcome := ⟨0, stdout, stderr⟩

/-- A failed command: the message follows what has been printed to the standard error before. -/
def Outcome.failure (before message : Text) : Outcome :=
  ⟨1, [], before ++ line ("Error: Diagnostic \x7b message: ".toList ++ Text.quoted message
    ++ " \x7d".toList)⟩

/-! ## Texts -/

/-- What the program prints for its version. -/
def versionText : Text := "stencil 0.1.0\n".toList

/-- What the program prints for help on a topic. -/
def helpText : HelpTopic → Text
  | .program =>
    ("Mustache template compiler\n\nUsage: stencil <COMMAND>\n\nCommands:\n"
      ++ "  compile  Compile a template into a module exporting `render(data)`\n"
      ++ "  check    Compile a template without writing the output\n"
      ++ "  help     Print this message or the help of the given subcommand(s)\n\n"
      ++ "Options:\n  -h, --help     Print help\n  -V, --version  Print version\n").toList
  | .compile =>
    ("Compile a template into a module exporting `render(data)`\n\n"
      ++ "Usage: stencil compile [OPTIONS] <FILE>\n\nArguments:\n"
      ++ "  <FILE>  Input template file\n\nOptions:\n"
      ++ "  -o, --output <OUTPUT>  Output file for the module (default: stdout)\n"
      ++ "      --segments         Print the source segments to stderr\n"
      ++ "  -h, --help             Print help\n").toList
  | .check =>
    ("Compile a template without writing the output\n\nUsage: stencil check <FILE>\n\n"
      ++ "Arguments:\n  <FILE>  Input template file\n\nOptions:\n"
      ++ "  -h, --help  Print help\n").toList
  | .help =>
    ("Print this message or the help of the given subcommand(s)\n\n"
      ++ "Usage: stencil help [COMMAND]...\n\nArguments:\n"
      ++ "  [COMMAND]...  Print help for the subcommand(s)\n").toList

/-- A position as it is printed. -/
def positionText (p : Position) : Text :=
  Text.ofNat p.line ++ ":".toList ++ Text.ofNat p.column

/-- A segment as it is printed: both positions, and the length of the range of the source. -/
def segmentText (s : Segment) : Text :=
  positionText s.sourcePosition ++ " -> ".toList ++ positionText s.generatedPosition ++ " (".toList
    ++ Text.ofNat (s.source.stop - s.source.start) ++ " bytes)".toList

/-- The position of an offset, counted from one. An offset that is no place to cut the source counts
as its end. -/
def shownPosition (source : Text) (offset : Nat) : Position :=
  let before := (Text.take? offset source).getD source
  let p := (Position.mk 0 0).advance before
  ⟨p.line + 1, p.column + 1⟩

/-- An error of a compilation with the place of the file that it concerns. -/
def locatedMessage (input source : Text) (e : CompileError) : Text :=
  let offset := match e.span? with
    | some span => span.start
    | none => 0
  input ++ ":".toList ++ positionText (shownPosition source offset) ++ ": ".toList ++ e.message

/-! ## Running -/

/-- Compiles the text of a file. -/
def compileInput (input : Text) : Except IoFault Text → Except Text Composed
  | .error fault =>
    .error ("Failed to read ".toList ++ input ++ ": ".toList ++ fault.message)
  | .ok source =>
    match compile source with
    | .ok out => .ok out
    | .error e => .error (locatedMessage input source e)

/-- The lines about the segments, if they are asked for. -/
def segmentLines (wanted : Bool) (out : Composed) : Text :=
  if wanted then out.segments.flatMap fun s => line (segmentText s) else []

/-- Runs a command. -/
def Command.run {m : Type → Type} [Monad m] (files : FileAccess m) : Command → m Outcome
  | .misused => return ⟨2, [], []⟩
  | .version => return .success versionText []
  | .help topic => return .success (helpText topic) []
  | .check input => do
    match compileInput input (← files.read input) with
    | .error message => return .failure [] message
    | .ok _ => return .success [] (line (input ++ ": ok".toList))
  | .compile input output segments => do
    match compileInput input (← files.read input) with
    | .error message => return .failure [] message
    | .ok out =>
      let before := segmentLines segments out
      match output with
      | none => return .success (line out.code) before
      | some path =>
        match ← files.write path out.code with
        | .error fault =>
          return .failure before ("Failed to write ".toList ++ path ++ ": ".toList ++ fault.message)
        | .ok () => return .success [] (before ++ line ("Wrote ".toList ++ path))

/-! ## File trees -/

/-- The names on a path that starts in the directory of a tree. A path from the root of all files
leads out of it. -/
def relativeNames (path : Text) : Except IoFault (List Text) :=
  if path.isEmpty || Text.startsWith path "/".toList then .error .notFound
  else .ok (pathNames path)

/-- The access to a file tree. -/
def FileTree.access : FileAccess (StateM FileTree) where
  read path := do
    let tree ← get
    return relativeNames path >>= tree.read
  write path text := do
    let tree ← get
    match relativeNames path >>= fun names => tree.write names (Text.encode text) with
    | .error fault => return .error fault
    | .ok tree =>
      set tree
      return .ok ()

end TemplateCompiler
