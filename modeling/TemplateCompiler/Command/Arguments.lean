import TemplateCompiler.Text.Basic

/-!
# Command line arguments

The arguments are read from left to right, and the first one that settles the matter wins: a mistake,
or a request for help or for the version.

## What this module delivers

* `Command`: what the command line asks for.
* `Command.parse`: the command that some arguments stand for.
-/

set_option autoImplicit false

namespace TemplateCompiler

/-- What a help text is about. -/
inductive HelpTopic where
  | program
  | compile
  | check
  | help
deriving DecidableEq, Repr

/-- What the command line asks for. -/
inductive Command where
  /-- Compile a file, and write the module to another file or to the standard output. -/
  | compile (input : Text) (output : Option Text) (segments : Bool)
  /-- Compile a file and report errors only. -/
  | check (input : Text)
  | version
  | help (topic : HelpTopic)
  /-- The arguments make no command. -/
  | misused
deriving DecidableEq, Repr

namespace Command

/-- The parts of a subcommand that have been read. -/
structure Draft where
  input : Option Text
  output : Option Text
  segments : Bool
deriving DecidableEq, Repr

/-- Whether an argument is a flag. A single dash is a name. -/
def isFlag : Text → Bool
  | '-' :: _ :: _ => true
  | _ => false

/-- A draft with an output, if it has none yet and the name is not empty. -/
def Draft.withOutput? (d : Draft) (name : Text) : Option Draft :=
  if d.output.isSome || name.isEmpty then none else some { d with output := some name }

/-- A draft with an input, if it has none yet and the name is not empty. -/
def Draft.withInput? (d : Draft) (name : Text) : Option Draft :=
  if d.input.isSome || name.isEmpty then none else some { d with input := some name }

/-- Reads arguments that are all names. -/
def readNames : Draft → List Text → Option Draft
  | d, [] => some d
  | d, name :: rest => do readNames (← d.withInput? name) rest

/-- The value that is written in the same argument as a flag for the output. -/
def attachedOutput? (arg : Text) : Option Text :=
  match Text.stripStart? arg "--output=".toList with
  | some value => some value
  | none =>
    match arg with
    | '-' :: 'o' :: '=' :: value => some value
    | '-' :: 'o' :: c :: value => some (c :: value)
    | _ => none

/-- The outcome of reading the arguments of a subcommand. -/
inductive Reading where
  | draft (d : Draft)
  | help
  | misused

/-- Reads the arguments of a subcommand. Only compilation has an output and segments. -/
def readArguments (hasOutput : Bool) : Draft → List Text → Reading
  | d, [] => .draft d
  | d, arg :: rest =>
    if arg = "--".toList then
      match readNames d rest with
      | some d => .draft d
      | none => .misused
    else if arg = "--help".toList || Text.startsWith arg "-h".toList then .help
    else if !isFlag arg then
      match d.withInput? arg with
      | some d => readArguments hasOutput d rest
      | none => .misused
    else if !hasOutput then .misused
    else if arg = "--segments".toList then
      if d.segments then .misused else readArguments hasOutput { d with segments := true } rest
    else if arg = "--output".toList || arg = "-o".toList then
      match rest with
      | [] => .misused
      | value :: rest =>
        if isFlag value then .misused
        else
          match d.withOutput? value with
          | some d => readArguments hasOutput d rest
          | none => .misused
    else
      match (attachedOutput? arg).bind d.withOutput? with
      | some d => readArguments hasOutput d rest
      | none => .misused

/-- The command of a subcommand's arguments, which need an input. -/
def ofReading (topic : HelpTopic) (make : Text → Draft → Command) : Reading → Command
  | .help => .help topic
  | .misused => .misused
  | .draft d =>
    match d.input with
    | some input => make input d
    | none => .misused

/-- A draft with nothing in it. -/
def emptyDraft : Draft := ⟨none, none, false⟩

/-- The topics by the name of their subcommand. -/
def topicOf? (name : Text) : Option HelpTopic :=
  if name = "compile".toList then some .compile
  else if name = "check".toList then some .check
  else if name = "help".toList then some .help
  else none

/-- The command of a request for help. No subcommand has subcommands of its own. -/
def helpOn : List Text → Command
  | [] => .help .program
  | [name] =>
    match topicOf? name with
    | some topic => .help topic
    | none => .misused
  | _ => .misused

/-- The command that some arguments stand for. -/
def parse : List Text → Command
  | [] => .misused
  | arg :: rest =>
    if arg = "--version".toList || Text.startsWith arg "-V".toList then .version
    else if arg = "--help".toList || Text.startsWith arg "-h".toList then .help .program
    else if arg = "compile".toList then
      ofReading .compile (fun input d => .compile input d.output d.segments)
        (readArguments true emptyDraft rest)
    else if arg = "check".toList then
      ofReading .check (fun input _ => .check input) (readArguments false emptyDraft rest)
    else if arg = "help".toList then helpOn rest
    else .misused

end Command

end TemplateCompiler
