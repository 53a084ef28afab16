import TemplateCompiler.Command.Run

/-!
# The command line

Reads the arguments, runs the command with the files of the machine, and prints what it answers.
-/

set_option autoImplicit false

namespace TemplateCompiler

/-- An error of the operating system as a fault. -/
def faultOfError : IO.Error → IoFault
  | .noFileOrDirectory .. => .notFound
  | .inappropriateType .. => .isDirectory
  | e => .other e.toString.toList

/-- The access to the files of the machine. -/
def machineFiles : FileAccess IO where
  read path := do
    try
      let bytes ← IO.FS.readBinFile (String.ofList path)
      match Text.decode? bytes.toList with
      | some text => return .ok text
      | none => return .error .notUtf8
    catch e => return .error (faultOfError e)
  write path text := do
    try
      IO.FS.writeFile (String.ofList path) (String.ofList text)
      return .ok ()
    catch e => return .error (faultOfError e)

end TemplateCompiler

open TemplateCompiler in
/-- Runs the command that the arguments stand for. -/
def main (args : List String) : IO UInt32 := do
  let outcome ← (Command.parse (args.map String.toList)).run machineFiles
  IO.print (String.ofList outcome.stdout)
  IO.eprint (String.ofList outcome.stderr)
  return UInt32.ofNat outcome.status
