import TemplateCompiler.Component.Config
import TemplateCompiler.Component.Imports
import TemplateCompiler.Script.Binding

/-!
# Exports

The script runs inside of a function. Its default export becomes what that function returns: directly
if nothing follows it, and through a variable otherwise. Its other exports become assignments.

## What this module delivers

* `DefaultExport`: what became of the default export.
* `exportStatements`: the assignments for a list of exports.
* `linkExports`: the exports of a module, turned into edits.
-/

set_option autoImplicit false

namespace TemplateCompiler

open Script

/-- What became of the default export of a script. -/
inductive DefaultExport where
  /-- There is none. -/
  | missing
  /-- It was the last statement, and is returned. -/
  | final
  /-- It is bound to a variable, which is returned at the end. -/
  | bound
deriving DecidableEq, Repr

/-- An assignment to an export. -/
def exportAssignment (exported value : Text) : Text :=
  "exports".toList ++ propertyAccess exported ++ " = ".toList ++ value ++ ";".toList

/-! ## Named exports -/

/-- The assignment for one name of a list of exports. -/
def exportStatement (source : Option Text) : ExportSpecifier → Text
  | .named id exported =>
    match source with
    | some module => exportAssignment exported (requireCall module ++ propertyAccess id.name)
    | none => exportAssignment exported id.name
  | .namespaced exported =>
    exportAssignment exported ((source.map requireCall).getD [])

/-- The assignments for a list of exports. -/
def exportStatements (source : Option Text) (specifiers : List ExportSpecifier) : Text :=
  Text.join " ".toList (specifiers.map (exportStatement source))

/-- The indentation at an offset of the source. -/
def indentAt (edits : EditBuffer) (offset : Nat) : Except EditFault Text :=
  match lineIndent? edits.source offset with
  | some indent => .ok indent
  | none => .error .insideCharacter

/-- An exported declaration loses what makes it an export, and assignments follow it. -/
def linkDeclaration (span : Span) (declStart : Nat) (names : List Text) (edits : EditBuffer) :
    Except EditFault EditBuffer := do
  let edits ← edits.remove span.start declStart
  let indent ← indentAt edits span.start
  names.foldlM
    (fun edits name =>
      edits.insertLeft span.stop ("\n".toList ++ indent ++ exportAssignment name name))
    edits

/-! ## All the exports -/

/-- Whether an item is an import. -/
def isImport : ModuleItem → Bool
  | .imports .. => true
  | _ => false

/-- The span of an item. -/
def itemSpan : ModuleItem → Span
  | .imports s _ _ | .exportDefault s _ | .exportDefaultDecl s | .exportDecl s _ _ => s
  | .exportNames s _ _ | .exportAll s | .statement s _ => s

/-- A default export: its span, its value, and whether nothing but imports follows it. -/
structure DefaultItem where
  span : Span
  value : Expr
  isFinal : Bool

/-- Links the named exports of some items, and finds the default export. There is one at most, and it
is an expression. -/
def linkItems : Option DefaultItem → List ModuleItem → EditBuffer →
    Except CompileError (Option DefaultItem × EditBuffer)
  | found, [], edits => .ok (found, edits)
  | found, item :: items, edits =>
    match item with
    | .exportDefault span value =>
      if found.isSome then .error (.script ⟨.invalidDefaultExport, span⟩)
      else linkItems (some ⟨span, value, items.all isImport⟩) items edits
    | .exportDefaultDecl span => .error (.script ⟨.invalidDefaultExport, span⟩)
    | .exportAll span => .error (.script ⟨.unsupportedExport, span⟩)
    | .exportDecl span declStart decl => do
      let edits ← ofEdit (linkDeclaration span declStart decl.declaredNames edits)
      linkItems found items edits
    | .exportNames span specifiers source => do
      let edits ← ofEdit (edits.overwrite span.start span.stop (exportStatements source specifiers))
      linkItems found items edits
    | .imports .. | .statement .. => linkItems found items edits

/-- Where the last item that is no import ends. -/
def lastStop? (m : Module) : Option Nat :=
  (m.items.reverse.find? fun item => !isImport item).map fun item => (itemSpan item).stop

/-- Makes the default export the result of the script. -/
def linkDefault (m : Module) (item : DefaultItem) (edits : EditBuffer) :
    Except EditFault (DefaultExport × EditBuffer) := do
  let valueStart := item.value.span.start
  if item.isFinal then
    let edits ← edits.overwrite item.span.start valueStart "return ".toList
    return (.final, edits)
  else
    let indent ← indentAt edits item.span.start
    let edits ← edits.overwrite item.span.start valueStart "var template = ".toList
    let edits ← match lastStop? m with
      | some stop => edits.insertLeft stop ("\n\n".toList ++ indent ++ "return template;".toList)
      | none => pure edits
    return (.bound, edits)

/-- Turns the exports of a module into edits. -/
def linkExports (m : Module) (edits : EditBuffer) :
    Except CompileError (DefaultExport × Config × EditBuffer) := do
  let (found, edits) ← linkItems none m.items edits
  match found with
  | none => return (.missing, .empty, edits)
  | some item =>
    let config ← ofScript (extractConfig item.value)
    let (kind, edits) ← ofEdit (linkDefault m item edits)
    return (kind, config, edits)

end TemplateCompiler
