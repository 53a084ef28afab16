import TemplateCompiler.Component.Exports
import TemplateCompiler.Template.Tree

/-!
# The script of a component

## What this module delivers

* `ComponentScript`: a script whose imports and exports have been turned into edits.
* `linkScript`: the script of a template.
* `rejectStyle`: styles are not supported.
-/

set_option autoImplicit false

namespace TemplateCompiler

open Script

/-- A script whose imports and exports have been turned into edits. -/
structure ComponentScript where
  imports : List ImportRecord
  /-- The statements that stand for the imports. -/
  hoisted : List Text
  /-- The span of the text of the script. -/
  body : Span
  config : Config
  defaultExport : DefaultExport

/-- Turns the imports and exports of a script into edits. -/
def linkScript (block : ScriptBlock) (edits : EditBuffer) :
    Except CompileError (ComponentScript × EditBuffer) := do
  let (imports, edits) ← ofEdit (removeImports block.content block.span edits)
  let (defaultExport, config, edits) ← linkExports block.content edits
  return (⟨imports, imports.flatMap hoistedStatements, block.span, config, defaultExport⟩, edits)

/-- Refuses a template with a style. -/
def rejectStyle (t : Template) : Except ScriptError Unit :=
  match t.style with
  | some span => .error ⟨.unsupportedStyle, span⟩
  | none => .ok ()

end TemplateCompiler
