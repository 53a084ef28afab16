import TemplateCompiler.Render.Block
import TemplateCompiler.Render.Compose
import TemplateCompiler.Render.Module
import TemplateCompiler.Render.Reference
import TemplateCompiler.Template.Reader
import TemplateCompiler.Template.Validation

/-!
# Compiling templates

A template is read and validated, its script is linked, its expressions are resolved, and the module
is composed from generated text and the edited source.

## What this module delivers

* `Rendering`, `renderTemplate`: the statements of a template's render function, and the edits they
  rely on.
* `compile`: the module that a source compiles to.
-/

set_option autoImplicit false

namespace TemplateCompiler

open Script

/-- A linked script, the statements of the render function, and the edits that both rely on. -/
structure Rendering where
  script : Option ComponentScript
  blocks : List (List Fragment)
  edits : EditBuffer

/-- Links the script of a template, if it has one. -/
def linkTemplateScript (t : Template) (edits : EditBuffer) :
    Except CompileError (Option ComponentScript × EditBuffer) :=
  match t.script with
  | none => .ok (none, edits)
  | some block => do
    let (script, edits) ← linkScript block edits
    return (some script, edits)

/-- The statements of a template's render function, and the edits they rely on. -/
def renderTemplate (t : Template) (source : Text) : Except CompileError Rendering := do
  let (script, edits) ← linkTemplateScript t (.ofText source)
  let config := (script.map ComponentScript.config).getD .empty
  let blocks ← ofRender (renderBlocks config t.nodes)
  let edits ← ofEdit (resolveNodes config t.nodes edits)
  return ⟨script, blocks, edits⟩

/-- The module that a source compiles to, scripts being read with a given grammar. -/
def compileWith (g : Grammar) (source : Text) : Except CompileError Composed := do
  let t ← ofTemplate (readTemplate g source)
  ofTemplate (validate t)
  ofScript (rejectStyle t)
  let r ← renderTemplate t source
  ofEdit (compose r.edits (moduleFragments r.script r.blocks))

/-- The module that a source compiles to. -/
def compile (source : Text) : Except CompileError Composed :=
  compileWith .standard source

end TemplateCompiler
