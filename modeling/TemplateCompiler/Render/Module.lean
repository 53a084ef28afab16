import TemplateCompiler.Component.Script
import TemplateCompiler.Render.Fragment

/-!
# The generated module

The statements that load the imports, the script as a function that is called once, and the render
function.

## What this module delivers

* `scriptFragments`, `renderFunction`: the parts of the module.
* `moduleFragments`: the whole module.
-/

set_option autoImplicit false

namespace TemplateCompiler

/-- The statements that load the imports, each on a line, and an empty line after them. -/
def hoistedFragments (statements : List Text) : List Fragment :=
  statements.flatMap (fun s => [.text s, .ofString "\n"])
    ++ (if statements.isEmpty then [] else [.ofString "\n"])

/-- The imports and the script. -/
def scriptFragments (script : ComponentScript) : List Fragment :=
  let opening :=
    if script.defaultExport = .missing then "(function () \x7b" else "var template = (function () \x7b"
  hoistedFragments script.hoisted
    ++ [.ofString opening, .slice script.body, .ofString "\x7d());\n\n"]

/-- The statement that prepares the data. -/
def dataStatement (hasData : Bool) : Fragment :=
  if hasData then .ofString "\tdata = Object.assign( template.data(), data );\n"
  else .ofString "\tdata = data || \x7b\x7d;\n"

/-- A statement on a line of its own, with an empty line after it. -/
def blockLines (block : List Fragment) : List Fragment :=
  .ofString "\t" :: block ++ [.ofString "\n\n"]

/-- The render function. -/
def renderFunction (hasData : Bool) (blocks : List (List Fragment)) : List Fragment :=
  .ofString "exports.render = function ( data ) \x7b\n" :: dataStatement hasData
    :: .ofString "\tvar rendered = '';\n\n" :: blocks.flatMap blockLines
    ++ [.ofString "\treturn rendered;\n\x7d;"]

/-- The whole module. -/
def moduleFragments (script : Option ComponentScript) (blocks : List (List Fragment)) :
    List Fragment :=
  match script with
  | none => renderFunction false blocks
  | some script => scriptFragments script ++ renderFunction script.config.hasData blocks

end TemplateCompiler
