import TemplateCompiler.Script.Grammar.Module

/-!
# The grammar of scripts

## What this module delivers

* `level`: the rules of the grammar down to a depth.
* `readExpression`: the expression at the start of a text.
* `readModule`: a text as a module.
* `Grammar`, `Grammar.standard`: the two entry points, as what a template is read with.
-/

set_option autoImplicit false

namespace TemplateCompiler.Script

/-- The rules of the grammar down to a depth. -/
def level : Nat → Deeper
  | 0 => ⟨0, fun _ => Reader.fail, fun _ => Reader.fail, fun _ => Reader.fail, fun _ => Reader.fail,
      fun _ => Reader.fail, fun _ _ => Reader.fail⟩
  | n + 1 =>
    let d := level n
    ⟨n + 1, assignment d, unaryExpression d, leftHandSide d, memberOrNew d, bindingPattern d,
      statement d⟩

/-- Runs a reader at the start of a text, which stands at an offset of the source. -/
def run {α : Type} (goal : Goal) (pos : Nat) (text : Text) (reader : Reader α) : Option α := do
  let first ← scan goal true pos text
  let (a, _) ← reader ⟨goal, first, pos⟩
  return a

/-- The expression at the start of a text. The text may go on behind it. -/
def readExpression (text : Text) (pos : Nat) : Option Expr :=
  run .script pos text (expression (level (text.length + 2)) { allowIn := false })

/-- A text without the line that names its interpreter. -/
def skipInterpreterLine (text : Text) : Text :=
  match text with
  | '#' :: '!' :: t => t.dropWhile fun c => !Text.isLineTerminator c
  | t => t

/-- A whole text as a module. -/
def readModule (text : Text) (pos : Nat) : Option Module := do
  let rest := skipInterpreterLine text
  let start := pos + (Text.byteLength text - Text.byteLength rest)
  let items ← run .module start rest
    (moduleItems (level (text.length + 2)) { strict := true })
  return ⟨items⟩

/-- How the scripts in a template are read. -/
structure Grammar where
  /-- The expression at the start of a text that stands at an offset. -/
  expression : Text → Nat → Option Expr
  /-- A whole text that stands at an offset as a module. -/
  module : Text → Nat → Option Module

/-- The grammar of scripts. -/
def Grammar.standard : Grammar := ⟨readExpression, readModule⟩

end TemplateCompiler.Script
