import TemplateCompiler.Edit.Buffer
import TemplateCompiler.Resolve.Outline
import TemplateCompiler.Scope

/-!
# Resolving references

A template expression is evaluated with the data of the component. A name that no enclosing block or
function binds is a property of the data; a call whose callee starts with the name of a helper goes to
the helpers. The helpers come first: a block never hides a helper that is called.

Resolution only inserts text, in front of names.

## What this module delivers

* `insertions`: the texts to insert, by offset, for an outline in a scope.
* `resolve`: the insertions of an expression, recorded in an edit buffer.
-/

set_option autoImplicit false

namespace TemplateCompiler.Resolve

open Script

/-- What stands in front of a property of the data. -/
def dataAccessor : Text := "data.".toList

/-- What stands in front of a called helper. -/
def helpersAccessor : Text := "template.helpers.".toList

/-- A text to insert at an offset. -/
abbrev Insertion := Nat × Text

/-- What a reference needs in a scope: nothing if the name is bound. -/
def referenceInsertion (scope : Scope) (id : Ident) : List Insertion :=
  if scope.contains id.name then [] else [(id.span.start, dataAccessor)]

/-- What a shorthand property needs in a scope: its key, and then the reference. -/
def shorthandInsertion (scope : Scope) (id : Ident) : List Insertion :=
  if scope.contains id.name then []
  else [(id.span.start, id.name ++ ": ".toList ++ dataAccessor)]

/-- The root of a callee, if it is a helper. -/
def helperRoot? (isHelper : Text → Bool) : Option Ident → Option Ident
  | some id => if isHelper id.name then some id else none
  | none => none

mutual

/-- The insertions that a piece of code needs in a scope. The callee of a helper is left as it is. -/
def insertions (isHelper : Text → Bool) (scope : Scope) : Outline → List Insertion
  | .reference id => referenceInsertion scope id
  | .shorthand id => shorthandInsertion scope id
  | .call root callee args =>
    match helperRoot? isHelper root with
    | some id => (id.span.start, helpersAccessor) :: insertionsOfAll isHelper scope args
    | none => insertionsOfAll isHelper scope callee ++ insertionsOfAll isHelper scope args
  | .scope names inner => insertionsOfAll isHelper (scope.push names) inner

/-- The insertions that some pieces of code need in a scope. -/
def insertionsOfAll (isHelper : Text → Bool) (scope : Scope) : List Outline → List Insertion
  | [] => []
  | o :: os => insertions isHelper scope o ++ insertionsOfAll isHelper scope os

end

/-- Records insertions in a buffer. -/
def recordAll (edits : EditBuffer) (items : List Insertion) : Except EditFault EditBuffer :=
  items.foldlM (fun b item => b.insertRight item.1 item.2) edits

/-- Resolves the references of an expression in a scope. -/
def resolve (isHelper : Text → Bool) (scope : Scope) (e : Expr) (edits : EditBuffer) :
    Except EditFault EditBuffer :=
  recordAll edits (insertionsOfAll isHelper scope (exprOutline e))

end TemplateCompiler.Resolve
