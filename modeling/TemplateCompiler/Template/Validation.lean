import TemplateCompiler.Template.Fault
import TemplateCompiler.Template.Tree

/-!
# Validation

Rules that the shape of a template does not enforce: the attributes of an element have different
names, the names of an each block are different and do not hide what the generated code relies on, and
a script has one default export at most.

## What this module delivers

* `validateNodes`: the rules on nodes, in document order.
* `validate`: all the rules.
-/

set_option autoImplicit false

namespace TemplateCompiler

open Script

/-- The names that the generated code relies on. -/
def reservedNames : List Text := ["data".toList, "template".toList, "rendered".toList]

/-- Checks that no attribute has a name that is already in `seen`. -/
def validateAttributes : List Text → List Attribute → Except TemplateError Unit
  | _, [] => .ok ()
  | seen, a :: rest =>
    if seen.contains a.name then .error ⟨.duplicateAttribute a.name, a.span⟩
    else validateAttributes (a.name :: seen) rest

/-- Checks that a name is not reserved. -/
def validateBinding (b : BlockBinding) : Except TemplateError Unit :=
  if reservedNames.contains b.name then .error ⟨.reservedName b.name, b.span⟩ else .ok ()

/-- Checks the names that an each block binds. -/
def validateBindings (item : BlockBinding) (index : Option BlockBinding) :
    Except TemplateError Unit := do
  validateBinding item
  match index with
  | none => return ()
  | some index =>
    validateBinding index
    if index.name = item.name then .error ⟨.duplicateBinding index.name, index.span⟩
    else return ()

mutual

/-- Checks a node and everything in it. -/
def validateNode : Node → Except TemplateError Unit
  | .element _ attributes children _ => do
    validateAttributes [] attributes
    validateNodes children
  | .text _ _ | .mustache _ _ => .ok ()
  | .ifBlock _ children alternative _ => do
    validateNodes children
    validateAlternative alternative
  | .eachBlock _ item index children _ => do
    validateBindings item index
    validateNodes children

/-- Checks some nodes in order. -/
def validateNodes : List Node → Except TemplateError Unit
  | [] => .ok ()
  | n :: rest => do
    validateNode n
    validateNodes rest

/-- Checks the alternative of a conditional block. -/
def validateAlternative : Option (List Node) → Except TemplateError Unit
  | none => .ok ()
  | some nodes => validateNodes nodes

end

/-- The span of an item that is a default export. -/
def defaultExport? : ModuleItem → Option Span
  | .exportDefault span _ => some span
  | .exportDefaultDecl span => some span
  | _ => none

/-- Checks that a script has one default export at most. -/
def validateScript (m : Module) : Except TemplateError Unit :=
  match m.items.filterMap defaultExport? with
  | _ :: second :: _ => .error ⟨.duplicateDefaultExport, second⟩
  | _ => .ok ()

/-- Checks a template, its nodes before its script. -/
def validate (t : Template) : Except TemplateError Unit := do
  validateNodes t.nodes
  match t.script with
  | none => return ()
  | some script => validateScript script.content

end TemplateCompiler
