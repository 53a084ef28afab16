import TemplateCompiler.Component.Config
import TemplateCompiler.Resolve.Reference
import TemplateCompiler.Template.Name
import TemplateCompiler.Template.Tree

/-!
# The expressions of a template in their scopes

## What this module delivers

* `scopedExpressions`: the expressions of nodes in document order, each with the names that the each
  blocks around it bind.
* `resolveNodes`: all of them resolved in an edit buffer.
-/

set_option autoImplicit false

namespace TemplateCompiler

open Script

/-- An expression with the scope it is evaluated in. -/
structure ScopedExpr where
  scope : Scope
  expr : Expr

/-- The expressions of an attribute. -/
def attributeExpressions (a : Attribute) : List Expr :=
  (a.value.getD []).filterMap fun
    | .expr e => some e
    | .text _ => none

/-- The names that an each block binds. -/
def itemNames (item : BlockBinding) (index : Option BlockBinding) : List Text :=
  item.name :: (index.map BlockBinding.name).toList

mutual

/-- The expressions of a node: those of the attributes before those of the children, a condition
before its branches, and a collection, outside of the scope of its items, before the body. -/
def nodeExpressions (scope : Scope) : Node → List ScopedExpr
  | .element name attributes children _ =>
    (attributes.flatMap attributeExpressions).map (ScopedExpr.mk scope)
      ++ (if isVoidElement name then [] else scopedExpressions scope children)
  | .text _ _ => []
  | .mustache e _ => [⟨scope, e⟩]
  | .ifBlock test children alternative _ =>
    ⟨scope, test⟩ :: scopedExpressions scope children ++ alternativeExpressions scope alternative
  | .eachBlock iterable item index children _ =>
    ⟨scope, iterable⟩ :: scopedExpressions (scope.push (itemNames item index)) children

/-- The expressions of some nodes, in document order. -/
def scopedExpressions (scope : Scope) : List Node → List ScopedExpr
  | [] => []
  | n :: rest => nodeExpressions scope n ++ scopedExpressions scope rest

/-- The expressions of the alternative of a conditional block. -/
def alternativeExpressions (scope : Scope) : Option (List Node) → List ScopedExpr
  | none => []
  | some nodes => scopedExpressions scope nodes

end

/-- Resolves the references of all the expressions of some nodes. -/
def resolveNodes (config : Config) (nodes : List Node) (edits : EditBuffer) :
    Except EditFault EditBuffer :=
  (scopedExpressions Scope.root nodes).foldlM
    (fun edits e => Resolve.resolve config.isHelper e.scope e.expr edits) edits

end TemplateCompiler
