import TemplateCompiler.Script.Tree

/-!
# Template trees

## What this module delivers

* `Node`: elements, text, mustaches, and the two kinds of blocks.
* `Attribute`, `AttributePart`: attributes with their values.
* `Template`: the nodes of a document with its script and its style.
-/

set_option autoImplicit false

namespace TemplateCompiler

open Script

/-- A name that a block binds, where it stands in the source. -/
structure BlockBinding where
  name : Text
  span : Span
deriving DecidableEq, Repr

/-- A piece of an attribute value. -/
inductive AttributePart where
  | text (data : Text)
  | expr (e : Expr)

/-- An attribute. Without a value it is a switch. -/
structure Attribute where
  name : Text
  value : Option (List AttributePart)
  span : Span

/-- The nodes of a template. -/
inductive Node where
  | element (name : Text) (attributes : List Attribute) (children : List Node) (span : Span)
  /-- Text that is rendered as it is, comments included. -/
  | text (data : Text) (span : Span)
  | mustache (expr : Expr) (span : Span)
  /-- A conditional block. Its alternative, if it has one, may be a single further conditional. -/
  | ifBlock (test : Expr) (children : List Node) (alternative : Option (List Node)) (span : Span)
  /-- A block that is rendered for every item of a collection. -/
  | eachBlock (iterable : Expr) (item : BlockBinding) (index : Option BlockBinding)
      (children : List Node) (span : Span)

/-- The span of a node. -/
def Node.span : Node → Span
  | .element _ _ _ s | .text _ s | .mustache _ s | .ifBlock _ _ _ s | .eachBlock _ _ _ _ s => s

/-- The script of a template, and the span of its text between the tags. -/
structure ScriptBlock where
  content : Module
  span : Span

/-- A template: its nodes, its script and the span of its style. -/
structure Template where
  nodes : List Node
  script : Option ScriptBlock
  style : Option Span

end TemplateCompiler
