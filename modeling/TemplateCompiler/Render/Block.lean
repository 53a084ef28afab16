import TemplateCompiler.Component.Config
import TemplateCompiler.Render.Escape
import TemplateCompiler.Render.Fragment
import TemplateCompiler.Script.Spelling
import TemplateCompiler.Template.Name
import TemplateCompiler.Template.Tree

/-!
# Render blocks

Every top-level node becomes one statement of the render function, which adds the text of the node to
the result. The code of a node is either an expression, or the inside of a template literal; each can
stand where the other is wanted.

## What this module delivers

* `Code`: an expression or the inside of a literal, with `Code.inLiteral` and `Code.asExpression`.
* `nodeCode`, `nodesCode`: the code of nodes.
* `renderBlocks`: the statements of the render function.
-/

set_option autoImplicit false

namespace TemplateCompiler

open Script

/-- The code of a node. -/
inductive Code where
  | expression (fragments : List Fragment)
  /-- The inside of a template literal. -/
  | literal (fragments : List Fragment)

/-- A hole of a template literal. -/
def hole (fragments : List Fragment) : List Fragment :=
  .ofString "$\x7b" :: fragments ++ [.ofString "\x7d"]

/-- A template literal. -/
def templateLiteral (fragments : List Fragment) : List Fragment :=
  .ofString "`" :: fragments ++ [.ofString "`"]

/-- Code as a part of the inside of a template literal. -/
def Code.inLiteral : Code → List Fragment
  | .expression fragments => hole fragments
  | .literal fragments => fragments

/-- Code as an expression. -/
def Code.asExpression : Code → List Fragment
  | .expression fragments => fragments
  | .literal fragments => templateLiteral fragments

/-! ## Expressions -/

/-- Whether an expression binds more loosely than the code it is put into. -/
def needsParens : Expr → Bool
  | .sequence .. | .assign .. | .assignUpdate .. | .arrow .. | .arrowExpr .. => true
  | .conditional .. | .yield .. => true
  | _ => false

/-- Whether a member can be accessed on an expression without parentheses. -/
def isMemberSafe : Expr → Bool
  | .ident _ | .member .. | .call .. | .superCall .. | .importCall .. | .paren .. | .array .. => true
  | _ => false

/-- Fragments between parentheses. -/
def inParens (fragments : List Fragment) : List Fragment :=
  .ofString "(" :: fragments ++ [.ofString ")"]

/-- An expression of the source where any expression can stand. -/
def exprCode (e : Expr) : List Fragment :=
  if needsParens e then inParens [.slice e.span] else [.slice e.span]

/-! ## Attributes -/

/-- A part of an attribute value. -/
def partCode (escape : Text → Text) : AttributePart → List Fragment
  | .text data => [.text (escape data)]
  | .expr e => hole (exprCode e)

/-- An attribute of an element. -/
def attributeCode (a : Attribute) : List Fragment :=
  match a.value with
  | none => [.text (" ".toList ++ a.name)]
  | some parts =>
    .text (" ".toList ++ a.name ++ "=\"".toList)
      :: parts.flatMap (partCode escapeAttribute) ++ [.ofString "\""]

/-- What a component receives for an attribute: a switch is on, a single expression is passed as it
is, and anything else is a text. -/
def propValueCode : Option (List AttributePart) → List Fragment
  | none => [.ofString "true"]
  | some [.expr e] => exprCode e
  | some parts => templateLiteral (parts.flatMap (partCode escapeLiteral))

/-- What a component receives for its attributes, with a separator in front of each. -/
def propsCode : Text → List Attribute → List Fragment
  | _, [] => []
  | separator, a :: rest =>
    .text (separator ++ propertyKeyText a.name ++ ": ".toList)
      :: propValueCode a.value ++ propsCode ", ".toList rest

/-- The object that a component receives. -/
def propsObject (attributes : List Attribute) : List Fragment :=
  if attributes.isEmpty then [.ofString "\x7b\x7d"]
  else .ofString "\x7b" :: propsCode " ".toList attributes ++ [.ofString " \x7d"]

/-- The call that renders a component. -/
def componentCode (name : Text) (attributes : List Attribute) : List Fragment :=
  .text ("template.components".toList ++ propertyAccess name ++ ".render( ".toList)
    :: propsObject attributes ++ [.ofString " )"]

/-! ## Nodes -/

/-- The parameters of the function that renders an item. -/
def itemParams (item : BlockBinding) : Option BlockBinding → Text
  | some index => "( ".toList ++ item.name ++ ", ".toList ++ index.name ++ " )".toList
  | none => item.name

/-- The collection of an each block, where a member is accessed on it. -/
def iterableCode (e : Expr) : List Fragment :=
  if isMemberSafe e then [.slice e.span] else inParens [.slice e.span]

/-- The beginning of a tag: its name and attributes. -/
def tagCode (name : Text) (attributes : List Attribute) : List Fragment :=
  .text ("<".toList ++ name) :: attributes.flatMap attributeCode

mutual

/-- The code of a node. -/
def nodeCode (config : Config) : Node → Except RenderError Code
  | .element name attributes children span =>
    if config.isComponent name then
      match children with
      | [] => .ok (.expression (componentCode name attributes))
      | _ :: _ => .error ⟨span⟩
    else if isVoidElement name then
      .ok (.literal (tagCode name attributes ++ [.ofString ">"]))
    else
      match children with
      | [] => .ok (.literal (tagCode name attributes ++ [.ofString "/>"]))
      | child :: more => do
        let first ← nodeCode config child
        let rest ← nodesCode config more
        return .literal (tagCode name attributes ++ .ofString ">" :: first.inLiteral ++ rest
          ++ [.text ("</".toList ++ name ++ ">".toList)])
  | .text data _ => .ok (.literal [.text (escapeLiteral data)])
  | .mustache e _ => .ok (.expression (exprCode e))
  | .ifBlock test children alternative _ => do
    let yes ← nodesCode config children
    let no ← alternativeCode config alternative
    return .expression (.ofString "(" :: .slice test.span :: .ofString ") ? `" :: yes
      ++ .ofString "` : `" :: no ++ [.ofString "`"])
  | .eachBlock iterable item index children _ => do
    let body ← nodesCode config children
    return .expression (iterableCode iterable
      ++ .text (".map( ".toList ++ itemParams item index ++ " => `".toList) :: body
      ++ [.ofString "` ).join( '' )"])

/-- The code of some nodes as the inside of a template literal. -/
def nodesCode (config : Config) : List Node → Except RenderError (List Fragment)
  | [] => .ok []
  | n :: rest => do
    let code ← nodeCode config n
    let more ← nodesCode config rest
    return code.inLiteral ++ more

/-- The code of the alternative of a conditional block: nothing if there is none. -/
def alternativeCode (config : Config) : Option (List Node) → Except RenderError (List Fragment)
  | none => .ok []
  | some nodes => nodesCode config nodes

end

/-- The statement that renders a top-level node. -/
def renderBlock (config : Config) (n : Node) : Except RenderError (List Fragment) := do
  let code ← nodeCode config n
  return .ofString "rendered += " :: code.asExpression ++ [.ofString ";"]

/-- The statements of the render function. -/
def renderBlocks (config : Config) (nodes : List Node) : Except RenderError (List (List Fragment)) :=
  nodes.mapM (renderBlock config)

end TemplateCompiler
