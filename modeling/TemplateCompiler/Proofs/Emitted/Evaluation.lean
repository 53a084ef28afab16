import TemplateCompiler.Proofs.Emitted.Target
import TemplateCompiler.Render.Block
import TemplateCompiler.Render.Reference

/-!
# What templates and emitted code evaluate to

The text of a template is defined on its nodes. Emitted code is run: its statements are parsed and
evaluated one after another, and each adds to the rendered text. Both use the same evaluator of
expressions, which may be any function of the expression and of what the each blocks around it bind;
a component is a call that nothing is known of.

## What this module delivers

* `Evaluator`: what expressions and components evaluate to.
* `interpretNode`, `interpretNodes`: the text of nodes.
* `eval`, `runBlocks`: running emitted code.
-/

set_option autoImplicit false

namespace TemplateCompiler.Emitted

open Script

/-! ## Evaluators -/

/-- What an each block binds a name to. -/
inductive Bound (V : Type) where
  | item (v : V)
  | index (i : Nat)

/-- The names that the each blocks around an expression bind, innermost first. -/
abbrev Env (V : Type) := List (Text × Bound V)

/-- What a component receives for an attribute. -/
inductive Argument (V : Type) where
  /-- A switch that is on. -/
  | on
  | value (v : V)
  | text (t : Text)

/-- What expressions evaluate to, as the text of an interpolation, as a condition, as the items of a
collection and as what a component receives, and the texts of components. -/
structure Evaluator (V : Type) where
  text : Expr → Env V → Text
  truth : Expr → Env V → Bool
  items : Expr → Env V → List V
  value : Expr → Env V → V
  component : Env V → Text → List (Text × Argument V) → Text

variable {V : Type}

/-- What an item of a collection and its index are bound to. -/
def bindItem (names : List Text) (v : V) (i : Nat) (env : Env V) : Env V :=
  names.zip [.item v, .index i] ++ env

/-! ## Nodes -/

section Nodes

variable (config : Config) (ev : Evaluator V)

/-- The text of a part of a value, where `value` tells what a text in it stands for. -/
def interpretPart (value : Text → Text) (env : Env V) : AttributePart → Text
  | .text data => value data
  | .expr e => ev.text e env

/-- The text of an attribute. -/
def interpretAttribute (env : Env V) (a : Attribute) : Text :=
  ' ' :: a.name ++ match a.value with
    | none => []
    | some parts => "=\"".toList ++ parts.flatMap (interpretPart ev referenced env) ++ "\"".toList

/-- What a component receives for an attribute: a switch is on, a single expression is passed as it
is, and anything else is a text. -/
def interpretArgument (env : Env V) (a : Attribute) : Text × Argument V :=
  (a.name, match a.value with
    | none => .on
    | some [.expr e] => .value (ev.value e env)
    | some parts => .text (parts.flatMap (interpretPart ev id env)))

mutual

/-- The text of a node. -/
def interpretNode : Node → Env V → Text
  | .element name attrs children _, env =>
    if config.isComponent name then ev.component env name (attrs.map (interpretArgument ev env))
    else
      '<' :: name ++ attrs.flatMap (interpretAttribute ev env) ++
        if isVoidElement name then ">".toList
        else if children.isEmpty then "/>".toList
        else ">".toList ++ interpretNodes children env ++ "</".toList ++ name ++ ">".toList
  | .text data _, _ => data
  | .mustache e _, env => ev.text e env
  | .ifBlock test children alternative _, env =>
    if ev.truth test env then interpretNodes children env else interpretAlternative alternative env
  | .eachBlock iterable item index children _, env =>
    (ev.items iterable env).zipIdx.flatMap fun (v, i) =>
      interpretNodes children (bindItem (itemNames item index) v i env)

/-- The text of some nodes. -/
def interpretNodes : List Node → Env V → Text
  | [], _ => []
  | n :: rest, env => interpretNode n env ++ interpretNodes rest env

/-- The text of the alternative of a conditional block. -/
def interpretAlternative : Option (List Node) → Env V → Text
  | none, _ => []
  | some nodes, env => interpretNodes nodes env

end

end Nodes

/-! ## Programs -/

/-- The values of programs. -/
inductive Value (V : Type) where
  /-- The value of an expression of the source. -/
  | source (e : Expr) (env : Env V)
  /-- The value of a switch that is on. -/
  | switch
  | text (t : Text)
  /-- A list, by the texts of its items. -/
  | list (texts : List Text)

section Programs

variable (ev : Evaluator V)

/-- A value as a text. -/
def Value.toText : Value V → Option Text
  | .source e env => some (ev.text e env)
  | .switch => some "true".toList
  | .text t => some t
  | .list _ => none

/-- A value as a condition. -/
def Value.toTruth : Value V → Bool
  | .source e env => ev.truth e env
  | .text t => !t.isEmpty
  | .switch | .list _ => true

/-- A value as what a component receives. -/
def Value.toArgument : Value V → Option (Argument V)
  | .source e env => some (.value (ev.value e env))
  | .switch => some .on
  | .text t => some (.text t)
  | .list _ => none

mutual

/-- The value of a program. -/
def eval : Target → Env V → Option (Value V)
  | .source e, env => some (.source e env)
  | .grouped t, env => eval t env
  | .switch, _ => some .switch
  | .quoted t, _ => some (.text t)
  | .literal parts, env => (evalTexts parts env).map .text
  | .conditional test yes no, env => do
    let v ← eval test env
    if v.toTruth ev then eval yes env else eval no env
  | .mapped list params body, env => do
    match ← eval list env with
    | .source e env' =>
      let texts ← (ev.items e env').zipIdx.mapM fun (v, i) => do
        (← eval body (bindItem params v i env)).toText ev
      return .list texts
    | _ => none
  | .joined list separator, env => do
    match ← eval list env with
    | .list texts => return .text (separator.intercalate texts)
    | _ => none
  | .component name keys values, env => do
    let arguments ← evalArguments values env
    return .text (ev.component env name (keys.zip arguments))

/-- The texts of some programs, one after another. -/
def evalTexts : List Target → Env V → Option Text
  | [], _ => some []
  | t :: rest, env => do
    let text ← (← eval t env).toText ev
    let more ← evalTexts rest env
    return text ++ more

/-- What a component receives for some programs. -/
def evalArguments : List Target → Env V → Option (List (Argument V))
  | [], _ => some []
  | t :: rest, env => do
    let argument ← (← eval t env).toArgument ev
    let more ← evalArguments rest env
    return argument :: more

end

/-- Runs a statement after some text has been rendered. -/
def runBlock (lookup : Span → Option Expr) (rendered : Text) (block : List Fragment) :
    Option Text := do
  let atoms ← lex block
  let t ← parseStatement lookup atoms
  let text ← (← eval ev t []).toText ev
  return rendered ++ text

/-- Runs statements in order. -/
def runBlocks (lookup : Span → Option Expr) (rendered : Text) (blocks : List (List Fragment)) :
    Option Text :=
  blocks.foldlM (runBlock ev lookup) rendered

end Programs

/-- The expression of a template that has a span. -/
def expressionWith (t : Template) (span : Span) : Option Expr :=
  ((scopedExpressions .root t.nodes).map ScopedExpr.expr).find? fun e => e.span = span

end TemplateCompiler.Emitted
