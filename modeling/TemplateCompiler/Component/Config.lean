import TemplateCompiler.Error
import TemplateCompiler.Script.Tree

/-!
# The configuration of a component

The default export of a script is an object literal. Its properties `data`, `helpers` and `components`
configure the component; later definitions of a name replace earlier ones. Accessors have no value and
are passed over, and so is a shorthand with a default.

## What this module delivers

* `ConfigMap`: expressions by name.
* `Config`: the configuration of a component.
* `extractConfig`: the configuration that a default export describes.
-/

set_option autoImplicit false

namespace TemplateCompiler

open Script

/-- Expressions by name, in the order in which the names were first defined. -/
abbrev ConfigMap := List (Text × Expr)

namespace ConfigMap

/-- Defines a name, replacing an earlier definition. -/
def define (name : Text) (value : Expr) : ConfigMap → ConfigMap
  | [] => [(name, value)]
  | (k, v) :: rest =>
    if k = name then (k, value) :: rest else (k, v) :: define name value rest

/-- The definition of a name. -/
def find? (name : Text) : ConfigMap → Option Expr
  | [] => none
  | (k, v) :: rest => if k = name then some v else find? name rest

/-- Whether a name is defined. -/
def contains (m : ConfigMap) (name : Text) : Bool := (m.find? name).isSome

end ConfigMap

/-- The configuration of a component. -/
structure Config where
  /-- What makes the initial data. -/
  data : Option Expr
  helpers : ConfigMap
  components : ConfigMap

namespace Config

/-- The configuration of a component without a default export. -/
def empty : Config := ⟨none, [], []⟩

/-- Whether the component has initial data. -/
def hasData (c : Config) : Bool := c.data.isSome

/-- Whether a name is a helper. -/
def isHelper (c : Config) (name : Text) : Bool := c.helpers.contains name

/-- Whether a name is a component. -/
def isComponent (c : Config) (name : Text) : Bool := c.components.contains name

end Config

/-- An expression without the parentheses around it. -/
def withoutParens : Expr → Expr
  | .paren _ inner => withoutParens inner
  | e => e

/-- A property with a value. -/
structure Entry where
  name : Text
  value : Expr
  span : Span

/-- The name of a key that is not computed. -/
def keyName : Key → Except ScriptError Text
  | .named name _ => .ok name
  | .privateName name _ => .ok name
  | .computed span _ => .error ⟨.invalidDefaultExport, span⟩

/-- The entry of a property, unless it has no value. A spread or computed property has no name. -/
def propertyEntry (p : Property) : Except ScriptError (Option Entry) :=
  match p with
  | .spread _ arg => .error ⟨.invalidDefaultExport, arg.span⟩
  | .shorthand id => .ok (some ⟨id.name, .ident id, id.span⟩)
  | .shorthandDefault _ _ => .ok none
  | .keyValue key value => do return some ⟨← keyName key, value, p.span⟩
  | .method key span params body => do
    return some ⟨← keyName key, .function span none params body, p.span⟩
  | .getter key _ _ => do
    let _ ← keyName key
    return none
  | .setter key _ _ _ => do
    let _ ← keyName key
    return none

/-- The properties of an object that have a value, in order. -/
def objectEntries : List Property → Except ScriptError (List Entry)
  | [] => .ok []
  | p :: rest => do
    let entry ← propertyEntry p
    let entries ← objectEntries rest
    return entry.toList ++ entries

/-- The expressions by name that a property describes. -/
def entryMap (entry : Entry) : Except ScriptError ConfigMap :=
  match withoutParens entry.value with
  | .object _ props _ => do
    let entries ← objectEntries props
    return entries.foldl (fun m e => m.define e.name e.value) []
  | _ => .error ⟨.invalidProperty entry.name, entry.span⟩

/-- Whether an expression is a function. -/
def isFunction : Expr → Bool
  | .function .. | .arrow .. | .arrowExpr .. => true
  | _ => false

/-- A configuration with one more property of the default export. -/
def Config.apply (c : Config) (entry : Entry) : Except ScriptError Config :=
  if entry.name = "data".toList then
    if isFunction (withoutParens entry.value) then .ok { c with data := some entry.value }
    else .error ⟨.invalidProperty entry.name, entry.span⟩
  else if entry.name = "helpers".toList then do
    return { c with helpers := ← entryMap entry }
  else if entry.name = "components".toList then do
    return { c with components := ← entryMap entry }
  else .ok c

/-- The configuration that a default export describes. -/
def extractConfig (e : Expr) : Except ScriptError Config :=
  match withoutParens e with
  | .object _ props _ => do
    let entries ← objectEntries props
    entries.foldlM Config.apply Config.empty
  | _ => .error ⟨.invalidDefaultExport, e.span⟩

end TemplateCompiler
