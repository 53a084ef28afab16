import TemplateCompiler.Number.Shortest
import TemplateCompiler.Script.Grammar.Basic

/-!
# Patterns

Patterns are read in two ways. Declarations and parameters of ordinary functions are read as patterns
from the start. The target of an assignment and the parameters of an arrow function are first read as
an expression, and that expression is then taken as a pattern.

## What this module delivers

* `isSimpleTarget`: the expressions that can be assigned to.
* `Expr.toPattern?`, `assignmentTarget?`, `arrowParameters?`: expressions taken as patterns.
* `propertyKey`: the keys of properties.
* `bindingPattern`, `bindingElement`: patterns read as such.
-/

set_option autoImplicit false

namespace TemplateCompiler.Script

/-! ## Expressions taken as patterns -/

/-- Whether an expression that is no pattern can be assigned to. -/
def isSimpleTarget (ctx : Context) : Expr → Bool
  | .ident id => isAssignableName ctx id.name
  | .member .. | .superMember .. => true
  | .paren _ inner => isSimpleTarget ctx inner
  | _ => false

/-- The role of a pattern: it assigns to targets, or it binds names. -/
inductive PatternRole where
  | assigns
  | binds
deriving DecidableEq

mutual

/-- An expression taken as a pattern. -/
def Expr.toPattern? (ctx : Context) (role : PatternRole) : Expr → Option Pat
  | .ident id => if isAssignableName ctx id.name then some (.ident id) else none
  | .array _ items trailing => do return .array (← itemsToPattern? ctx role trailing items)
  | .object _ props trailing => do return .object (← propsToPattern? ctx role trailing props)
  | .assign _ (.expr target) value => do
    return .withDefault (← target.toPattern? ctx role) value
  | .assign _ target value => some (.withDefault target value)
  | e => if role = .assigns && isSimpleTarget ctx e then some (.expr e) else none

/-- The items of an array taken as patterns. Only the last one can be spread, and then no comma
follows it. -/
def itemsToPattern? (ctx : Context) (role : PatternRole) (trailing : Bool) :
    List Expr → Option (List Pat)
  | [] => some []
  | .omitted _ :: items => do return .omitted :: (← itemsToPattern? ctx role trailing items)
  | [.spread _ (.assign ..)] => none
  | [.spread _ arg] => if trailing then none else do return [.rest (← arg.toPattern? ctx role)]
  | item :: items => do
    return (← item.toPattern? ctx role) :: (← itemsToPattern? ctx role trailing items)

/-- The properties of an object taken as patterns. Only the last one can be spread, and then no comma
follows it. -/
def propsToPattern? (ctx : Context) (role : PatternRole) (trailing : Bool) :
    List Property → Option (List Pat)
  | [] => some []
  | [.spread _ arg] =>
    match role, arg with
    | _, .assign .. => none
    | .binds, .ident id => if trailing then none else some [.rest (.ident id)]
    | .binds, _ => none
    | .assigns, arg =>
      if trailing then none else do return [.rest (← arg.toPattern? ctx role)]
  | .shorthand id :: props => do
    return .property (.named id.name id.span) (.ident id)
      :: (← propsToPattern? ctx role trailing props)
  | .shorthandDefault id value :: props => do
    return .property (.named id.name id.span) (.withDefault (.ident id) value)
      :: (← propsToPattern? ctx role trailing props)
  | .keyValue key value :: props => do
    return .property key (← value.toPattern? ctx role)
      :: (← propsToPattern? ctx role trailing props)
  | _ :: _ => none

end

/-- An expression taken as the target of a plain assignment. -/
def assignmentTarget? (ctx : Context) (e : Expr) : Option Pat :=
  match e with
  | .array .. | .object .. => e.toPattern? ctx .assigns
  | e => if isSimpleTarget ctx e then some (.expr e) else none

/-- Expressions taken as the parameters of an arrow function. -/
def arrowParameters? (ctx : Context) (trailingComma : Bool) : List Expr → Option (List Pat)
  | [] => some []
  | [.spread _ (.assign ..)] => none
  | [.spread _ arg] =>
    if trailingComma then none else do return [.rest (← arg.toPattern? ctx .binds)]
  | item :: items => do
    return (← item.toPattern? ctx .binds) :: (← arrowParameters? ctx trailingComma items)

/-! ## Patterns read as such -/

open Reader

/-- The key of a property. A number is a key by its shortest decimal. -/
def propertyKey (d : Deeper) (ctx : Context) : Reader Key := do
  let l ← lexeme
  match l.token with
  | .word name _ =>
    advance
    return .named name l.span
  | .string value legacy =>
    require !(ctx.strict && legacy)
    advance
    return .named value l.span
  | .number value legacy =>
    require !(ctx.strict && legacy)
    advance
    return .named value.positional l.span
  | .bigint value =>
    advance
    return .named (Text.ofNat value) l.span
  | .bracketOpen =>
    advance
    let e ← d.assignment { ctx with allowIn := true }
    expect .bracketClose
    return .computed (← spanFrom l.start) e
  | _ => fail

/-- A pattern with the default that may follow it. -/
def withInitializer (d : Deeper) (ctx : Context) (target : Pat) : Reader Pat := do
  if ← accept .equals then
    return .withDefault target (← d.assignment { ctx with allowIn := true })
  else return target

/-- A pattern and its default. -/
def bindingElement (d : Deeper) (ctx : Context) : Reader Pat := do
  withInitializer d ctx (← d.binding ctx)

/-- The items of an array pattern, up to its end. -/
def arrayBinding (d : Deeper) (ctx : Context) : Nat → Reader (List Pat)
  | 0 => fail
  | n + 1 => do
    if ← accept .bracketClose then return []
    else if ← accept .comma then return .omitted :: (← arrayBinding d ctx n)
    else if ← accept .ellipsis then
      let target ← d.binding ctx
      expect .bracketClose
      return [.rest target]
    else
      let item ← bindingElement d ctx
      if ← accept .bracketClose then return [item]
      else
        expect .comma
        return item :: (← arrayBinding d ctx n)

/-- A property of an object pattern. -/
def propertyBinding (d : Deeper) (ctx : Context) : Reader Pat := do
  let l ← lexeme
  let key ← propertyKey d ctx
  if ← accept .colon then return .property key (← bindingElement d ctx)
  else
    match l.token with
    | .word name _ =>
      require (isReferenceIn ctx (← get).goal name && isAssignableName ctx name)
      return .property key (← withInitializer d ctx (.ident ⟨name, l.span⟩))
    | _ => fail

/-- The properties of an object pattern, up to its end. -/
def objectBinding (d : Deeper) (ctx : Context) : Nat → Reader (List Pat)
  | 0 => fail
  | n + 1 => do
    if ← accept .braceClose then return []
    else if ← accept .ellipsis then
      let id ← bindingIdentifier ctx
      expect .braceClose
      return [.rest (.ident id)]
    else
      let item ← propertyBinding d ctx
      if ← accept .braceClose then return [item]
      else
        expect .comma
        return item :: (← objectBinding d ctx n)

/-- A pattern of a declaration or of a parameter list. -/
def bindingPattern (d : Deeper) (ctx : Context) : Reader Pat := do
  if ← accept .bracketOpen then return .array (← arrayBinding d ctx d.budget)
  else if ← accept .braceOpen then return .object (← objectBinding d ctx d.budget)
  else return .ident (← bindingIdentifier ctx)

end TemplateCompiler.Script
