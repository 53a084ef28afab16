import TemplateCompiler.Script.Grammar.Pattern

/-!
# Functions and classes

Both change the surroundings of what is inside: a function has its own jumps, labels and
suspensions, a class is strict and permits access to what it extends.

## What this module delivers

* `functionRest`: the parameters and body of an ordinary function.
* `functionExpression`, `methodOf`, `arrowRest`: functions in their various places.
* `classRest`: what a class extends, and its members.
-/

set_option autoImplicit false

namespace TemplateCompiler.Script

open Reader

/-! ## Parameters and bodies -/

/-- The parameters of a function after the opening parenthesis. A rest parameter is the last one and
has no comma after it. -/
def formalParameters (d : Deeper) (ctx : Context) : Nat → Reader (List Pat)
  | 0 => fail
  | n + 1 => do
    if ← accept .parenClose then return []
    else if ← accept .ellipsis then
      let target ← d.binding ctx
      expect .parenClose
      return [.rest target]
    else
      let param ← bindingElement d ctx
      if ← accept .parenClose then return [param]
      else
        expect .comma
        return param :: (← formalParameters d ctx n)

/-- Whether a parameter is a plain name. -/
def Pat.isName : Pat → Bool
  | .ident _ => true
  | _ => false

/-- Whether a token is the directive for strict code, which is written without escapes. -/
def Lexeme.isStrictDirective (l : Lexeme) : Bool :=
  match l.token with
  | .string value _ => value == "use strict".toList && l.stop - l.start == 12
  | _ => false

/-- A block with the body of a function. A body with the directive for strict code needs plain names
as parameters. -/
def functionBody (d : Deeper) (ctx : Context) (heedsDirective : Bool) (params : List Pat) :
    Reader (List Stmt) := do
  expect .braceOpen
  let directive := (← lexeme).isStrictDirective
  require (!directive || params.all Pat.isName)
  let strict := ctx.strict || (directive && heedsDirective)
  manyUntil .braceClose (d.statement { ctx with strict := strict } true) d.budget

/-- The parameters and body of an ordinary function. -/
def functionRest (d : Deeper) (ctx : Context) (async generator : Bool) :
    Reader (List Pat × List Stmt) := do
  let inner := { ctx with
    inAsync := async, inGenerator := generator, inClassField := false, inStaticBlock := false }
  expect .parenOpen
  let params ← formalParameters d
    { inner with inParameters := true, inFunction := false } d.budget
  let body ← functionBody d
    { inner with
      inParameters := false, inFunction := true, inOrdinaryFunction := true,
      allowBreak := false, allowContinue := false, labels := [] } true params
  return (params, body)

/-- The surroundings of an ordinary function that is no method. -/
def Context.plain (ctx : Context) : Context :=
  { ctx with superProperty := false, superCall := false, inClassField := false }

/-- A function expression whose word `function` is the current token. It starts at `start`. -/
def functionExpression (d : Deeper) (ctx : Context) (start : Nat) (async : Bool) : Reader Expr := do
  expectWord "function"
  let generator ← accept (.operator .mul)
  let ctx := ctx.plain
  let name ←
    if ← sees .parenOpen then pure none
    else some <$> bindingIdentifier { ctx with inAsync := async, inGenerator := generator }
  let (params, body) ← functionRest d ctx async generator
  return .function (← spanFrom start) name params body

/-- A function declaration whose word `function` is the current token. -/
def functionDeclaration (d : Deeper) (ctx : Context) (async : Bool) : Reader Stmt := do
  expectWord "function"
  let generator ← accept (.operator .mul)
  let name ← bindingIdentifier ctx
  let (params, body) ← functionRest d ctx.plain async generator
  return .function name params body

/-- The parameters and body of a method. -/
def methodRest (d : Deeper) (ctx : Context) (async generator : Bool) :
    Reader (List Pat × List Stmt) :=
  functionRest d { ctx with superProperty := true, superCall := false } async generator

/-- The body of a getter, which has no parameters. -/
def getterRest (d : Deeper) (ctx : Context) : Reader (List Stmt) := do
  let (params, body) ← methodRest d ctx false false
  require params.isEmpty
  return body

/-- The parameter and body of a setter. -/
def setterRest (d : Deeper) (ctx : Context) : Reader (Pat × List Stmt) := do
  match ← methodRest d ctx false false with
  | ([.rest _], _) => fail
  | ([param], body) => return (param, body)
  | _ => fail

/-- The body of an arrow function, after its arrow. -/
def arrowRest (d : Deeper) (ctx : Context) (start : Nat) (async : Bool) (params : List Pat) :
    Reader Expr := do
  let inner := { ctx with
    inAsync := async, inGenerator := false, inFunction := true, allowBreak := false,
    allowContinue := false, labels := [] }
  if ← sees .braceOpen then
    let body ← functionBody d inner false params
    return .arrow (← spanFrom start) params body
  else
    let body ← d.assignment inner
    return .arrowExpr (← spanFrom start) params body

/-! ## Classes -/

/-- The key of a class member. -/
def memberKey (d : Deeper) (ctx : Context) : Reader Key := do
  let start ← offset
  if ← accept .hash then
    let id ← identifierName
    return .privateName id.name ⟨start, id.span.stop⟩
  else propertyKey d ctx

/-- Whether a key names the constructor. -/
def Key.isConstructor : Key → Bool
  | .named name _ => name == "constructor".toList
  | _ => false

/-- Whether a field can end, or have its value, at the current token. -/
def seesFieldEnd (lineEnds : Bool) : Reader Bool := do
  match ← token with
  | .equals | .braceClose | .semicolon => return true
  | .eof => return lineEnds
  | _ => return lineEnds && (← newlineBefore)

/-- A field after its key. -/
def fieldRest (d : Deeper) (ctx : Context) (key : Key) : Reader Member := do
  require !key.isConstructor
  let value ←
    if ← accept .equals then
      some <$> d.assignment { ctx with allowIn := true, inClassField := true, superProperty := true }
    else pure none
  expectEnd
  return .field key value

/-- A method after its key. -/
def memberMethod (d : Deeper) (ctx : Context) (key : Key) (async generator : Bool) :
    Reader Member := do
  let (params, body) ← methodRest d ctx async generator
  return .method key params body

/-- A member after the words before its key. -/
def memberRest (d : Deeper) (ctx : Context) (derived isStatic : Bool) : Reader Member := do
  if ← accept (.operator .mul) then
    let key ← memberKey d ctx
    require (isStatic || !key.isConstructor)
    memberMethod d ctx key false true
  else
    let l ← lexeme
    let key ← memberKey d ctx
    if ← sees .parenOpen then
      if key.isConstructor && !isStatic then
        let (params, body) ← functionRest d
          { ctx with superProperty := true, superCall := derived } false false
        return .constructor params body
      else memberMethod d ctx key false false
    else
      let generatorNext := (← newlineBefore) && (← sees (.operator .mul))
      let accessor := (isWord l.token "get" || isWord l.token "set")
        && !(← seesFieldEnd false) && !generatorNext
      if !accessor && (← seesFieldEnd true) then fieldRest d ctx key
      else if isWord l.token "async" && !(← newlineBefore) then
        let generator ← accept (.operator .mul)
        let key ← memberKey d ctx
        require (isStatic || !key.isConstructor)
        memberMethod d ctx key true generator
      else if accessor then
        let key ← memberKey d ctx
        require (isStatic || !key.isConstructor)
        if isWord l.token "get" then return .method key [] (← getterRest d ctx)
        else
          let (param, body) ← setterRest d ctx
          return .method key [param] body
      else fail

/-- One member of a class. -/
def classMember (d : Deeper) (ctx : Context) (derived : Bool) : Reader Member := do
  if ← accept .semicolon then return .empty
  else
    let l ← lexeme
    if ← acceptWord "static" then
      let key := Key.named "static".toList l.span
      if ← sees .parenOpen then memberMethod d ctx key false false
      else if ← accept .braceOpen then
        let inner := { ctx with inStaticBlock := true, inClassField := true, superProperty := true }
        return .staticBlock (← manyUntil .braceClose (d.statement inner true) d.budget)
      else if ← seesFieldEnd false then fieldRest d ctx key
      else memberRest d ctx derived true
    else memberRest d ctx derived false

/-- Whether a member is the constructor. -/
def Member.isConstructor : Member → Bool
  | .constructor .. => true
  | _ => false

/-- What a class extends, and its members. A class is strict, and has one constructor at most. -/
def classRest (d : Deeper) (ctx : Context) : Reader (Option Expr × List Member) := do
  let ctx := { ctx with strict := true }
  let heritage ←
    if ← acceptWord "extends" then some <$> d.leftHandSide ctx else pure none
  expect .braceOpen
  let members ← manyUntil .braceClose (classMember d ctx heritage.isSome) d.budget
  require ((members.filter Member.isConstructor).length ≤ 1)
  return (heritage, members)

/-- The name of a class, which is strict code already. -/
def className (ctx : Context) : Reader Ident :=
  bindingIdentifier { ctx with strict := true }

/-- A class expression whose word `class` is the current token. -/
def classExpression (d : Deeper) (ctx : Context) : Reader Expr := do
  let start ← offset
  expectWord "class"
  let unnamed := (← sees .braceOpen) || (← seesWord "extends")
  let name ← if unnamed then pure none else some <$> className ctx
  let (heritage, members) ← classRest d ctx
  return .classExpr (← spanFrom start) name heritage members

/-- A class declaration whose word `class` is the current token. -/
def classDeclaration (d : Deeper) (ctx : Context) : Reader Stmt := do
  expectWord "class"
  let name ← className ctx
  let (heritage, members) ← classRest d ctx
  return .classDecl name heritage members

end TemplateCompiler.Script
