import TemplateCompiler.Script.Grammar.Expression

/-!
# Statements

## What this module delivers

* `variableDeclaration`, `loopStatement`, `switchStatement`, `guardedStatement`: the statements with
  parts of their own.
* `statement`: every statement that can stand inside a block.
-/

set_option autoImplicit false

namespace TemplateCompiler.Script

open Reader

/-- The surroundings of an expression that starts a statement or stands between parentheses. -/
def Context.withIn (ctx : Context) : Context := { ctx with allowIn := true }

/-- The surroundings of the body of a loop. -/
def Context.inLoop (ctx : Context) : Context :=
  { ctx with allowBreak := true, allowContinue := true }

/-- An expression between parentheses that belong to a statement. -/
def parenthesizedHead (d : Deeper) (ctx : Context) : Reader Expr := do
  expect .parenOpen
  let e ← expression d ctx.withIn
  expect .parenClose
  return e

/-- Statements between braces. -/
def block (d : Deeper) (ctx : Context) : Reader (List Stmt) := do
  expect .braceOpen
  manyUntil .braceClose (d.statement ctx true) d.budget

/-! ## Declarations of variables -/

/-- Whether a token after the word `let` makes it the start of a declaration. -/
def followsLet : Token → Bool
  | .braceOpen | .bracketOpen => true
  | .word name _ => !isReservedWord name
  | _ => false

/-- The kind of declaration that starts at the current token. -/
def declarationKind? : Reader (Option DeclKind) := do
  let t ← token
  if isWord t "var" then return some .var
  else if isWord t "const" then return some .const
  else if isWord t "let" then
    return if followsLet (← peek).token then some .letKind else none
  else return none

/-- A declared pattern with its value. A constant and a pattern need a value, except in the head of a
loop that assigns to them. -/
def declarator (d : Deeper) (ctx : Context) (kind : DeclKind) (inHead : Bool) :
    Reader Declarator := do
  let target ← d.binding ctx
  require !(kind != .var && match target with
    | .ident id => id.name == "let".toList
    | _ => false)
  let assigned := inHead && ((← seesWord "in") || (← seesWord "of"))
  if assigned then return .mk target none
  else if ← accept .equals then return .mk target (some (← d.assignment ctx))
  else
    require (target.isName && (kind != .const || inHead))
    return .mk target none

/-- A declaration of variables, without its end. -/
def variableDeclaration (d : Deeper) (ctx : Context) (kind : DeclKind) (inHead : Bool) :
    Reader (List Declarator) := do
  advance
  let inner := { ctx with allowIn := kind != .var || !inHead }
  listOf (declarator d inner kind inHead) d.budget

/-! ## Loops -/

/-- Whether a declaration has an initial value. -/
def Declarator.hasInit : Declarator → Bool
  | .mk _ init => init.isSome

/-- The parts of a loop after its first semicolon, up to its body. -/
def loopRest (d : Deeper) (ctx : Context) (head : Option Stmt) : Reader Stmt := do
  let test ←
    if ← sees .semicolon then pure none else some <$> expression d ctx.withIn
  expect .semicolon
  let step ←
    if ← sees .parenClose then pure none else some <$> expression d ctx.withIn
  expect .parenClose
  let body ← d.statement ctx.inLoop false
  return .loop head test step body

/-- A loop over a collection, from the word between its head and the collection on. -/
def loopOver (d : Deeper) (ctx : Context) (head : LoopHead) : Reader Stmt := do
  if ← acceptWord "of" then
    let iterable ← d.assignment ctx.withIn
    expect .parenClose
    return .loopOf head iterable (← d.statement ctx.inLoop false)
  else
    expectWord "in"
    let object ← expression d ctx.withIn
    expect .parenClose
    return .loopIn head object (← d.statement ctx.inLoop false)

/-- Whether a loop over a collection starts at the current token. -/
def seesLoopOver : Reader Bool := do return (← seesWord "of") || (← seesWord "in")

/-- A loop whose head starts at the current token. -/
def loopHead (d : Deeper) (ctx : Context) : Reader Stmt := do
  match ← declarationKind? with
  | some kind =>
    let decls ← variableDeclaration d ctx kind true
    if ← seesLoopOver then
      require (decls.length == 1)
      require !((ctx.strict || (← seesWord "of")) && decls.any Declarator.hasInit)
      loopOver d ctx (.declared kind decls)
    else
      expect .semicolon
      loopRest d ctx (some (.declare kind decls))
  | none =>
    if ← accept .semicolon then loopRest d ctx none
    else
      let e ← expression d { ctx with allowIn := false }
      if ← seesLoopOver then
        match assignmentTarget? ctx e with
        | none => fail
        | some (.expr (.ident id)) => loopOver d ctx (.target (.ident id))
        | some target => loopOver d ctx (.target target)
      else
        expect .semicolon
        loopRest d ctx (some (.expr e))

/-- Whether a statement is a loop over the items of a collection. -/
def Stmt.isLoopOf : Stmt → Bool
  | .loopOf .. => true
  | _ => false

/-- A loop, from the word `for` on. -/
def loopStatement (d : Deeper) (ctx : Context) : Reader Stmt := do
  expectWord "for"
  let waits ← acceptWord "await"
  expect .parenOpen
  let loop ← loopHead d ctx
  require (!waits || loop.isLoopOf)
  return loop

/-! ## Other statements -/

/-- The statements of one case of a switch. -/
def caseBody (d : Deeper) (ctx : Context) : Nat → Reader (List Stmt)
  | 0 => fail
  | n + 1 => do
    if (← seesWord "case") || (← seesWord "default") || (← sees .braceClose) then return []
    else
      let s ← d.statement ctx true
      return s :: (← caseBody d ctx n)

/-- One case of a switch. -/
def switchCase (d : Deeper) (ctx : Context) : Reader Case := do
  let test ←
    if ← acceptWord "default" then pure none
    else
      expectWord "case"
      some <$> expression d ctx.withIn
  expect .colon
  return .mk test (← caseBody d ctx d.budget)

/-- Whether a case is the default. -/
def Case.isDefault : Case → Bool
  | .mk test _ => test.isNone

/-- A switch, from its first word on. It has one default at most. -/
def switchStatement (d : Deeper) (ctx : Context) : Reader Stmt := do
  expectWord "switch"
  let subject ← parenthesizedHead d ctx
  expect .braceOpen
  let cases ← manyUntil .braceClose (switchCase d { ctx with allowBreak := true }) d.budget
  require ((cases.filter Case.isDefault).length ≤ 1)
  return .switch subject cases

/-- A guarded block, from its first word on. -/
def guardedStatement (d : Deeper) (ctx : Context) : Reader Stmt := do
  expectWord "try"
  let body ← block d ctx
  let handler ←
    if ← acceptWord "catch" then
      if ← accept .parenOpen then
        let param ← d.binding ctx
        expect .parenClose
        Handler.binding param <$> block d ctx
      else Handler.plain <$> block d ctx
    else pure .absent
  let finalizer ←
    if ← acceptWord "finally" then (fun b => some (.block b)) <$> block d ctx else pure none
  match handler, finalizer with
  | .absent, none => fail
  | handler, finalizer => return .guarded body handler finalizer

/-- A jump, from its first word on. -/
def jumpStatement (ctx : Context) : Reader Stmt := do
  let leaves ← seesWord "break"
  advance
  require (if leaves then ctx.allowBreak else ctx.allowContinue)
  if ← acceptEnd then return .jump none
  else
    let label ← identifierReference ctx
    require (ctx.labels.contains label.name)
    expectEnd
    return .jump (some label)

/-- What follows a label. A label is different from the labels around it. -/
def labeledStatement (d : Deeper) (ctx : Context) (label : Ident) : Reader Stmt := do
  require !(ctx.labels.contains label.name)
  let inner := { ctx with allowBreak := true, labels := label.name :: ctx.labels }
  if ← seesWord "function" then
    require !ctx.strict
    require ((← peek).token != .operator .mul)
    return .labeled label (← functionDeclaration d inner false)
  else return .labeled label (← d.statement inner false)

/-- A statement that starts with an expression. -/
def expressionStatement (d : Deeper) (ctx : Context) : Reader Stmt := do
  let e ← expression d ctx.withIn
  match e, ← token with
  | .ident id, .colon =>
    advance
    labeledStatement d ctx id
  | e, _ =>
    expectEnd
    return .expr e

/-- A branch, from its first word on. -/
def branchStatement (d : Deeper) (ctx : Context) : Reader Stmt := do
  expectWord "if"
  let test ← parenthesizedHead d ctx
  let yes ← d.statement ctx false
  let no ← if ← acceptWord "else" then some <$> d.statement ctx false else pure none
  return .branch test yes no

/-- A loop that tests after its body, from its first word on. -/
def untilStatement (d : Deeper) (ctx : Context) : Reader Stmt := do
  expectWord "do"
  let body ← d.statement ctx.inLoop false
  expectWord "while"
  let test ← parenthesizedHead d ctx
  let _ ← acceptEnd
  return .loopUntil body test

/-- The result of a function, from its first word on. -/
def resultStatement (d : Deeper) (ctx : Context) : Reader Stmt := do
  require ctx.inFunction
  expectWord "return"
  if ← acceptEnd then return .result none
  else
    let e ← expression d ctx.withIn
    expectEnd
    return .result (some e)

/-- A raised error, from its first word on. -/
def raiseStatement (d : Deeper) (ctx : Context) : Reader Stmt := do
  expectWord "throw"
  require !(← newlineBefore)
  let e ← expression d ctx.withIn
  expectEnd
  return .raise e

/-- A statement that starts with a word. -/
def wordStatement (d : Deeper) (ctx : Context) (declarations : Bool) (t : Token) :
    Reader Stmt := do
  if isWord t "break" || isWord t "continue" then jumpStatement ctx
  else if isWord t "debugger" then
    advance
    expectEnd
    return .debugger
  else if isWord t "do" then untilStatement d ctx
  else if isWord t "for" then loopStatement d ctx
  else if isWord t "if" then branchStatement d ctx
  else if isWord t "return" then resultStatement d ctx
  else if isWord t "switch" then switchStatement d ctx
  else if isWord t "throw" then raiseStatement d ctx
  else if isWord t "try" then guardedStatement d ctx
  else if isWord t "while" then
    advance
    let test ← parenthesizedHead d ctx
    return .loopWhile test (← d.statement ctx.inLoop false)
  else if isWord t "with" then
    require !ctx.strict
    advance
    let object ← parenthesizedHead d ctx
    return .within object (← d.statement ctx false)
  else if isWord t "function" then
    require declarations
    functionDeclaration d ctx false
  else if isWord t "class" then
    require declarations
    classDeclaration d ctx
  else if isWord t "export" then fail
  else if isWord t "import" then
    let e ← expression d ctx.withIn
    let _ ← acceptEnd
    return .expr e
  else if isWord t "async" then
    let next ← peek
    if isWord next.token "function" && !next.newlineBefore then
      advance
      functionDeclaration d ctx true
    else expressionStatement d ctx
  else expressionStatement d ctx

/-- A statement, or also a declaration. -/
def statement (d : Deeper) (ctx : Context) (declarations : Bool) : Reader Stmt := do
  match ← token with
  | .semicolon =>
    advance
    return .empty
  | .braceOpen => return .block (← block d ctx)
  | t@(.word ..) =>
    let kind ← declarationKind?
    match kind, declarations || !isWord t "let" with
    | some kind, true =>
      let decls ← variableDeclaration d ctx kind false
      expectEnd
      return .declare kind decls
    | _, _ => wordStatement d ctx declarations t
  | _ => expressionStatement d ctx

end TemplateCompiler.Script
