import TemplateCompiler.Script.Grammar.Statement

/-!
# Modules

The imports and exports of a module, and the statements between them.

## What this module delivers

* `importDeclaration`, `exportDeclaration`: declarations that link a module with others.
* `moduleItems`: all the items of a module.
-/

set_option autoImplicit false

namespace TemplateCompiler.Script

open Reader

/-! ## Imports -/

/-- A string, by its value. -/
def stringLiteral : Reader Text := do
  match ← token with
  | .string value legacy =>
    require !legacy
    advance
    return value
  | _ => fail

/-- The module that a declaration links to, after the word `from`. -/
def fromClause : Reader Text := do
  expectWord "from"
  stringLiteral

/-- A name under which a module exports something: any word or string. -/
def exportName : Reader Text := do
  match ← token with
  | .string .. => stringLiteral
  | _ => return (← identifierName).name

/-- One name of a list of imports. Only a word that can be a variable needs no local name. -/
def importSpecifier (ctx : Context) : Reader ImportSpecifier := do
  let l ← lexeme
  let imported ← exportName
  if ← acceptWord "as" then return .named (← bindingIdentifier ctx) imported
  else
    match l.token with
    | .word name _ =>
      require (isReferenceIn ctx .module name && isAssignableName ctx name)
      return .named ⟨name, l.span⟩ imported
    | _ => fail

/-- A namespace or a list of names, from its first token on. -/
def importGroup (d : Deeper) (ctx : Context) : Reader (List ImportSpecifier) := do
  if ← accept (.operator .mul) then
    expectWord "as"
    return [.namespaced (← bindingIdentifier ctx)]
  else
    expect .braceOpen
    listUntil .braceClose (importSpecifier ctx) d.budget

/-- What an import declaration imports, up to the word `from`. -/
def importClause (d : Deeper) (ctx : Context) : Reader (List ImportSpecifier) := do
  match ← token with
  | .word .. =>
    let id ← bindingIdentifier ctx
    if ← accept .comma then return .default id :: (← importGroup d ctx)
    else return [.default id]
  | _ => importGroup d ctx

/-- An import declaration. -/
def importDeclaration (d : Deeper) (ctx : Context) (start : Nat) : Reader ModuleItem := do
  expectWord "import"
  let (specifiers, source) ← match ← token with
    | .string .. => do pure ([], ← stringLiteral)
    | _ => do
      let specifiers ← importClause d ctx
      pure (specifiers, ← fromClause)
  expectEnd
  return .imports (← spanFrom start) specifiers source

/-! ## Exports -/

/-- One name of a list of exports: the specifier, and whether its local name is a variable's. -/
def exportSpecifier (ctx : Context) : Reader (ExportSpecifier × Bool) := do
  let l ← lexeme
  let name ← exportName
  let exported ← if ← acceptWord "as" then exportName else pure name
  let isVariable := match l.token with
    | .word .. => isIdentifierIn ctx name
    | _ => false
  return (.named ⟨name, l.span⟩ exported, isVariable)

/-- A list of exports, from its opening brace on. Without a module to take them from, the names are
those of variables. -/
def exportNames (d : Deeper) (ctx : Context) (start : Nat) : Reader ModuleItem := do
  expect .braceOpen
  let specifiers ← listUntil .braceClose (exportSpecifier ctx) d.budget
  if ← seesWord "from" then
    let source ← fromClause
    expectEnd
    return .exportNames (← spanFrom start) (specifiers.map Prod.fst) (some source)
  else
    require (specifiers.all Prod.snd)
    let _ ← acceptEnd
    return .exportNames (← spanFrom start) (specifiers.map Prod.fst) none

/-- An export of everything in a module, after its star. -/
def exportStar (start : Nat) : Reader ModuleItem := do
  if ← acceptWord "as" then
    let name ← exportName
    let source ← fromClause
    expectEnd
    return .exportNames (← spanFrom start) [.namespaced name] (some source)
  else
    let _ ← fromClause
    expectEnd
    return .exportAll (← spanFrom start)

/-- A default export, after the word `default`. -/
def exportDefault (d : Deeper) (ctx : Context) (start : Nat) : Reader ModuleItem := do
  let l ← lexeme
  if isWord l.token "class" then
    let _ ← classExpression d ctx
    return .exportDefaultDecl (← spanFrom start)
  else if isWord l.token "function" then
    let _ ← functionExpression d ctx l.start false
    return .exportDefaultDecl (← spanFrom start)
  else
    let next ← peek
    if isWord l.token "async" && isWord next.token "function" && !next.newlineBefore then
      advance
      let _ ← functionExpression d ctx l.start true
      return .exportDefaultDecl (← spanFrom start)
    else
      let value ← d.assignment ctx.withIn
      expectEnd
      return .exportDefault (← spanFrom start) value

/-- A declaration that is exported as it is made. -/
def exportedDeclaration (d : Deeper) (ctx : Context) (start : Nat) : Reader ModuleItem := do
  let l ← lexeme
  let isDeclaration := ["class", "function", "var", "let", "const", "async"].any (isWord l.token)
  require isDeclaration
  match ← d.statement ctx true with
  | .expr _ => fail
  | .labeled .. => fail
  | decl => return .exportDecl (← spanFrom start) l.start decl

/-- An export declaration. -/
def exportDeclaration (d : Deeper) (ctx : Context) (start : Nat) : Reader ModuleItem := do
  expectWord "export"
  if ← accept (.operator .mul) then exportStar start
  else if ← acceptWord "default" then exportDefault d ctx start
  else if ← sees .braceOpen then exportNames d ctx start
  else exportedDeclaration d ctx start

/-! ## Items -/

/-- A statement that waits for a value at the top of a module. Its end may be missing. -/
def awaitStatement (d : Deeper) (ctx : Context) : Reader Stmt := do
  let e ← awaitExpression d ctx.withIn
  let e ← binaryTail d ctx.withIn d.budget 0 e
  let _ ← acceptEnd
  return .expr e

/-- An item of a module. -/
def moduleItem (d : Deeper) (ctx : Context) : Reader ModuleItem := do
  let l ← lexeme
  if isWord l.token "import" then
    let next ← peek
    if next.token == .parenOpen || next.token == .dot then
      let s ← d.statement ctx true
      return .statement (← spanFrom l.start) s
    else importDeclaration d ctx l.start
  else if isWord l.token "export" then exportDeclaration d ctx l.start
  else if isWord l.token "await" then
    let s ← awaitStatement d ctx
    return .statement (← spanFrom l.start) s
  else
    let s ← d.statement ctx true
    return .statement (← spanFrom l.start) s

/-- All the items of a module. -/
def moduleItems (d : Deeper) (ctx : Context) : Reader (List ModuleItem) :=
  manyUntil .eof (moduleItem d ctx) d.budget

end TemplateCompiler.Script
