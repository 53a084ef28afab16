import TemplateCompiler.Script.Binding

/-!
# Outlines

What name resolution sees of an expression: references, calls, and the scopes they stand in. The
outline of an expression lists them in the order of the source, and forgets everything else.

Keys, labels, member names and the names in patterns are no references; the defaults, computed keys
and ordinary expressions inside a pattern are looked into. An ordinary function, an arrow function and
a method bind their parameters and the `var`s of their body. The bodies of accessors of objects, of
constructors and of static blocks are plain blocks: only the declarations of the block bind a name
there.

## What this module delivers

* `Outline`: references, shorthands, calls and scopes.
* `Expr.outline`: the outline of an expression.
* `memberRoot?`: the name at the root of a chain of member accesses.
-/

set_option autoImplicit false

namespace TemplateCompiler.Resolve

open Script

/-- What name resolution sees of a piece of code. -/
inductive Outline where
  /-- A name that refers to a variable. -/
  | reference (id : Ident)
  /-- A name that is both a key and a reference. -/
  | shorthand (id : Ident)
  /-- A call: the name at the root of the callee, if it has one, the callee and the arguments. -/
  | call (root : Option Ident) (callee args : List Outline)
  /-- Code for which some names are bound. -/
  | scope (names : List Text) (inner : List Outline)

/-- The name at the root of a chain of member accesses. -/
def memberRoot? : Expr → Option Ident
  | .ident id => some id
  | .member _ object _ => memberRoot? object
  | _ => none

/-- The scope of a block around its outline. -/
def blockScope (body : List Stmt) (inner : List Outline) : Outline :=
  .scope (lexicalNames body) inner

/-- The scope of a function: its parameters, the `var`s of its body, and its body as a block. -/
def functionScope (params : List Pat) (body : List Stmt) (paramOutline bodyOutline : List Outline) :
    Outline :=
  .scope (patsBoundNames params ++ hoistedNames body)
    (paramOutline ++ [blockScope body bodyOutline])

/-- The names that a function expression binds for itself. -/
def ownName : Option Ident → List Text
  | none => []
  | some id => [id.name]

mutual

/-- The outline of an expression. -/
def exprOutline : Expr → List Outline
  | .ident id => [.reference id]
  | .this _ | .literal _ | .privateName _ | .metaProperty _ | .omitted _ => []
  | .spread _ arg => exprOutline arg
  | .array _ items _ => exprsOutline items
  | .object _ props _ => propsOutline props
  | .function _ name params body =>
    [.scope (ownName name) [functionScope params body (patsOutline params) (stmtsOutline body)]]
  | .arrow _ params body => [functionScope params body (patsOutline params) (stmtsOutline body)]
  | .arrowExpr _ params body =>
    [.scope (patsBoundNames params) (patsOutline params ++ exprOutline body)]
  | .classExpr _ _ heritage members => optionExprOutline heritage ++ membersOutline members
  | .template _ holes => exprsOutline holes
  | .tagged _ tag holes => exprOutline tag ++ exprsOutline holes
  | .unary _ _ arg => exprOutline arg
  | .update _ arg => exprOutline arg
  | .binary _ _ left right => exprOutline left ++ exprOutline right
  | .conditional _ test yes no => exprOutline test ++ exprOutline yes ++ exprOutline no
  | .assign _ target value => patOutline target ++ exprOutline value
  | .assignUpdate _ target value => exprOutline target ++ exprOutline value
  | .sequence _ items => exprsOutline items
  | .paren _ inner => exprOutline inner
  | .member _ object key => exprOutline object ++ keyOutline key
  | .superMember _ key => keyOutline key
  | .call _ callee args => [.call (memberRoot? callee) (exprOutline callee) (exprsOutline args)]
  | .superCall _ args => exprsOutline args
  | .importCall _ args => exprsOutline args
  | .chainMember _ object key => exprOutline object ++ keyOutline key
  | .chainCall _ callee args =>
    [.call (memberRoot? callee) (exprOutline callee) (exprsOutline args)]
  | .construct _ callee args => exprOutline callee ++ exprsOutline args
  | .yield _ arg => optionExprOutline arg
  | .await _ arg => exprOutline arg

/-- The outline of some expressions. -/
def exprsOutline : List Expr → List Outline
  | [] => []
  | e :: es => exprOutline e ++ exprsOutline es

/-- The outline of an expression, if there is one. -/
def optionExprOutline : Option Expr → List Outline
  | none => []
  | some e => exprOutline e

/-- The outline of a key: a computed one is an expression. -/
def keyOutline : Key → List Outline
  | .named _ _ | .privateName _ _ => []
  | .computed _ e => exprOutline e

/-- The outline of a property. -/
def propOutline : Property → List Outline
  | .shorthand id => [.shorthand id]
  | .shorthandDefault _ value => exprOutline value
  | .keyValue key value => keyOutline key ++ exprOutline value
  | .method key _ params body =>
    keyOutline key ++ [functionScope params body (patsOutline params) (stmtsOutline body)]
  | .getter key _ body => keyOutline key ++ [blockScope body (stmtsOutline body)]
  | .setter key _ param body =>
    keyOutline key ++ patOutline param ++ [blockScope body (stmtsOutline body)]
  | .spread _ arg => exprOutline arg

/-- The outline of some properties. -/
def propsOutline : List Property → List Outline
  | [] => []
  | p :: ps => propOutline p ++ propsOutline ps

/-- The outline of a pattern: what it evaluates, and not the names in it. -/
def patOutline : Pat → List Outline
  | .ident _ | .omitted => []
  | .array items => patsOutline items
  | .object props => patsOutline props
  | .property key target => keyOutline key ++ patOutline target
  | .withDefault target value => patOutline target ++ exprOutline value
  | .rest target => patOutline target
  | .expr e => exprOutline e

/-- The outline of some patterns. -/
def patsOutline : List Pat → List Outline
  | [] => []
  | p :: ps => patOutline p ++ patsOutline ps

/-- The outline of a statement. -/
def stmtOutline : Stmt → List Outline
  | .empty | .debugger | .jump _ => []
  | .expr e => exprOutline e
  | .declare _ decls => declaratorsOutline decls
  | .function _ params body => [functionScope params body (patsOutline params) (stmtsOutline body)]
  | .classDecl _ heritage members => optionExprOutline heritage ++ membersOutline members
  | .block body => [blockScope body (stmtsOutline body)]
  | .branch test yes no => exprOutline test ++ stmtOutline yes ++ optionStmtOutline no
  | .loop head test step body =>
    [.scope (lexicalStart head) (optionStmtOutline head ++ optionExprOutline test
      ++ optionExprOutline step ++ stmtOutline body)]
  | .loopIn head object body =>
    [.scope (lexicalHead head) (headOutline head ++ exprOutline object ++ stmtOutline body)]
  | .loopOf head iterable body =>
    [.scope (lexicalHead head) (headOutline head ++ exprOutline iterable ++ stmtOutline body)]
  | .loopWhile test body => exprOutline test ++ stmtOutline body
  | .loopUntil body test => stmtOutline body ++ exprOutline test
  | .result arg => optionExprOutline arg
  | .raise arg => exprOutline arg
  | .labeled _ body => stmtOutline body
  | .switch subject cases =>
    exprOutline subject ++ [.scope (casesLexicalNames cases) (casesOutline cases)]
  | .guarded body handler finalizer =>
    blockScope body (stmtsOutline body) :: handlerOutline handler ++ optionStmtOutline finalizer
  | .within object body => exprOutline object ++ stmtOutline body

/-- The outline of some statements. -/
def stmtsOutline : List Stmt → List Outline
  | [] => []
  | s :: rest => stmtOutline s ++ stmtsOutline rest

/-- The outline of a statement, if there is one. -/
def optionStmtOutline : Option Stmt → List Outline
  | none => []
  | some s => stmtOutline s

/-- The outline of the head of a loop. -/
def headOutline : LoopHead → List Outline
  | .declared _ decls => declaratorsOutline decls
  | .target pat => patOutline pat

/-- The outline of a handler. Its parameter is bound in the handler. -/
def handlerOutline : Handler → List Outline
  | .absent => []
  | .plain body => [.scope [] [blockScope body (stmtsOutline body)]]
  | .binding param body =>
    [.scope param.boundNames (patOutline param ++ [blockScope body (stmtsOutline body)])]

/-- The outline of some cases. -/
def casesOutline : List Case → List Outline
  | [] => []
  | .mk test body :: cases => optionExprOutline test ++ stmtsOutline body ++ casesOutline cases

/-- The outline of some declared patterns. -/
def declaratorsOutline : List Declarator → List Outline
  | [] => []
  | .mk target init :: decls =>
    patOutline target ++ optionExprOutline init ++ declaratorsOutline decls

/-- The outline of a class member. -/
def memberOutline : Member → List Outline
  | .empty => []
  | .method key params body =>
    keyOutline key ++ [functionScope params body (patsOutline params) (stmtsOutline body)]
  | .constructor params body => patsOutline params ++ [blockScope body (stmtsOutline body)]
  | .field key value => keyOutline key ++ optionExprOutline value
  | .staticBlock body => [blockScope body (stmtsOutline body)]

/-- The outline of some class members. -/
def membersOutline : List Member → List Outline
  | [] => []
  | m :: ms => memberOutline m ++ membersOutline ms

end

end TemplateCompiler.Resolve
