import TemplateCompiler.Span
import TemplateCompiler.Text.Basic

/-!
# Script trees

The trees of expressions, patterns, statements and modules of the script language. They keep what
scope analysis and module linking look at: names, binding structure, and the spans of expressions,
names and keys. Statements carry no spans of their own; the items of a module do.

Assignment targets and parameters are patterns. A name that a pattern binds is `Pat.ident`; a target
that is an ordinary expression is `Pat.expr`.

## What this module delivers

* `Expr`, `Key`, `Property`, `Pat`, `Stmt`, `Member` and their parts: the mutually inductive trees.
* `Module`, `ModuleItem`: the items of a module with their imports and exports.
* `Expr.span`, `Key.span`, `Property.span`: the spans of the parts.
-/

set_option autoImplicit false

namespace TemplateCompiler.Script

/-- A name where it stands in the source. -/
structure Ident where
  name : Text
  span : Span
deriving DecidableEq, Repr

/-- Operators between two operands. -/
inductive BinaryOp where
  | coalesce | or | and | bitOr | bitXor | bitAnd
  | equal | notEqual | identical | notIdentical
  | less | greater | lessEqual | greaterEqual | instanceOf | isIn
  | shiftLeft | shiftRight | shiftRightZero
  | add | sub | mul | div | rem | power
deriving DecidableEq, Repr

/-- Operators before one operand. -/
inductive UnaryOp where
  | delete | void | typeOf | plus | minus | bitNot | not
deriving DecidableEq, Repr

/-- The keywords of a variable declaration. -/
inductive DeclKind where
  | var | letKind | const
deriving DecidableEq, Repr

mutual

/-- Expressions. -/
inductive Expr where
  | ident (id : Ident)
  | this (span : Span)
  /-- A null, boolean, number, string or regular expression. -/
  | literal (span : Span)
  | privateName (span : Span)
  /-- The target of a construction, or the metadata of a module. -/
  | metaProperty (span : Span)
  /-- A hole of an array. -/
  | omitted (span : Span)
  /-- An argument or array item that is spread. -/
  | spread (span : Span) (arg : Expr)
  /-- An array, and whether a comma follows its last item. -/
  | array (span : Span) (items : List Expr) (trailingComma : Bool)
  /-- An object, and whether a comma follows its last property. -/
  | object (span : Span) (props : List Property) (trailingComma : Bool)
  | function (span : Span) (name : Option Ident) (params : List Pat) (body : List Stmt)
  /-- An arrow function with a block. -/
  | arrow (span : Span) (params : List Pat) (body : List Stmt)
  /-- An arrow function whose body is an expression. -/
  | arrowExpr (span : Span) (params : List Pat) (body : Expr)
  | classExpr (span : Span) (name : Option Ident) (heritage : Option Expr) (members : List Member)
  | template (span : Span) (holes : List Expr)
  | tagged (span : Span) (tag : Expr) (holes : List Expr)
  | unary (span : Span) (op : UnaryOp) (arg : Expr)
  | update (span : Span) (arg : Expr)
  | binary (span : Span) (op : BinaryOp) (left right : Expr)
  | conditional (span : Span) (test yes no : Expr)
  | assign (span : Span) (target : Pat) (value : Expr)
  /-- An assignment by an operator that also uses the old value. -/
  | assignUpdate (span : Span) (target : Expr) (value : Expr)
  | sequence (span : Span) (items : List Expr)
  | paren (span : Span) (inner : Expr)
  | member (span : Span) (object : Expr) (key : Key)
  | superMember (span : Span) (key : Key)
  | call (span : Span) (callee : Expr) (args : List Expr)
  | superCall (span : Span) (args : List Expr)
  | importCall (span : Span) (args : List Expr)
  /-- A member access that is a link of an optional chain. -/
  | chainMember (span : Span) (object : Expr) (key : Key)
  /-- A call that is a link of an optional chain. -/
  | chainCall (span : Span) (callee : Expr) (args : List Expr)
  | construct (span : Span) (callee : Expr) (args : List Expr)
  | yield (span : Span) (arg : Option Expr)
  | await (span : Span) (arg : Expr)

/-- Keys of properties, class members and member accesses. -/
inductive Key where
  /-- An identifier, a string or a number, by the name it stands for. -/
  | named (name : Text) (span : Span)
  | privateName (name : Text) (span : Span)
  | computed (span : Span) (expr : Expr)

/-- Properties of an object literal. The span of a function covers the whole property. -/
inductive Property where
  | shorthand (id : Ident)
  /-- A shorthand with a default, which only a destructuring target may hold. -/
  | shorthandDefault (id : Ident) (value : Expr)
  | keyValue (key : Key) (value : Expr)
  | method (key : Key) (span : Span) (params : List Pat) (body : List Stmt)
  | getter (key : Key) (span : Span) (body : List Stmt)
  | setter (key : Key) (span : Span) (param : Pat) (body : List Stmt)
  | spread (span : Span) (arg : Expr)

/-- Patterns: parameters, declared names and destructuring targets. -/
inductive Pat where
  | ident (id : Ident)
  /-- A hole of an array pattern. -/
  | omitted
  | array (items : List Pat)
  | object (props : List Pat)
  /-- A property of an object pattern. -/
  | property (key : Key) (target : Pat)
  | withDefault (target : Pat) (value : Expr)
  | rest (target : Pat)
  /-- A target that is an ordinary expression. -/
  | expr (e : Expr)

/-- Statements. -/
inductive Stmt where
  | empty
  | debugger
  | expr (e : Expr)
  | declare (kind : DeclKind) (decls : List Declarator)
  | function (id : Ident) (params : List Pat) (body : List Stmt)
  | classDecl (id : Ident) (heritage : Option Expr) (members : List Member)
  | block (body : List Stmt)
  | branch (test : Expr) (yes : Stmt) (no : Option Stmt)
  | loop (head : Option Stmt) (test step : Option Expr) (body : Stmt)
  | loopIn (head : LoopHead) (object : Expr) (body : Stmt)
  | loopOf (head : LoopHead) (iterable : Expr) (body : Stmt)
  | loopWhile (test : Expr) (body : Stmt)
  | loopUntil (body : Stmt) (test : Expr)
  | result (arg : Option Expr)
  | raise (arg : Expr)
  /-- A jump to the end or to the next round of a statement. -/
  | jump (label : Option Ident)
  | labeled (label : Ident) (body : Stmt)
  | switch (subject : Expr) (cases : List Case)
  | guarded (body : List Stmt) (handler : Handler) (finalizer : Option Stmt)
  | within (object : Expr) (body : Stmt)

/-- What an `in` or `of` loop assigns to. -/
inductive LoopHead where
  | declared (kind : DeclKind) (decls : List Declarator)
  | target (pat : Pat)

/-- The handler of a guarded block. -/
inductive Handler where
  | absent
  | plain (body : List Stmt)
  | binding (param : Pat) (body : List Stmt)

/-- One case of a switch; without a test it is the default. -/
inductive Case where
  | mk (test : Option Expr) (body : List Stmt)

/-- One declared pattern with its initial value. -/
inductive Declarator where
  | mk (target : Pat) (init : Option Expr)

/-- Members of a class. -/
inductive Member where
  | empty
  /-- A method, a getter or a setter. -/
  | method (key : Key) (params : List Pat) (body : List Stmt)
  | constructor (params : List Pat) (body : List Stmt)
  | field (key : Key) (value : Option Expr)
  | staticBlock (body : List Stmt)

end

/-! ## Spans -/

/-- The span of an expression. -/
def Expr.span : Expr → Span
  | .ident id => id.span
  | .this s | .literal s | .privateName s | .metaProperty s | .omitted s => s
  | .spread s _ | .array s _ _ | .object s _ _ | .function s _ _ _ | .arrow s _ _ => s
  | .arrowExpr s _ _ | .classExpr s _ _ _ | .template s _ | .tagged s _ _ | .unary s _ _ => s
  | .update s _ | .binary s _ _ _ | .conditional s _ _ _ | .assign s _ _ | .assignUpdate s _ _ => s
  | .sequence s _ => s
  | .paren s _ | .member s _ _ | .superMember s _ | .call s _ _ | .superCall s _ => s
  | .importCall s _ | .chainMember s _ _ | .chainCall s _ _ | .construct s _ _ | .yield s _ => s
  | .await s _ => s

/-- The span of a key. -/
def Key.span : Key → Span
  | .named _ s | .privateName _ s | .computed s _ => s

/-- The span of a property, from its key to its end. -/
def Property.span : Property → Span
  | .shorthand id => id.span
  | .shorthandDefault id value => ⟨id.span.start, value.span.stop⟩
  | .keyValue key value => ⟨key.span.start, value.span.stop⟩
  | .method key s _ _ | .getter key s _ | .setter key s _ _ => ⟨key.span.start, s.stop⟩
  | .spread s _ => s

/-! ## Modules -/

/-- What one name of an import declaration stands for. -/
inductive ImportSpecifier where
  | default (id : Ident)
  | namespaced (id : Ident)
  | named (id : Ident) (imported : Text)
deriving DecidableEq, Repr

/-- One name of an export list. -/
inductive ExportSpecifier where
  | named (id : Ident) (exported : Text)
  | namespaced (exported : Text)
deriving DecidableEq, Repr

/-- An item of a module with its span. -/
inductive ModuleItem where
  | imports (span : Span) (specifiers : List ImportSpecifier) (source : Text)
  | exportDefault (span : Span) (value : Expr)
  /-- A default export that is a function or class declaration. -/
  | exportDefaultDecl (span : Span)
  /-- An exported declaration, and the offset where the declaration itself starts. -/
  | exportDecl (span : Span) (declStart : Nat) (decl : Stmt)
  | exportNames (span : Span) (specifiers : List ExportSpecifier) (source : Option Text)
  | exportAll (span : Span)
  | statement (span : Span) (stmt : Stmt)

/-- A module: its items in order. -/
structure Module where
  items : List ModuleItem

end TemplateCompiler.Script
