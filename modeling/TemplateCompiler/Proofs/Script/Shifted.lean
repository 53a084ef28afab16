import TemplateCompiler.Proofs.Edit.Embedded
import TemplateCompiler.Resolve.Reference
import TemplateCompiler.Script.Grammar

/-!
# Trees that are read further on

A grammar reads the same tree wherever its text starts, up to the offsets in it. Here is what moving
a tree by a number of bytes is, and that scope analysis does not notice it: the same names are
bound, and what is inserted moves with the tree.

## What this module delivers

* `Span.shift`, `Expr.shift`: spans and trees moved by some bytes.
* `Grammar.Shifts`: a grammar that reads the same trees at any offset.
* `exprOutline_shift`, `insertionsOfAll_shift`: resolution of a moved tree.
-/

set_option autoImplicit false

namespace TemplateCompiler

/-- A span moved by some bytes. -/
def Span.shift (k : Nat) (s : Span) : Span := ⟨s.start + k, s.stop + k⟩

namespace Script

/-! ## Moving trees -/

/-- A name moved by some bytes. -/
def Ident.shift (k : Nat) (id : Ident) : Ident := ⟨id.name, id.span.shift k⟩

mutual

/-- An expression moved by some bytes. -/
def Expr.shift (k : Nat) : Expr → Expr
  | .ident id => .ident (id.shift k)
  | .this s => .this (s.shift k)
  | .literal s => .literal (s.shift k)
  | .privateName s => .privateName (s.shift k)
  | .metaProperty s => .metaProperty (s.shift k)
  | .omitted s => .omitted (s.shift k)
  | .spread s arg => .spread (s.shift k) (arg.shift k)
  | .array s items comma => .array (s.shift k) (exprsShift k items) comma
  | .object s props comma => .object (s.shift k) (propsShift k props) comma
  | .function s name params body =>
    .function (s.shift k) (name.map (Ident.shift k)) (patsShift k params) (stmtsShift k body)
  | .arrow s params body => .arrow (s.shift k) (patsShift k params) (stmtsShift k body)
  | .arrowExpr s params body => .arrowExpr (s.shift k) (patsShift k params) (body.shift k)
  | .classExpr s name heritage members =>
    .classExpr (s.shift k) (name.map (Ident.shift k)) (optionExprShift k heritage)
      (membersShift k members)
  | .template s holes => .template (s.shift k) (exprsShift k holes)
  | .tagged s tag holes => .tagged (s.shift k) (tag.shift k) (exprsShift k holes)
  | .unary s op arg => .unary (s.shift k) op (arg.shift k)
  | .update s arg => .update (s.shift k) (arg.shift k)
  | .binary s op left right => .binary (s.shift k) op (left.shift k) (right.shift k)
  | .conditional s test yes no => .conditional (s.shift k) (test.shift k) (yes.shift k) (no.shift k)
  | .assign s target value => .assign (s.shift k) (target.shift k) (value.shift k)
  | .assignUpdate s target value => .assignUpdate (s.shift k) (target.shift k) (value.shift k)
  | .sequence s items => .sequence (s.shift k) (exprsShift k items)
  | .paren s inner => .paren (s.shift k) (inner.shift k)
  | .member s object key => .member (s.shift k) (object.shift k) (key.shift k)
  | .superMember s key => .superMember (s.shift k) (key.shift k)
  | .call s callee args => .call (s.shift k) (callee.shift k) (exprsShift k args)
  | .superCall s args => .superCall (s.shift k) (exprsShift k args)
  | .importCall s args => .importCall (s.shift k) (exprsShift k args)
  | .chainMember s object key => .chainMember (s.shift k) (object.shift k) (key.shift k)
  | .chainCall s callee args => .chainCall (s.shift k) (callee.shift k) (exprsShift k args)
  | .construct s callee args => .construct (s.shift k) (callee.shift k) (exprsShift k args)
  | .yield s arg => .yield (s.shift k) (optionExprShift k arg)
  | .await s arg => .await (s.shift k) (arg.shift k)

/-- Expressions moved by some bytes. -/
def exprsShift (k : Nat) : List Expr → List Expr
  | [] => []
  | e :: es => e.shift k :: exprsShift k es

/-- An expression moved by some bytes, if there is one. -/
def optionExprShift (k : Nat) : Option Expr → Option Expr
  | none => none
  | some e => some (e.shift k)

/-- A key moved by some bytes. -/
def Key.shift (k : Nat) : Key → Key
  | .named name s => .named name (s.shift k)
  | .privateName name s => .privateName name (s.shift k)
  | .computed s e => .computed (s.shift k) (e.shift k)

/-- A property moved by some bytes. -/
def Property.shift (k : Nat) : Property → Property
  | .shorthand id => .shorthand (id.shift k)
  | .shorthandDefault id value => .shorthandDefault (id.shift k) (value.shift k)
  | .keyValue key value => .keyValue (key.shift k) (value.shift k)
  | .method key s params body =>
    .method (key.shift k) (s.shift k) (patsShift k params) (stmtsShift k body)
  | .getter key s body => .getter (key.shift k) (s.shift k) (stmtsShift k body)
  | .setter key s param body =>
    .setter (key.shift k) (s.shift k) (param.shift k) (stmtsShift k body)
  | .spread s arg => .spread (s.shift k) (arg.shift k)

/-- Properties moved by some bytes. -/
def propsShift (k : Nat) : List Property → List Property
  | [] => []
  | p :: ps => p.shift k :: propsShift k ps

/-- A pattern moved by some bytes. -/
def Pat.shift (k : Nat) : Pat → Pat
  | .ident id => .ident (id.shift k)
  | .omitted => .omitted
  | .array items => .array (patsShift k items)
  | .object props => .object (patsShift k props)
  | .property key target => .property (key.shift k) (target.shift k)
  | .withDefault target value => .withDefault (target.shift k) (value.shift k)
  | .rest target => .rest (target.shift k)
  | .expr e => .expr (e.shift k)

/-- Patterns moved by some bytes. -/
def patsShift (k : Nat) : List Pat → List Pat
  | [] => []
  | p :: ps => p.shift k :: patsShift k ps

/-- A statement moved by some bytes. -/
def Stmt.shift (k : Nat) : Stmt → Stmt
  | .empty => .empty
  | .debugger => .debugger
  | .expr e => .expr (e.shift k)
  | .declare kind decls => .declare kind (declaratorsShift k decls)
  | .function id params body => .function (id.shift k) (patsShift k params) (stmtsShift k body)
  | .classDecl id heritage members =>
    .classDecl (id.shift k) (optionExprShift k heritage) (membersShift k members)
  | .block body => .block (stmtsShift k body)
  | .branch test yes no => .branch (test.shift k) (yes.shift k) (optionStmtShift k no)
  | .loop head test step body =>
    .loop (optionStmtShift k head) (optionExprShift k test) (optionExprShift k step) (body.shift k)
  | .loopIn head object body => .loopIn (head.shift k) (object.shift k) (body.shift k)
  | .loopOf head iterable body => .loopOf (head.shift k) (iterable.shift k) (body.shift k)
  | .loopWhile test body => .loopWhile (test.shift k) (body.shift k)
  | .loopUntil body test => .loopUntil (body.shift k) (test.shift k)
  | .result arg => .result (optionExprShift k arg)
  | .raise arg => .raise (arg.shift k)
  | .jump label => .jump (label.map (Ident.shift k))
  | .labeled label body => .labeled (label.shift k) (body.shift k)
  | .switch subject cases => .switch (subject.shift k) (casesShift k cases)
  | .guarded body handler finalizer =>
    .guarded (stmtsShift k body) (handler.shift k) (optionStmtShift k finalizer)
  | .within object body => .within (object.shift k) (body.shift k)

/-- Statements moved by some bytes. -/
def stmtsShift (k : Nat) : List Stmt → List Stmt
  | [] => []
  | s :: rest => s.shift k :: stmtsShift k rest

/-- A statement moved by some bytes, if there is one. -/
def optionStmtShift (k : Nat) : Option Stmt → Option Stmt
  | none => none
  | some s => some (s.shift k)

/-- The head of a loop moved by some bytes. -/
def LoopHead.shift (k : Nat) : LoopHead → LoopHead
  | .declared kind decls => .declared kind (declaratorsShift k decls)
  | .target pat => .target (pat.shift k)

/-- A handler moved by some bytes. -/
def Handler.shift (k : Nat) : Handler → Handler
  | .absent => .absent
  | .plain body => .plain (stmtsShift k body)
  | .binding param body => .binding (param.shift k) (stmtsShift k body)

/-- The cases of a switch moved by some bytes. -/
def casesShift (k : Nat) : List Case → List Case
  | [] => []
  | .mk test body :: cases => .mk (optionExprShift k test) (stmtsShift k body) :: casesShift k cases

/-- Declared patterns moved by some bytes. -/
def declaratorsShift (k : Nat) : List Declarator → List Declarator
  | [] => []
  | .mk target init :: decls =>
    .mk (target.shift k) (optionExprShift k init) :: declaratorsShift k decls

/-- A class member moved by some bytes. -/
def Member.shift (k : Nat) : Member → Member
  | .empty => .empty
  | .method key params body => .method (key.shift k) (patsShift k params) (stmtsShift k body)
  | .constructor params body => .constructor (patsShift k params) (stmtsShift k body)
  | .field key value => .field (key.shift k) (optionExprShift k value)
  | .staticBlock body => .staticBlock (stmtsShift k body)

/-- Class members moved by some bytes. -/
def membersShift (k : Nat) : List Member → List Member
  | [] => []
  | m :: ms => m.shift k :: membersShift k ms

end

theorem Expr.span_shift (k : Nat) (e : Expr) : (e.shift k).span = e.span.shift k := by
  cases e <;> rfl

/-- A grammar that reads the same expressions at any offset, moved to where their text starts. -/
def Grammar.Shifts (g : Grammar) : Prop :=
  ∀ text pos k, g.expression text (pos + k) = (g.expression text pos).map (Expr.shift k)

/-! ## Bound names -/

section Names

variable (k : Nat)

mutual

theorem Pat.boundNames_shift : (p : Pat) → (p.shift k).boundNames = p.boundNames
  | .ident _ | .omitted | .expr _ => by simp only [Pat.shift, Pat.boundNames, Ident.shift]
  | .array items | .object items => by
    simp only [Pat.shift, Pat.boundNames, patsBoundNames_shift items]
  | .property _ target | .withDefault target _ | .rest target => by
    simp only [Pat.shift, Pat.boundNames, target.boundNames_shift]

theorem patsBoundNames_shift : (ps : List Pat) →
    patsBoundNames (patsShift k ps) = patsBoundNames ps
  | [] => by simp only [patsShift]
  | p :: ps => by
    simp only [patsShift, patsBoundNames, p.boundNames_shift, patsBoundNames_shift ps]

end

theorem declaratorNames_shift (decls : List Declarator) :
    declaratorNames (declaratorsShift k decls) = declaratorNames decls := by
  induction decls with
  | nil => rw [declaratorsShift]
  | cons d decls ih =>
    obtain ⟨target, init⟩ := d
    rw [declaratorsShift, declaratorNames, declaratorNames, ih, target.boundNames_shift]

theorem hoistedDeclaration_shift (kind : DeclKind) (decls : List Declarator) :
    hoistedDeclaration kind (declaratorsShift k decls) = hoistedDeclaration kind decls := by
  cases kind <;> simp only [hoistedDeclaration, declaratorNames_shift]

theorem lexicalDeclaration_shift (kind : DeclKind) (decls : List Declarator) :
    lexicalDeclaration kind (declaratorsShift k decls) = lexicalDeclaration kind decls := by
  cases kind <;> simp only [lexicalDeclaration, declaratorNames_shift]

theorem hoistedHead_shift (head : LoopHead) : hoistedHead (head.shift k) = hoistedHead head := by
  cases head <;> simp only [LoopHead.shift, hoistedHead, hoistedDeclaration_shift]

theorem lexicalHead_shift (head : LoopHead) : lexicalHead (head.shift k) = lexicalHead head := by
  cases head <;> simp only [LoopHead.shift, lexicalHead, lexicalDeclaration_shift]

theorem hoistedStart_shift (head : Option Stmt) :
    hoistedStart (optionStmtShift k head) = hoistedStart head := by
  cases head with
  | none => rw [optionStmtShift]
  | some s =>
    cases s <;> simp only [optionStmtShift, Stmt.shift, hoistedStart, hoistedDeclaration_shift]

theorem lexicalStart_shift (head : Option Stmt) :
    lexicalStart (optionStmtShift k head) = lexicalStart head := by
  cases head with
  | none => rw [optionStmtShift]
  | some s =>
    cases s <;> simp only [optionStmtShift, Stmt.shift, lexicalStart, lexicalDeclaration_shift]

mutual

theorem Stmt.hoistedNames_shift : (s : Stmt) → (s.shift k).hoistedNames = s.hoistedNames
  | .empty | .debugger | .jump _ | .expr _ | .function _ _ _ | .classDecl _ _ _ | .result _
  | .raise _ => by simp only [Stmt.shift, Stmt.hoistedNames]
  | .declare kind decls => by
    simp only [Stmt.shift, Stmt.hoistedNames, hoistedDeclaration_shift]
  | .block body => by simp only [Stmt.shift, Stmt.hoistedNames, hoistedNames_shift body]
  | .branch _ yes no => by
    simp only [Stmt.shift, Stmt.hoistedNames, yes.hoistedNames_shift, optionHoistedNames_shift no]
  | .loop head _ _ body => by
    simp only [Stmt.shift, Stmt.hoistedNames, hoistedStart_shift, body.hoistedNames_shift]
  | .loopIn head _ body | .loopOf head _ body => by
    simp only [Stmt.shift, Stmt.hoistedNames, hoistedHead_shift, body.hoistedNames_shift]
  | .loopWhile _ body | .loopUntil body _ | .labeled _ body | .within _ body => by
    simp only [Stmt.shift, Stmt.hoistedNames, body.hoistedNames_shift]
  | .switch _ cases => by
    simp only [Stmt.shift, Stmt.hoistedNames, casesHoistedNames_shift cases]
  | .guarded body handler finalizer => by
    simp only [Stmt.shift, Stmt.hoistedNames, hoistedNames_shift body, handler.hoistedNames_shift,
      optionHoistedNames_shift finalizer]

theorem hoistedNames_shift : (body : List Stmt) →
    hoistedNames (stmtsShift k body) = hoistedNames body
  | [] => by simp only [stmtsShift]
  | s :: rest => by
    simp only [stmtsShift, hoistedNames, s.hoistedNames_shift, hoistedNames_shift rest]

theorem optionHoistedNames_shift : (s : Option Stmt) →
    optionHoistedNames (optionStmtShift k s) = optionHoistedNames s
  | none => by simp only [optionStmtShift]
  | some s => by simp only [optionStmtShift, optionHoistedNames, s.hoistedNames_shift]

theorem Handler.hoistedNames_shift : (h : Handler) → (h.shift k).hoistedNames = h.hoistedNames
  | .absent => by simp only [Handler.shift]
  | .plain body | .binding _ body => by
    simp only [Handler.shift, Handler.hoistedNames, TemplateCompiler.Script.hoistedNames_shift body]

theorem casesHoistedNames_shift : (cases : List Case) →
    casesHoistedNames (casesShift k cases) = casesHoistedNames cases
  | [] => by simp only [casesShift]
  | .mk _ body :: cases => by
    simp only [casesShift, casesHoistedNames, hoistedNames_shift body,
      casesHoistedNames_shift cases]

end

theorem Stmt.lexicalNames_shift (s : Stmt) : (s.shift k).lexicalNames = s.lexicalNames := by
  cases s <;> simp only [Stmt.shift, Stmt.lexicalNames, lexicalDeclaration_shift, Ident.shift]

theorem lexicalNames_shift (body : List Stmt) :
    lexicalNames (stmtsShift k body) = lexicalNames body := by
  induction body with
  | nil => rw [stmtsShift]
  | cons s rest ih => rw [stmtsShift, lexicalNames, lexicalNames, s.lexicalNames_shift, ih]

theorem casesLexicalNames_shift (cases : List Case) :
    casesLexicalNames (casesShift k cases) = casesLexicalNames cases := by
  induction cases with
  | nil => rw [casesShift]
  | cons c cases ih =>
    obtain ⟨test, body⟩ := c
    rw [casesShift, casesLexicalNames, casesLexicalNames, lexicalNames_shift, ih]

end Names

end Script

namespace Resolve

open Script

/-! ## Outlines -/

mutual

/-- An outline moved by some bytes. -/
def Outline.shift (k : Nat) : Outline → Outline
  | .reference id => .reference (id.shift k)
  | .shorthand id => .shorthand (id.shift k)
  | .call root callee args =>
    .call (root.map (Ident.shift k)) (outlinesShift k callee) (outlinesShift k args)
  | .scope names inner => .scope names (outlinesShift k inner)

/-- Outlines moved by some bytes. -/
def outlinesShift (k : Nat) : List Outline → List Outline
  | [] => []
  | o :: os => o.shift k :: outlinesShift k os

end

section Outlines

variable (k : Nat)

@[simp] theorem outlinesShift_nil : outlinesShift k [] = [] := by
  rw [outlinesShift]

@[simp] theorem outlinesShift_cons (o : Outline) (os : List Outline) :
    outlinesShift k (o :: os) = o.shift k :: outlinesShift k os := by
  rw [outlinesShift]

@[simp] theorem outlinesShift_append (os os' : List Outline) :
    outlinesShift k (os ++ os') = outlinesShift k os ++ outlinesShift k os' := by
  induction os with
  | nil => simp
  | cons o os ih => simp [ih]

theorem memberRoot?_shift (e : Expr) :
    memberRoot? (e.shift k) = (memberRoot? e).map (Ident.shift k) := by
  cases e with
  | member span object key => exact memberRoot?_shift object
  | _ => rfl

@[simp] theorem blockScope_shift (body : List Stmt) (inner : List Outline) :
    (blockScope body inner).shift k = blockScope (stmtsShift k body) (outlinesShift k inner) := by
  simp only [blockScope, Outline.shift, lexicalNames_shift]

@[simp] theorem functionScope_shift (params : List Pat) (body : List Stmt)
    (paramOutline bodyOutline : List Outline) :
    (functionScope params body paramOutline bodyOutline).shift k =
      functionScope (patsShift k params) (stmtsShift k body) (outlinesShift k paramOutline)
        (outlinesShift k bodyOutline) := by
  simp [functionScope, Outline.shift, patsBoundNames_shift, hoistedNames_shift]

theorem ownName_shift (name : Option Ident) :
    ownName (name.map (Ident.shift k)) = ownName name := by
  cases name <;> rfl

-- Each case opens one level of the moved tree and one of the outlines.
attribute [local simp] Expr.shift exprsShift optionExprShift Key.shift Property.shift propsShift
  Pat.shift patsShift Stmt.shift stmtsShift optionStmtShift LoopHead.shift Handler.shift casesShift
  declaratorsShift Member.shift membersShift Outline.shift

attribute [local simp] exprOutline exprsOutline optionExprOutline keyOutline propOutline
  propsOutline patOutline patsOutline stmtOutline stmtsOutline optionStmtOutline headOutline
  handlerOutline casesOutline declaratorsOutline memberOutline membersOutline

mutual

/-- The outline of a moved expression is its outline, moved. -/
theorem exprOutline_shift : (e : Expr) → exprOutline (e.shift k) = outlinesShift k (exprOutline e)
  | .ident _ => by simp
  | .this _ | .literal _ | .privateName _ | .metaProperty _ | .omitted _ => by simp
  | .spread _ arg | .unary _ _ arg | .update _ arg | .paren _ arg | .await _ arg => by
    simp [exprOutline_shift arg]
  | .array _ items _ | .template _ items | .sequence _ items | .superCall _ items
  | .importCall _ items => by simp [exprsOutline_shift items]
  | .object _ props _ => by simp [propsOutline_shift props]
  | .function _ name params body => by
    simp [ownName_shift, patsOutline_shift params, stmtsOutline_shift body]
  | .arrow _ params body => by simp [patsOutline_shift params, stmtsOutline_shift body]
  | .arrowExpr _ params body => by
    simp [patsBoundNames_shift, patsOutline_shift params, exprOutline_shift body]
  | .classExpr _ _ heritage members => by
    simp [optionExprOutline_shift heritage, membersOutline_shift members]
  | .tagged _ callee args | .construct _ callee args => by
    simp [exprOutline_shift callee, exprsOutline_shift args]
  | .binary _ _ left right | .assignUpdate _ left right => by
    simp [exprOutline_shift left, exprOutline_shift right]
  | .conditional _ test yes no => by
    simp [exprOutline_shift test, exprOutline_shift yes, exprOutline_shift no]
  | .assign _ target value => by simp [patOutline_shift target, exprOutline_shift value]
  | .member _ object key | .chainMember _ object key => by
    simp [exprOutline_shift object, keyOutline_shift key]
  | .superMember _ key => by simp [keyOutline_shift key]
  | .call _ callee args | .chainCall _ callee args => by
    simp [memberRoot?_shift, exprOutline_shift callee, exprsOutline_shift args]
  | .yield _ arg => by simp [optionExprOutline_shift arg]

theorem exprsOutline_shift : (es : List Expr) →
    exprsOutline (exprsShift k es) = outlinesShift k (exprsOutline es)
  | [] => by simp
  | e :: es => by simp [exprOutline_shift e, exprsOutline_shift es]

theorem optionExprOutline_shift : (e : Option Expr) →
    optionExprOutline (optionExprShift k e) = outlinesShift k (optionExprOutline e)
  | none => by simp
  | some e => by simp [exprOutline_shift e]

theorem keyOutline_shift : (key : Key) → keyOutline (key.shift k) = outlinesShift k (keyOutline key)
  | .named _ _ | .privateName _ _ => by simp
  | .computed _ e => by simp [exprOutline_shift e]

theorem propOutline_shift : (p : Property) →
    propOutline (p.shift k) = outlinesShift k (propOutline p)
  | .shorthand _ => by simp
  | .shorthandDefault _ value | .spread _ value => by simp [exprOutline_shift value]
  | .keyValue key value => by simp [keyOutline_shift key, exprOutline_shift value]
  | .method key _ params body => by
    simp [keyOutline_shift key, patsOutline_shift params, stmtsOutline_shift body]
  | .getter key _ body => by simp [keyOutline_shift key, stmtsOutline_shift body]
  | .setter key _ param body => by
    simp [keyOutline_shift key, patOutline_shift param, stmtsOutline_shift body]

theorem propsOutline_shift : (ps : List Property) →
    propsOutline (propsShift k ps) = outlinesShift k (propsOutline ps)
  | [] => by simp
  | p :: ps => by simp [propOutline_shift p, propsOutline_shift ps]

theorem patOutline_shift : (p : Pat) → patOutline (p.shift k) = outlinesShift k (patOutline p)
  | .ident _ | .omitted => by simp
  | .array items | .object items => by simp [patsOutline_shift items]
  | .property key target => by simp [keyOutline_shift key, patOutline_shift target]
  | .withDefault target value => by simp [patOutline_shift target, exprOutline_shift value]
  | .rest target => by simp [patOutline_shift target]
  | .expr e => by simp [exprOutline_shift e]

theorem patsOutline_shift : (ps : List Pat) →
    patsOutline (patsShift k ps) = outlinesShift k (patsOutline ps)
  | [] => by simp
  | p :: ps => by simp [patOutline_shift p, patsOutline_shift ps]

theorem stmtOutline_shift : (s : Stmt) → stmtOutline (s.shift k) = outlinesShift k (stmtOutline s)
  | .empty | .debugger | .jump _ => by simp
  | .expr e | .raise e => by simp [exprOutline_shift e]
  | .declare _ decls => by simp [declaratorsOutline_shift decls]
  | .function _ params body => by simp [patsOutline_shift params, stmtsOutline_shift body]
  | .classDecl _ heritage members => by
    simp [optionExprOutline_shift heritage, membersOutline_shift members]
  | .block body => by simp [stmtsOutline_shift body]
  | .branch test yes no => by
    simp [exprOutline_shift test, stmtOutline_shift yes, optionStmtOutline_shift no]
  | .loop head test step body => by
    simp [lexicalStart_shift, optionStmtOutline_shift head, optionExprOutline_shift test,
      optionExprOutline_shift step, stmtOutline_shift body]
  | .loopIn head object body | .loopOf head object body => by
    simp [lexicalHead_shift, headOutline_shift head, exprOutline_shift object,
      stmtOutline_shift body]
  | .loopWhile test body | .within test body | .loopUntil body test => by
    simp [exprOutline_shift test, stmtOutline_shift body]
  | .result arg => by simp [optionExprOutline_shift arg]
  | .labeled _ body => by simp [stmtOutline_shift body]
  | .switch subject cases => by
    simp [casesLexicalNames_shift, exprOutline_shift subject, casesOutline_shift cases]
  | .guarded body handler finalizer => by
    simp [stmtsOutline_shift body, handlerOutline_shift handler, optionStmtOutline_shift finalizer]

theorem stmtsOutline_shift : (body : List Stmt) →
    stmtsOutline (stmtsShift k body) = outlinesShift k (stmtsOutline body)
  | [] => by simp
  | s :: rest => by simp [stmtOutline_shift s, stmtsOutline_shift rest]

theorem optionStmtOutline_shift : (s : Option Stmt) →
    optionStmtOutline (optionStmtShift k s) = outlinesShift k (optionStmtOutline s)
  | none => by simp
  | some s => by simp [stmtOutline_shift s]

theorem headOutline_shift : (head : LoopHead) →
    headOutline (head.shift k) = outlinesShift k (headOutline head)
  | .declared _ decls => by simp [declaratorsOutline_shift decls]
  | .target pat => by simp [patOutline_shift pat]

theorem handlerOutline_shift : (h : Handler) →
    handlerOutline (h.shift k) = outlinesShift k (handlerOutline h)
  | .absent => by simp
  | .plain body => by simp [stmtsOutline_shift body]
  | .binding param body => by
    simp [Pat.boundNames_shift, patOutline_shift param, stmtsOutline_shift body]

theorem casesOutline_shift : (cases : List Case) →
    casesOutline (casesShift k cases) = outlinesShift k (casesOutline cases)
  | [] => by simp
  | .mk test body :: cases => by
    simp [optionExprOutline_shift test, stmtsOutline_shift body, casesOutline_shift cases]

theorem declaratorsOutline_shift : (decls : List Declarator) →
    declaratorsOutline (declaratorsShift k decls) = outlinesShift k (declaratorsOutline decls)
  | [] => by simp
  | .mk target init :: decls => by
    simp [patOutline_shift target, optionExprOutline_shift init, declaratorsOutline_shift decls]

theorem memberOutline_shift : (m : Member) →
    memberOutline (m.shift k) = outlinesShift k (memberOutline m)
  | .empty => by simp
  | .method key params body => by
    simp [keyOutline_shift key, patsOutline_shift params, stmtsOutline_shift body]
  | .constructor params body => by simp [patsOutline_shift params, stmtsOutline_shift body]
  | .field key value => by simp [keyOutline_shift key, optionExprOutline_shift value]
  | .staticBlock body => by simp [stmtsOutline_shift body]

theorem membersOutline_shift : (ms : List Member) →
    membersOutline (membersShift k ms) = outlinesShift k (membersOutline ms)
  | [] => by simp
  | m :: ms => by simp [memberOutline_shift m, membersOutline_shift ms]

end

/-! ## Insertions -/

theorem helperRoot?_shift (isHelper : Text → Bool) (root : Option Ident) :
    helperRoot? isHelper (root.map (Ident.shift k)) =
      (helperRoot? isHelper root).map (Ident.shift k) := by
  cases root with
  | none => rfl
  | some id =>
    simp only [Option.map_some, helperRoot?, Ident.shift]
    split <;> rfl

mutual

/-- What a moved outline inserts is what the outline inserts, moved. -/
theorem insertions_shift (isHelper : Text → Bool) (scope : Scope) : (o : Outline) →
    insertions isHelper scope (o.shift k) = Insertions.shift k (insertions isHelper scope o)
  | .reference id => by
    simp only [Outline.shift, insertions, referenceInsertion, Ident.shift]
    split <;> rfl
  | .shorthand id => by
    simp only [Outline.shift, insertions, shorthandInsertion, Ident.shift]
    split <;> rfl
  | .call root callee args => by
    simp only [Outline.shift, insertions, helperRoot?_shift]
    cases helperRoot? isHelper root with
    | none =>
      simp [insertionsOfAll_shift isHelper scope callee, insertionsOfAll_shift isHelper scope args]
    | some id => simp [insertionsOfAll_shift isHelper scope args, Ident.shift, Span.shift]
  | .scope names inner => by
    simp only [Outline.shift, insertions, insertionsOfAll_shift isHelper (scope.push names) inner]

theorem insertionsOfAll_shift (isHelper : Text → Bool) (scope : Scope) : (os : List Outline) →
    insertionsOfAll isHelper scope (outlinesShift k os) =
      Insertions.shift k (insertionsOfAll isHelper scope os)
  | [] => by
    rw [outlinesShift, insertionsOfAll]
    rfl
  | o :: os => by
    simp [insertionsOfAll, insertions_shift isHelper scope o,
      insertionsOfAll_shift isHelper scope os]

end

end Outlines

end Resolve

end TemplateCompiler
