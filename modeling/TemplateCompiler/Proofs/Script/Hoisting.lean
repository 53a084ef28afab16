import Mathlib.Logic.Relation
import TemplateCompiler.Proofs.Script.Bindings

/-!
# Where a `var` can stand

A `var` belongs to the function around it, wherever it stands in that function. Here "wherever" is said
of whole trees: a node stands in another one if a path leads down to it, through statements,
expressions, patterns and all else that trees are made of, and the path is cut at functions and
classes. The list of hoisted names is computed from statements alone. It is complete all the same,
because an expression holds statements only in a function or a class.

## What this module delivers

* `Node`, `Node.children`: the nodes of trees, and the nodes directly below each.
* `Node.isBoundary`, `Node.Contains`: functions and classes, and the paths that do not pass them.
* `mem_hoistedNames_iff_contains`: the names of the `var`s in some statements.
-/

set_option autoImplicit false

namespace TemplateCompiler.Script

/-! ## Nodes -/

/-- A node of a tree. A declaration is a node of its own, as a statement or in the head of a loop. -/
inductive Node where
  | expr (e : Expr)
  | key (k : Key)
  | property (p : Property)
  | pat (p : Pat)
  | stmt (s : Stmt)
  | declaration (kind : DeclKind) (decls : List Declarator)

/-- The nodes of an expression, if there is one. -/
def optionNodes (e : Option Expr) : List Node := e.toList.map .expr

/-- The nodes of a function. -/
def functionNodes (params : List Pat) (body : List Stmt) : List Node :=
  params.map .pat ++ body.map .stmt

/-- The nodes of a member of a class. -/
def Member.nodes : Member → List Node
  | .empty => []
  | .method key params body => .key key :: functionNodes params body
  | .constructor params body => functionNodes params body
  | .field key value => .key key :: optionNodes value
  | .staticBlock body => body.map .stmt

/-- The nodes of a class. -/
def classNodes (heritage : Option Expr) (members : List Member) : List Node :=
  optionNodes heritage ++ members.flatMap Member.nodes

/-- The nodes directly below a key. -/
def Key.children : Key → List Node
  | .named _ _ | .privateName _ _ => []
  | .computed _ e => [.expr e]

/-- The nodes directly below a property. -/
def Property.children : Property → List Node
  | .shorthand _ => []
  | .shorthandDefault _ value => [.expr value]
  | .keyValue key value => [.key key, .expr value]
  | .method key _ params body => .key key :: functionNodes params body
  | .getter key _ body => .key key :: functionNodes [] body
  | .setter key _ param body => .key key :: functionNodes [param] body
  | .spread _ arg => [.expr arg]

/-- The nodes directly below a pattern. -/
def Pat.children : Pat → List Node
  | .ident _ | .omitted => []
  | .array items | .object items => items.map .pat
  | .property key target => [.key key, .pat target]
  | .withDefault target value => [.pat target, .expr value]
  | .rest target => [.pat target]
  | .expr e => [.expr e]

/-- The nodes directly below an expression. -/
def Expr.children : Expr → List Node
  | .ident _ | .this _ | .literal _ | .privateName _ | .metaProperty _ | .omitted _ => []
  | .spread _ arg | .unary _ _ arg | .update _ arg | .paren _ arg | .await _ arg => [.expr arg]
  | .array _ items _ | .template _ items | .sequence _ items => items.map .expr
  | .object _ props _ => props.map .property
  | .function _ _ params body | .arrow _ params body => functionNodes params body
  | .arrowExpr _ params body => params.map .pat ++ [.expr body]
  | .classExpr _ _ heritage members => classNodes heritage members
  | .binary _ _ left right | .assignUpdate _ left right => [.expr left, .expr right]
  | .conditional _ test yes no => [.expr test, .expr yes, .expr no]
  | .assign _ target value => [.pat target, .expr value]
  | .member _ obj key | .chainMember _ obj key => [.expr obj, .key key]
  | .superMember _ key => [.key key]
  | .tagged _ first rest | .call _ first rest | .chainCall _ first rest
  | .construct _ first rest => .expr first :: rest.map .expr
  | .superCall _ args | .importCall _ args => args.map .expr
  | .yield _ arg => optionNodes arg

/-- The nodes of a declared pattern with its initial value. -/
def Declarator.nodes : Declarator → List Node
  | .mk target init => .pat target :: optionNodes init

/-- The node of the first part of a loop, which is a declaration or an expression. -/
def startNodes : Option Stmt → List Node
  | some (.declare kind decls) => [.declaration kind decls]
  | some (.expr e) => [.expr e]
  | _ => []

/-- The node of what an `in` or `of` loop assigns to. -/
def LoopHead.node : LoopHead → Node
  | .declared kind decls => .declaration kind decls
  | .target pat => .pat pat

/-- The nodes of a handler. -/
def Handler.nodes : Handler → List Node
  | .absent => []
  | .plain body => body.map .stmt
  | .binding param body => .pat param :: body.map .stmt

/-- The nodes of a case. -/
def Case.nodes : Case → List Node
  | .mk test body => optionNodes test ++ body.map .stmt

/-- The nodes directly below a statement. -/
def Stmt.children : Stmt → List Node
  | .empty | .debugger | .jump _ => []
  | .expr e | .raise e => [.expr e]
  | .result arg => optionNodes arg
  | .declare kind decls => [.declaration kind decls]
  | .function _ params body => functionNodes params body
  | .classDecl _ heritage members => classNodes heritage members
  | .block body => body.map .stmt
  | .branch test yes no => .expr test :: .stmt yes :: no.toList.map .stmt
  | .loop head test step body =>
    startNodes head ++ optionNodes test ++ optionNodes step ++ [.stmt body]
  | .loopIn head e body | .loopOf head e body => [head.node, .expr e, .stmt body]
  | .loopWhile e body | .loopUntil body e | .within e body => [.expr e, .stmt body]
  | .labeled _ body => [.stmt body]
  | .switch subject cases => .expr subject :: cases.flatMap Case.nodes
  | .guarded body handler finalizer =>
    body.map .stmt ++ handler.nodes ++ finalizer.toList.map .stmt

namespace Node

/-- The nodes directly below a node. -/
def children : Node → List Node
  | .expr e => e.children
  | .key k => k.children
  | .property p => p.children
  | .pat p => p.children
  | .stmt s => s.children
  | .declaration _ decls => decls.flatMap Declarator.nodes

/-- Whether a node is a function or a class. -/
def isBoundary : Node → Bool
  | .expr (.function ..) | .expr (.arrow ..) | .expr (.arrowExpr ..) | .expr (.classExpr ..) => true
  | .property (.method ..) | .property (.getter ..) | .property (.setter ..) => true
  | .stmt (.function ..) | .stmt (.classDecl ..) => true
  | _ => false

/-- A node is directly below another one that is neither a function nor a class. -/
def Holds (n m : Node) : Prop := n.isBoundary = false ∧ m ∈ n.children

/-- A path leads down from a node to another one, with no function or class to pass. -/
def Contains : Node → Node → Prop := Relation.ReflTransGen Holds

/-- Whether a node is a statement or a declaration. -/
def isStatement : Node → Bool
  | .stmt _ | .declaration _ _ => true
  | _ => false

end Node

/-! ## Expressions hold no statements -/

attribute [local simp] Node.isStatement optionNodes

theorem Expr.isStatement_of_mem_children {e : Expr} (he : (Node.expr e).isBoundary = false) :
    ∀ m ∈ e.children, m.isStatement = false := by
  -- The expressions that hold statements are functions and classes.
  cases e with
  | function | arrow | arrowExpr | classExpr => cases he
  | _ => simp [Expr.children]

theorem Property.isStatement_of_mem_children {p : Property}
    (hp : (Node.property p).isBoundary = false) : ∀ m ∈ p.children, m.isStatement = false := by
  cases p with
  | method | getter | setter => cases hp
  | _ => simp [Property.children]

theorem Key.isStatement_of_mem_children (k : Key) : ∀ m ∈ k.children, m.isStatement = false := by
  cases k with
  | _ => simp [Key.children]

theorem Pat.isStatement_of_mem_children (p : Pat) : ∀ m ∈ p.children, m.isStatement = false := by
  cases p with
  | _ => simp [Pat.children]

theorem Declarator.isStatement_of_mem_nodes (d : Declarator) :
    ∀ m ∈ d.nodes, m.isStatement = false := by
  obtain ⟨target, init⟩ := d
  simp [Declarator.nodes]

/-- Below a node that is no statement, and neither a function nor a class, there are no statements. -/
theorem Node.Holds.isStatement_eq_false {n m : Node} (h : n.Holds m) (hn : n.isStatement = false) :
    m.isStatement = false := by
  obtain ⟨hboundary, hm⟩ := h
  cases n with
  | expr e => exact e.isStatement_of_mem_children hboundary m hm
  | key k => exact k.isStatement_of_mem_children m hm
  | property p => exact p.isStatement_of_mem_children hboundary m hm
  | pat p => exact p.isStatement_of_mem_children m hm
  | stmt s => cases hn
  | declaration kind decls => cases hn

/-! ## Statements in statements -/

attribute [local simp] Stmt.children

theorem Handler.stmt_mem_nodes {handler : Handler} {t : Stmt} :
    Node.stmt t ∈ handler.nodes ↔ t ∈ handler.body := by
  cases handler with
  | _ => simp [Handler.nodes, Handler.body]

theorem Case.stmt_mem_nodes {c : Case} {t : Stmt} : Node.stmt t ∈ c.nodes ↔ t ∈ c.body := by
  obtain ⟨test, body⟩ := c
  simp [Case.nodes, Case.body]

theorem stmt_not_mem_startNodes (head : Option Stmt) (t : Stmt) : Node.stmt t ∉ startNodes head := by
  unfold startNodes
  split
  all_goals simp

theorem LoopHead.stmt_ne_node (head : LoopHead) (t : Stmt) : Node.stmt t ≠ head.node := by
  cases head with
  | _ => nofun

/-- The statements directly below a statement are those inside of it. -/
theorem Stmt.stmt_mem_children {s : Stmt} (hs : (Node.stmt s).isBoundary = false) {t : Stmt} :
    .stmt t ∈ s.children ↔ t ∈ s.inner := by
  cases s with
  | function | classDecl => cases hs
  | loop head test step body =>
    simp [Stmt.inner, stmt_not_mem_startNodes]
  | loopIn head e body | loopOf head e body =>
    simp [Stmt.inner, LoopHead.stmt_ne_node]
  | switch subject cases => simp [Stmt.inner, Case.stmt_mem_nodes]
  | guarded body handler finalizer =>
    simp [Stmt.inner, Handler.stmt_mem_nodes]
  | _ => simp [Stmt.inner]

theorem Handler.declaration_not_mem_nodes (handler : Handler) (kind : DeclKind)
    (decls : List Declarator) : Node.declaration kind decls ∉ handler.nodes := by
  cases handler with
  | _ => simp [Handler.nodes]

theorem Case.declaration_not_mem_nodes (c : Case) (kind : DeclKind) (decls : List Declarator) :
    Node.declaration kind decls ∉ c.nodes := by
  obtain ⟨test, body⟩ := c
  simp [Case.nodes]

/-- The `var`s directly below a statement are those that it declares itself. -/
theorem Stmt.declaration_mem_children {s : Stmt} (hs : (Node.stmt s).isBoundary = false)
    {d : Declarator} :
    (∃ decls, .declaration .var decls ∈ s.children ∧ d ∈ decls) ↔ d ∈ s.vars := by
  cases s with
  | function | classDecl => cases hs
  | declare kind decls => cases kind <;> simp [Stmt.vars]
  | loop head test step body =>
    rcases head with _ | head
    · simp [Stmt.vars, startNodes]
    · cases head with
      | declare kind decls =>
        cases kind <;> simp [Stmt.vars, startNodes]
      | _ => simp [Stmt.vars, startNodes]
  | loopIn head e body | loopOf head e body =>
    rcases head with ⟨⟨⟩, decls⟩ | pat
    all_goals simp [Stmt.vars, LoopHead.node]
  | switch subject cases => simp [Stmt.vars, Case.declaration_not_mem_nodes]
  | guarded body handler finalizer =>
    simp [Stmt.vars, Handler.declaration_not_mem_nodes]
  | _ => simp [Stmt.vars]

/-! ## Paths to a `var` -/

/-- What a node is from which a path leads to a `var` of a name. -/
def Node.LeadsToVar (x : Text) : Node → Prop
  | .stmt s => s.HoistsVar x
  | .declaration kind decls => kind = .var ∧ ∃ d ∈ decls, d.Binds x
  | _ => False

section Paths

variable {x : Text}

theorem Node.LeadsToVar.isStatement {n : Node} (h : n.LeadsToVar x) : n.isStatement = true := by
  cases n with
  | stmt | declaration => rfl
  | _ => exact False.elim h

/-- One step up a path: what leads to a `var` is only found in statements, which hoist it. -/
theorem Node.LeadsToVar.of_holds {n m : Node} (h : n.Holds m) (hm : m.LeadsToVar x) :
    n.LeadsToVar x := by
  -- Expressions, keys, properties and patterns are out: nothing below them leads to a `var`.
  have hstatement : n.isStatement = true := by
    cases hn : n.isStatement with
    | true => rfl
    | false => exact (h.isStatement_eq_false hn).symm.trans hm.isStatement
  obtain ⟨hboundary, hmem⟩ := h
  cases n with
  | stmt s =>
    cases m with
    | stmt t => exact .inner ((Stmt.stmt_mem_children hboundary).1 hmem) hm
    | declaration kind decls =>
      obtain ⟨rfl, d, hd, hbinds⟩ := hm
      exact .here ((Stmt.declaration_mem_children hboundary).1 ⟨decls, hmem, hd⟩) hbinds
    | _ => exact False.elim hm
  | declaration kind decls =>
    -- Below a declaration there are only patterns and expressions.
    obtain ⟨d, -, hd⟩ := List.mem_flatMap.1 hmem
    exact absurd ((d.isStatement_of_mem_nodes m hd).symm.trans hm.isStatement) Bool.false_ne_true
  | _ => cases hstatement

theorem Node.LeadsToVar.of_contains {n m : Node} (h : n.Contains m) (hm : m.LeadsToVar x) :
    n.LeadsToVar x := by
  induction h using Relation.ReflTransGen.head_induction_on with
  | refl => exact hm
  | head hstep _ ih => exact ih.of_holds hstep

/-- A statement that hoists a name is no function or class. -/
theorem Stmt.HoistsVar.isBoundary_eq_false {s : Stmt} (h : s.HoistsVar x) :
    (Node.stmt s).isBoundary = false := by
  cases s with
  | function | classDecl => exact absurd h (not_hoistsVar rfl rfl)
  | _ => rfl

theorem Stmt.HoistsVar.contains {s : Stmt} (h : s.HoistsVar x) :
    ∃ decls, (Node.stmt s).Contains (.declaration .var decls) ∧ ∃ d ∈ decls, d.Binds x := by
  induction h with
  | here hd hbinds =>
    have hboundary := (Stmt.HoistsVar.here hd hbinds).isBoundary_eq_false
    obtain ⟨decls, hmem, hd'⟩ := (Stmt.declaration_mem_children hboundary).2 hd
    exact ⟨decls, .single ⟨hboundary, hmem⟩, _, hd', hbinds⟩
  | inner ht h ih =>
    -- The path of the inner statement, with one more step at its head.
    have hboundary := (Stmt.HoistsVar.inner ht h).isBoundary_eq_false
    obtain ⟨decls, hpath, hbinds⟩ := ih
    exact ⟨decls, .head ⟨hboundary, (Stmt.stmt_mem_children hboundary).2 ht⟩ hpath, hbinds⟩

end Paths

/-- The hoisted names of some statements are those that a `var` binds to which a path leads from one of
the statements, whatever it leads through but functions and classes. -/
theorem mem_hoistedNames_iff_contains (body : List Stmt) (x : Text) :
    x ∈ hoistedNames body ↔
      ∃ s ∈ body, ∃ decls, (Node.stmt s).Contains (.declaration .var decls) ∧
        ∃ target init, Declarator.mk target init ∈ decls ∧ target.Binds x := by
  have hdeclared : ∀ decls : List Declarator, (∃ d ∈ decls, d.Binds x) ↔
      ∃ target init, Declarator.mk target init ∈ decls ∧ target.Binds x := by
    intro decls
    constructor
    · rintro ⟨⟨target, init⟩, hd, hbinds⟩
      exact ⟨target, init, hd, hbinds⟩
    · rintro ⟨target, init, hd, hbinds⟩
      exact ⟨.mk target init, hd, hbinds⟩
  simp only [← hdeclared]
  rw [mem_hoistedNames_iff]
  constructor
  · rintro ⟨s, hs, h⟩
    exact ⟨s, hs, h.contains⟩
  · rintro ⟨s, hs, decls, hpath, hbinds⟩
    have hleads : (Node.declaration .var decls).LeadsToVar x := ⟨rfl, hbinds⟩
    exact ⟨s, hs, hleads.of_contains hpath⟩

end TemplateCompiler.Script
