import TemplateCompiler.Proofs.Resolve.Scoping

/-!
# The sites of accessors

Resolution writes an accessor in front of a name, and the accessor is itself a name in the code that
results. What it means there depends on the binders around it, and not on those that resolution looks
at: the parameters of a constructor, of an accessor and the name of a class bind names too, and so do
the `var`s of a body that resolution takes for a plain block; while the `var`s of a function are no
names of its parameters.

So the table here lists two kinds of binders for every part of every construct, and there is no
construct that it leaves out. A site is a name that may get an accessor, with the binders of both
kinds.

## What this module delivers

* `Snippet.parts`, `Snippet.sites`: the table, and the sites of a piece of code.
* `Site.insertion?`: what a site gets.
* `resolve_eq_recordAll_sites`: resolution inserts at the sites, and nowhere else.
-/

set_option autoImplicit false

namespace TemplateCompiler.Resolve

open Script

/-! ## The parts of all code -/

/-- A piece of code of any kind. -/
inductive Snippet where
  | expr (e : Expr)
  | key (k : Key)
  | prop (p : Property)
  | pat (p : Pat)
  | stmt (s : Stmt)
  | member (m : Member)

/-- A part of a piece of code. The binders are innermost first. -/
structure SnippetPart where
  /-- What binds names between the code and its part. -/
  binders : List Binder
  /-- What resolution takes to bind names there. -/
  seen : List Binder
  snippet : Snippet

/-- Parts with the same binders around them. -/
def between (binders seen : List Binder) (snippets : List Snippet) : List SnippetPart :=
  snippets.map (SnippetPart.mk binders seen)

/-- Parts around which resolution sees what there is. -/
def within (binders : List Binder) (snippets : List Snippet) : List SnippetPart :=
  between binders binders snippets

/-- A function binds its parameters, and in its body also the `var`s of the body. Resolution takes
them to be bound in the defaults of the parameters as well. -/
def functionSnippets (outer : List Binder) (params : List Pat) (body : List Stmt) :
    List SnippetPart :=
  between (.params params :: outer) (.vars body :: .params params :: outer) (params.map .pat) ++
    within (.block body :: .vars body :: .params params :: outer) (body.map .stmt)

/-- A function that resolution takes for a plain block: an accessor of an object, a constructor or a
static block. -/
def blockFunctionSnippets (params : List Pat) (body : List Stmt) : List SnippetPart :=
  between [.params params] [] (params.map .pat) ++
    between [.block body, .vars body, .params params] [.block body] (body.map .stmt)

/-- A class binds its own name inside of it, which resolution does not see. -/
def classSnippets (name : Option Ident) (heritage : Option Expr) (members : List Member) :
    List SnippetPart :=
  between (name.toList.map .self) [] (heritage.toList.map .expr ++ members.map .member)

/-- The patterns and initial values of some declarations. -/
def declaratorSnippets (decls : List Declarator) : List Snippet :=
  decls.flatMap fun | .mk target init => .pat target :: init.toList.map .expr

/-- The tests and statements of some cases. -/
def caseSnippets (cases : List Case) : List Snippet :=
  cases.flatMap fun | .mk test body => test.toList.map .expr ++ body.map .stmt

/-- The patterns and values in the head of an `in` or `of` loop. -/
def headSnippets : LoopHead → List Snippet
  | .declared _ decls => declaratorSnippets decls
  | .target pat => [.pat pat]

/-- The parts of a handler, which binds its parameter. -/
def handlerSnippets : Handler → List SnippetPart
  | .absent => []
  | .plain body => within [.block body] (body.map .stmt)
  | .binding param body =>
    within [.handler param] [.pat param] ++ within [.block body, .handler param] (body.map .stmt)

/-- What is looked into of a callee: nothing if its root is a helper. -/
def calleeSnippets (isHelper : Text → Bool) (callee : Expr) : List Snippet :=
  match helperRoot? isHelper (memberRoot? callee) with
  | some _ => []
  | none => [.expr callee]

/-- The parts of an expression. -/
def exprSnippets (isHelper : Text → Bool) : Expr → List SnippetPart
  | .ident _ | .this _ | .literal _ | .privateName _ | .metaProperty _ | .omitted _ => []
  | .spread _ arg | .unary _ _ arg | .update _ arg | .paren _ arg | .await _ arg =>
    within [] [.expr arg]
  | .array _ items _ | .template _ items | .sequence _ items => within [] (items.map .expr)
  | .superCall _ args | .importCall _ args => within [] (args.map .expr)
  | .object _ props _ => within [] (props.map .prop)
  | .function _ name params body => functionSnippets (name.toList.map .self) params body
  | .arrow _ params body => functionSnippets [] params body
  | .arrowExpr _ params body => within [.params params] (params.map .pat ++ [.expr body])
  | .classExpr _ name heritage members => classSnippets name heritage members
  | .tagged _ tag holes => within [] (.expr tag :: holes.map .expr)
  | .binary _ _ left right => within [] [.expr left, .expr right]
  | .conditional _ test yes no => within [] [.expr test, .expr yes, .expr no]
  | .assign _ target value => within [] [.pat target, .expr value]
  | .assignUpdate _ target value => within [] [.expr target, .expr value]
  | .member _ object key | .chainMember _ object key => within [] [.expr object, .key key]
  | .superMember _ key => within [] [.key key]
  | .call _ callee args | .chainCall _ callee args =>
    within [] (calleeSnippets isHelper callee ++ args.map .expr)
  | .construct _ callee args => within [] (.expr callee :: args.map .expr)
  | .yield _ arg => within [] (arg.toList.map .expr)

/-- The parts of a key. -/
def keySnippets : Key → List SnippetPart
  | .named _ _ | .privateName _ _ => []
  | .computed _ e => within [] [.expr e]

/-- The parts of a property. -/
def propSnippets : Property → List SnippetPart
  | .shorthand _ => []
  | .shorthandDefault _ value => within [] [.expr value]
  | .keyValue key value => within [] [.key key, .expr value]
  | .method key _ params body => within [] [.key key] ++ functionSnippets [] params body
  | .getter key _ body => within [] [.key key] ++ blockFunctionSnippets [] body
  | .setter key _ param body => within [] [.key key] ++ blockFunctionSnippets [param] body
  | .spread _ arg => within [] [.expr arg]

/-- The parts of a pattern. The names in it get no accessor. -/
def patSnippets : Pat → List SnippetPart
  | .ident _ | .omitted => []
  | .array items | .object items => within [] (items.map .pat)
  | .property key target => within [] [.key key, .pat target]
  | .withDefault target value => within [] [.pat target, .expr value]
  | .rest target => within [] [.pat target]
  | .expr e => within [] [.expr e]

/-- The parts of a statement. -/
def stmtSnippets : Stmt → List SnippetPart
  | .empty | .debugger | .jump _ => []
  | .expr e | .raise e => within [] [.expr e]
  | .declare _ decls => within [] (declaratorSnippets decls)
  | .function _ params body => functionSnippets [] params body
  | .classDecl id heritage members => classSnippets (some id) heritage members
  | .block body => within [.block body] (body.map .stmt)
  | .branch test yes no => within [] (.expr test :: .stmt yes :: no.toList.map .stmt)
  | .loop head test step body =>
    within (startBinders head) (head.toList.map .stmt ++ test.toList.map .expr
      ++ step.toList.map .expr ++ [.stmt body])
  | .loopIn head object body | .loopOf head object body =>
    within (headBinders head) (headSnippets head ++ [.expr object, .stmt body])
  | .loopWhile test body => within [] [.expr test, .stmt body]
  | .loopUntil body test => within [] [.stmt body, .expr test]
  | .result arg => within [] (arg.toList.map .expr)
  | .labeled _ body => within [] [.stmt body]
  | .switch subject cases =>
    within [] [.expr subject] ++ within [.cases cases] (caseSnippets cases)
  | .guarded body handler finalizer =>
    within [.block body] (body.map .stmt) ++ handlerSnippets handler
      ++ within [] (finalizer.toList.map .stmt)
  | .within object body => within [] [.expr object, .stmt body]

/-- The parts of a class member. -/
def memberSnippets : Member → List SnippetPart
  | .empty => []
  | .method key params body => within [] [.key key] ++ functionSnippets [] params body
  | .constructor params body => blockFunctionSnippets params body
  | .field key value => within [] (.key key :: value.toList.map .expr)
  | .staticBlock body => blockFunctionSnippets [] body

/-- The parts of a piece of code, in the order of the source. -/
def Snippet.parts (isHelper : Text → Bool) : Snippet → List SnippetPart
  | .expr e => exprSnippets isHelper e
  | .key k => keySnippets k
  | .prop p => propSnippets p
  | .pat p => patSnippets p
  | .stmt s => stmtSnippets s
  | .member m => memberSnippets m

/-! ## Parts are smaller -/

/-- All parts are smaller than a size. -/
def Smaller (n : Nat) (ps : List SnippetPart) : Prop :=
  ∀ p ∈ ps, sizeOf p.snippet < n

theorem smaller_nil {n : Nat} : Smaller n [] := nofun

theorem smaller_append {n : Nat} {ps qs : List SnippetPart} :
    Smaller n (ps ++ qs) ↔ Smaller n ps ∧ Smaller n qs :=
  List.forall_mem_append

theorem smaller_between {n : Nat} {bs seen : List Binder} {snippets : List Snippet} :
    Smaller n (between bs seen snippets) ↔ ∀ c ∈ snippets, sizeOf c < n := by
  simp [Smaller, between]

theorem smaller_within {n : Nat} {bs : List Binder} {snippets : List Snippet} :
    Smaller n (within bs snippets) ↔ ∀ c ∈ snippets, sizeOf c < n :=
  smaller_between

theorem Smaller.mono {n m : Nat} {ps : List SnippetPart} (h : Smaller n ps) (hnm : n ≤ m) :
    Smaller m ps :=
  fun p hp => Nat.lt_of_lt_of_le (h p hp) hnm

theorem functionSnippets_smaller {n : Nat} {outer : List Binder} {params : List Pat}
    {body : List Stmt} (h : sizeOf params + sizeOf body < n) :
    Smaller n (functionSnippets outer params body) := by
  simp only [functionSnippets, smaller_append, smaller_between, smaller_within, List.forall_mem_map]
  grind [→ List.sizeOf_lt_of_mem]

theorem blockFunctionSnippets_smaller {n : Nat} {params : List Pat} {body : List Stmt}
    (hparams : ∀ p ∈ params, 1 + sizeOf p < n) (hbody : sizeOf body < n) :
    Smaller n (blockFunctionSnippets params body) := by
  simp only [blockFunctionSnippets, smaller_append, smaller_between, List.forall_mem_map]
  grind [→ List.sizeOf_lt_of_mem]

theorem classSnippets_smaller {n : Nat} {name : Option Ident} {heritage : Option Expr}
    {members : List Member} (h : sizeOf heritage + sizeOf members < n) :
    Smaller n (classSnippets name heritage members) := by
  simp only [classSnippets, smaller_between, List.forall_mem_append, List.forall_mem_map]
  cases heritage <;> grind [→ List.sizeOf_lt_of_mem]

theorem sizeOf_declaratorSnippets {c : Snippet} {decls : List Declarator}
    (h : c ∈ declaratorSnippets decls) : sizeOf c < sizeOf decls := by
  obtain ⟨⟨target, init⟩, hd, hc⟩ := List.mem_flatMap.1 h
  have := List.sizeOf_lt_of_mem hd
  cases init <;> grind

theorem sizeOf_caseSnippets {c : Snippet} {cases : List Case} (h : c ∈ caseSnippets cases) :
    sizeOf c < sizeOf cases := by
  obtain ⟨⟨test, body⟩, hd, hc⟩ := List.mem_flatMap.1 h
  have := List.sizeOf_lt_of_mem hd
  cases test <;> grind [→ List.sizeOf_lt_of_mem]

theorem sizeOf_headSnippets {c : Snippet} {head : LoopHead} (h : c ∈ headSnippets head) :
    sizeOf c ≤ sizeOf head := by
  cases head <;> grind [headSnippets, → sizeOf_declaratorSnippets]

theorem sizeOf_calleeSnippets {isHelper : Text → Bool} {c : Snippet} {callee : Expr}
    (h : c ∈ calleeSnippets isHelper callee) : sizeOf c ≤ 1 + sizeOf callee := by
  grind [calleeSnippets]

theorem handlerSnippets_smaller (handler : Handler) :
    Smaller (1 + sizeOf handler) (handlerSnippets handler) := by
  cases handler <;> simp [handlerSnippets, smaller_within, smaller_nil, smaller_append]
  all_goals grind [→ List.sizeOf_lt_of_mem]

theorem exprSnippets_smaller (isHelper : Text → Bool) (e : Expr) :
    Smaller (sizeOf (Snippet.expr e)) (exprSnippets isHelper e) := by
  cases e <;> simp [exprSnippets, smaller_within, smaller_nil]
  all_goals grind [→ List.sizeOf_lt_of_mem, functionSnippets_smaller, classSnippets_smaller,
    → sizeOf_calleeSnippets]

theorem keySnippets_smaller (k : Key) : Smaller (sizeOf (Snippet.key k)) (keySnippets k) := by
  cases k with
  | computed span e =>
    simp only [keySnippets, smaller_within, List.forall_mem_cons]
    grind
  | _ => exact smaller_nil

theorem propSnippets_smaller (p : Property) :
    Smaller (sizeOf (Snippet.prop p)) (propSnippets p) := by
  cases p <;> simp [propSnippets, smaller_within, smaller_nil, smaller_append]
  all_goals grind [functionSnippets_smaller, blockFunctionSnippets_smaller]

theorem patSnippets_smaller (p : Pat) : Smaller (sizeOf (Snippet.pat p)) (patSnippets p) := by
  cases p <;> simp [patSnippets, smaller_within, smaller_nil]
  all_goals grind [→ List.sizeOf_lt_of_mem]

theorem stmtSnippets_smaller (s : Stmt) : Smaller (sizeOf (Snippet.stmt s)) (stmtSnippets s) := by
  cases s <;> simp [stmtSnippets, smaller_within, smaller_nil, smaller_append]
  all_goals grind [→ List.sizeOf_lt_of_mem, functionSnippets_smaller, classSnippets_smaller,
    → sizeOf_declaratorSnippets, → sizeOf_caseSnippets, → sizeOf_headSnippets,
    handlerSnippets_smaller, Smaller.mono]

theorem memberSnippets_smaller (m : Member) :
    Smaller (sizeOf (Snippet.member m)) (memberSnippets m) := by
  cases m <;> simp [memberSnippets, smaller_within, smaller_nil, smaller_append]
  all_goals grind [→ List.sizeOf_lt_of_mem, functionSnippets_smaller,
    blockFunctionSnippets_smaller]

theorem Snippet.parts_smaller (isHelper : Text → Bool) :
    (s : Snippet) → Smaller (sizeOf s) (s.parts isHelper)
  | .expr e => exprSnippets_smaller isHelper e
  | .key k => keySnippets_smaller k
  | .prop p => propSnippets_smaller p
  | .pat p => patSnippets_smaller p
  | .stmt s => stmtSnippets_smaller s
  | .member m => memberSnippets_smaller m

/-! ## Sites -/

/-- A name that may get an accessor. The role of a callee is only that of a helper that is called. -/
structure Site where
  id : Ident
  role : Role
  /-- What binds names at the site. -/
  binders : List Binder
  /-- What resolution takes to bind names there. -/
  seen : List Binder

namespace Site

/-- The same site in code that has binders around it. -/
def under (p : SnippetPart) (s : Site) : Site :=
  { s with binders := s.binders ++ p.binders, seen := s.seen ++ p.seen }

/-- The accessor that a site may get. -/
def accessor (s : Site) : Text :=
  if s.role = .callee then helpersAccessor else dataAccessor

/-- What stands before the accessor: a shorthand becomes a key with the accessor behind it. -/
def lead (s : Site) : Text :=
  if s.role = .shorthand then s.id.name ++ ": ".toList else []

/-- What a site gets in the scope of the whole code. A helper that is called is never hidden. -/
def insertion? (scope : Scope) (s : Site) : Option Insertion :=
  if s.role ≠ .callee ∧ ((∃ b ∈ s.seen, b.Binds s.id.name) ∨ scope.contains s.id.name = true) then
    none
  else some (s.id.span.start, s.lead ++ s.accessor)

theorem insertion?_under (scope : Scope) (p : SnippetPart) (s : Site) :
    (s.under p).insertion? scope = s.insertion? (enter scope p.seen) := by
  have hbound : (∃ b ∈ (s.under p).seen, b.Binds s.id.name) ∨ scope.contains s.id.name = true ↔
      (∃ b ∈ s.seen, b.Binds s.id.name) ∨ (enter scope p.seen).contains s.id.name = true := by
    rw [contains_enter]
    simp [under, or_and_right, exists_or, or_assoc]
  have hid : (s.under p).id = s.id := rfl
  have hrole : (s.under p).role = s.role := rfl
  simp only [insertion?, lead, accessor, hid, hrole, hbound]

end Site

namespace Snippet

/-- The site that a piece of code is itself. -/
def leaf (isHelper : Text → Bool) : Snippet → List Site
  | .expr (.ident id) => [⟨id, .reference, [], []⟩]
  | .expr (.call _ callee _) | .expr (.chainCall _ callee _) =>
    (helperRoot? isHelper (memberRoot? callee)).toList.map fun id => ⟨id, .callee, [], []⟩
  | .prop (.shorthand id) => [⟨id, .shorthand, [], []⟩]
  | _ => []

/-- The sites in a piece of code, in the order of the source. -/
def sites (isHelper : Text → Bool) (s : Snippet) : List Site :=
  s.leaf isHelper ++
    (s.parts isHelper).attach.flatMap fun p => (p.1.snippet.sites isHelper).map (.under p.1)
termination_by sizeOf s
decreasing_by exact s.parts_smaller isHelper p.1 p.2

theorem sites_eq (isHelper : Text → Bool) (s : Snippet) :
    s.sites isHelper = s.leaf isHelper ++
      (s.parts isHelper).flatMap fun p => (p.snippet.sites isHelper).map (.under p) := by
  rw [sites]
  simp

/-- The outline of a piece of code. -/
def outline : Snippet → List Outline
  | .expr e => exprOutline e
  | .key k => keyOutline k
  | .prop p => propOutline p
  | .pat p => patOutline p
  | .stmt s => stmtOutline s
  | .member m => memberOutline m

end Snippet

/-! ## Outlines of several pieces of code -/

theorem exprsOutline_eq (es : List Expr) :
    exprsOutline es = (es.map .expr).flatMap Snippet.outline := by
  induction es with
  | nil => rfl
  | cons e es ih =>
    rw [exprsOutline, ih]
    rfl

theorem propsOutline_eq (ps : List Property) :
    propsOutline ps = (ps.map .prop).flatMap Snippet.outline := by
  induction ps with
  | nil => rfl
  | cons p ps ih =>
    rw [propsOutline, ih]
    rfl

theorem patsOutline_eq (ps : List Pat) :
    patsOutline ps = (ps.map .pat).flatMap Snippet.outline := by
  induction ps with
  | nil => rfl
  | cons p ps ih =>
    rw [patsOutline, ih]
    rfl

theorem stmtsOutline_eq (body : List Stmt) :
    stmtsOutline body = (body.map .stmt).flatMap Snippet.outline := by
  induction body with
  | nil => rfl
  | cons s body ih =>
    rw [stmtsOutline, ih]
    rfl

theorem membersOutline_eq (ms : List Member) :
    membersOutline ms = (ms.map .member).flatMap Snippet.outline := by
  induction ms with
  | nil => rfl
  | cons m ms ih =>
    rw [membersOutline, ih]
    rfl

theorem optionExprOutline_eq (e : Option Expr) :
    optionExprOutline e = (e.toList.map .expr).flatMap Snippet.outline := by
  cases e with
  | none => rfl
  | some e => exact (List.append_nil _).symm

theorem optionStmtOutline_eq (s : Option Stmt) :
    optionStmtOutline s = (s.toList.map .stmt).flatMap Snippet.outline := by
  cases s with
  | none => rfl
  | some s => exact (List.append_nil _).symm

theorem declaratorsOutline_eq (decls : List Declarator) :
    declaratorsOutline decls = (declaratorSnippets decls).flatMap Snippet.outline := by
  induction decls with
  | nil => rfl
  | cons d decls ih =>
    obtain ⟨target, init⟩ := d
    rw [declaratorsOutline, ih, optionExprOutline_eq]
    simp [declaratorSnippets, Snippet.outline]

theorem casesOutline_eq (cases : List Case) :
    casesOutline cases = (caseSnippets cases).flatMap Snippet.outline := by
  induction cases with
  | nil => rfl
  | cons c cases ih =>
    obtain ⟨test, body⟩ := c
    rw [casesOutline, ih, optionExprOutline_eq, stmtsOutline_eq]
    simp [caseSnippets]

theorem headOutline_eq (head : LoopHead) :
    headOutline head = (headSnippets head).flatMap Snippet.outline := by
  cases head with
  | declared kind decls => exact declaratorsOutline_eq decls
  | target pat => exact (List.append_nil _).symm

/-! ## What a piece of code inserts -/

/-- What parts insert, each in the scope that resolution makes for it. -/
def insertionsOfParts (isHelper : Text → Bool) (scope : Scope) (ps : List SnippetPart) :
    List Insertion :=
  ps.flatMap fun p => insertionsOfAll isHelper (enter scope p.seen) p.snippet.outline

section

variable (isHelper : Text → Bool) (scope : Scope)

theorem insertionsOfAll_flatMap (ss : List Snippet) :
    insertionsOfAll isHelper scope (ss.flatMap Snippet.outline) =
      ss.flatMap fun s => insertionsOfAll isHelper scope s.outline := by
  induction ss with
  | nil => rfl
  | cons s ss ih => rw [List.flatMap_cons, List.flatMap_cons, insertionsOfAll_append, ih]

@[simp] theorem insertionsOfParts_nil : insertionsOfParts isHelper scope [] = [] := rfl

@[simp] theorem insertionsOfParts_append (ps qs : List SnippetPart) :
    insertionsOfParts isHelper scope (ps ++ qs) =
      insertionsOfParts isHelper scope ps ++ insertionsOfParts isHelper scope qs :=
  List.flatMap_append

@[simp] theorem insertionsOfParts_between (binders seen : List Binder) (ss : List Snippet) :
    insertionsOfParts isHelper scope (between binders seen ss) =
      insertionsOfAll isHelper (enter scope seen) (ss.flatMap Snippet.outline) := by
  rw [insertionsOfParts, between, List.flatMap_map, insertionsOfAll_flatMap]

@[simp] theorem insertionsOfParts_within (bs : List Binder) (ss : List Snippet) :
    insertionsOfParts isHelper scope (within bs ss) =
      insertionsOfAll isHelper (enter scope bs) (ss.flatMap Snippet.outline) :=
  insertionsOfParts_between isHelper scope bs bs ss

theorem insertionsOfParts_block (binders : List Binder) (body : List Stmt) :
    insertionsOfParts isHelper scope (between binders [.block body] (body.map .stmt)) =
      insertions isHelper scope (blockScope body (stmtsOutline body)) := by
  rw [insertionsOfParts_between, blockScope, insertions, stmtsOutline_eq]
  rfl

theorem insertionsOfParts_function (outer : List Binder) (params : List Pat) (body : List Stmt) :
    insertionsOfParts isHelper scope (functionSnippets outer params body) =
      insertions isHelper (enter scope outer)
        (functionScope params body (patsOutline params) (stmtsOutline body)) := by
  -- resolution has one layer for the parameters and the `var`s, where the table has two
  have hlayers : ∀ x,
      ((enter scope outer).push (patsBoundNames params ++ hoistedNames body)).contains x =
        (enter scope (.vars body :: .params params :: outer)).contains x := by
    intro x
    simp [Binder.names, Bool.or_assoc, Bool.or_left_comm]
  rw [functionScope, insertions, insertionsOfAll_congr _ hlayers, insertionsOfAll_append,
    insertionsOfAll_singleton, functionSnippets, insertionsOfParts_append,
    insertionsOfParts_between, insertionsOfParts_within, blockScope, insertions, patsOutline_eq,
    stmtsOutline_eq]
  rfl

theorem insertionsOfParts_blockFunction (params : List Pat) (body : List Stmt) :
    insertionsOfParts isHelper scope (blockFunctionSnippets params body) =
      insertionsOfAll isHelper scope
        (patsOutline params ++ [blockScope body (stmtsOutline body)]) := by
  rw [blockFunctionSnippets, insertionsOfParts_append, insertionsOfParts_block,
    insertionsOfParts_between, insertionsOfAll_append, insertionsOfAll_singleton, patsOutline_eq]
  rfl

theorem insertionsOfParts_class (name : Option Ident) (heritage : Option Expr)
    (members : List Member) :
    insertionsOfParts isHelper scope (classSnippets name heritage members) =
      insertionsOfAll isHelper scope (optionExprOutline heritage ++ membersOutline members) := by
  rw [classSnippets, insertionsOfParts_between, List.flatMap_append, optionExprOutline_eq,
    membersOutline_eq]
  rfl

theorem insertionsOfParts_handler (handler : Handler) :
    insertionsOfParts isHelper scope (handlerSnippets handler) =
      insertionsOfAll isHelper scope (handlerOutline handler) := by
  cases handler with
  | absent => rfl
  | plain body =>
    -- A handler without a parameter has a layer too, with nothing in it.
    have hempty : ∀ x, (scope.push []).contains x = scope.contains x := fun x => by simp
    rw [handlerOutline, insertionsOfAll_singleton, insertions, insertionsOfAll_singleton,
      insertions_congr _ hempty]
    exact insertionsOfParts_block isHelper scope _ body
  | binding param body =>
    rw [handlerOutline, insertionsOfAll_singleton, insertions, insertionsOfAll_append,
      insertionsOfAll_singleton, blockScope, insertions, stmtsOutline_eq]
    simp [handlerSnippets, Snippet.outline, Binder.names]

end

/-! ## One construct -/

section

variable {isHelper : Text → Bool} (scope : Scope)

theorem insertion?_reference (id : Ident) :
    [⟨id, .reference, [], []⟩].filterMap (Site.insertion? scope) = referenceInsertion scope id := by
  cases hbound : scope.contains id.name <;>
    simp [Site.insertion?, Site.lead, Site.accessor, referenceInsertion, hbound]

theorem insertion?_shorthand (id : Ident) :
    [⟨id, .shorthand, [], []⟩].filterMap (Site.insertion? scope) = shorthandInsertion scope id := by
  cases hbound : scope.contains id.name <;>
    simp [Site.insertion?, Site.lead, Site.accessor, shorthandInsertion, hbound]

/-- A call inserts the accessor of the helpers, or what its callee does, and what its arguments do. -/
theorem insertions_call_eq (callee : Expr) (args : List Expr) :
    insertions isHelper scope (.call (memberRoot? callee) (exprOutline callee) (exprsOutline args)) =
      ((helperRoot? isHelper (memberRoot? callee)).toList.map
          fun id => (⟨id, .callee, [], []⟩ : Site)).filterMap (Site.insertion? scope) ++
        insertionsOfParts isHelper scope
          (within [] (calleeSnippets isHelper callee ++ args.map .expr)) := by
  rw [insertions, calleeSnippets, exprsOutline_eq]
  cases helperRoot? isHelper (memberRoot? callee) with
  | none => simp [Snippet.outline]
  | some id =>
    -- The callee is left as it is, computed keys included.
    simp [Site.insertion?, Site.lead, Site.accessor]

theorem exprOutline_step (e : Expr) :
    insertionsOfAll isHelper scope (exprOutline e) =
      ((Snippet.expr e).leaf isHelper).filterMap (Site.insertion? scope) ++
        insertionsOfParts isHelper scope (exprSnippets isHelper e) := by
  cases e with
  | ident id =>
    rw [exprOutline, insertionsOfAll_singleton, insertions, exprSnippets, insertionsOfParts_nil,
      List.append_nil]
    exact (insertion?_reference scope id).symm
  | function span name params body =>
    have hself : ∀ x, (scope.push (ownName name)).contains x =
        (enter scope (name.toList.map .self)).contains x := by
      intro x
      cases name <;> simp [ownName, Binder.names]
    rw [exprOutline, insertionsOfAll_singleton, insertions, insertionsOfAll_singleton,
      insertions_congr _ hself, exprSnippets, insertionsOfParts_function]
    rfl
  | arrow span params body =>
    rw [exprOutline, insertionsOfAll_singleton, exprSnippets, insertionsOfParts_function]
    rfl
  | arrowExpr span params body =>
    simp [exprOutline, exprSnippets, Snippet.leaf, Snippet.outline, insertions, patsOutline_eq,
      Binder.names]
  | classExpr span name heritage members =>
    rw [exprOutline, exprSnippets, insertionsOfParts_class]
    rfl
  | call span callee args =>
    rw [exprOutline, insertionsOfAll_singleton]
    exact insertions_call_eq scope callee args
  | chainCall span callee args =>
    rw [exprOutline, insertionsOfAll_singleton]
    exact insertions_call_eq scope callee args
  | _ =>
    -- The others bind nothing.
    simp [exprOutline, exprSnippets, Snippet.leaf, Snippet.outline, exprsOutline_eq,
      propsOutline_eq, optionExprOutline_eq]

theorem keyOutline_step (k : Key) :
    insertionsOfAll isHelper scope (keyOutline k) =
      insertionsOfParts isHelper scope (keySnippets k) := by
  cases k <;> simp [keyOutline, keySnippets, Snippet.outline]

theorem propOutline_step (p : Property) :
    insertionsOfAll isHelper scope (propOutline p) =
      ((Snippet.prop p).leaf isHelper).filterMap (Site.insertion? scope) ++
        insertionsOfParts isHelper scope (propSnippets p) := by
  cases p with
  | shorthand id =>
    rw [propOutline, insertionsOfAll_singleton, insertions, propSnippets, insertionsOfParts_nil,
      List.append_nil]
    exact (insertion?_shorthand scope id).symm
  | method key span params body =>
    rw [propOutline, propSnippets, insertionsOfParts_append, insertionsOfParts_function]
    simp [Snippet.leaf, Snippet.outline]
  | getter key span body =>
    rw [propOutline, propSnippets, insertionsOfParts_append, insertionsOfParts_blockFunction]
    simp [Snippet.leaf, Snippet.outline, patsOutline]
  | setter key span param body =>
    rw [propOutline, propSnippets, insertionsOfParts_append, insertionsOfParts_blockFunction]
    simp [Snippet.leaf, Snippet.outline, patsOutline]
  | _ => simp [propOutline, propSnippets, Snippet.leaf, Snippet.outline]

theorem patOutline_step (p : Pat) :
    insertionsOfAll isHelper scope (patOutline p) =
      insertionsOfParts isHelper scope (patSnippets p) := by
  cases p <;> simp [patOutline, patSnippets, Snippet.outline, patsOutline_eq]

theorem stmtOutline_step (s : Stmt) :
    insertionsOfAll isHelper scope (stmtOutline s) =
      insertionsOfParts isHelper scope (stmtSnippets s) := by
  cases s with
  | function id params body =>
    rw [stmtOutline, insertionsOfAll_singleton, stmtSnippets, insertionsOfParts_function]
    rfl
  | classDecl id heritage members =>
    rw [stmtOutline, stmtSnippets, insertionsOfParts_class]
  | block body =>
    rw [stmtOutline, insertionsOfAll_singleton]
    exact (insertionsOfParts_block isHelper scope _ body).symm
  | loop head test step body =>
    -- A loop has a layer of its own, which is empty unless its head declares names.
    rw [stmtOutline, insertionsOfAll_singleton, insertions,
      insertionsOfAll_congr _ (contains_lexicalStart scope head)]
    simp [stmtSnippets, Snippet.outline, optionExprOutline_eq, optionStmtOutline_eq]
  | loopIn head object body =>
    rw [stmtOutline, insertionsOfAll_singleton, insertions,
      insertionsOfAll_congr _ (contains_lexicalHead scope head)]
    simp [stmtSnippets, Snippet.outline, headOutline_eq]
  | loopOf head iterable body =>
    rw [stmtOutline, insertionsOfAll_singleton, insertions,
      insertionsOfAll_congr _ (contains_lexicalHead scope head)]
    simp [stmtSnippets, Snippet.outline, headOutline_eq]
  | switch subject cases =>
    simp [stmtOutline, stmtSnippets, Snippet.outline, insertions, casesOutline_eq, Binder.names]
  | guarded body handler finalizer =>
    rw [stmtOutline, stmtSnippets, insertionsOfParts_append, insertionsOfParts_append,
      insertionsOfParts_handler, within, insertionsOfParts_block, insertionsOfAll_append,
      insertionsOfAll, optionStmtOutline_eq, insertionsOfParts_within]
    rfl
  | _ =>
    simp [stmtOutline, stmtSnippets, Snippet.outline, declaratorsOutline_eq, optionExprOutline_eq,
      optionStmtOutline_eq]

theorem memberOutline_step (m : Member) :
    insertionsOfAll isHelper scope (memberOutline m) =
      insertionsOfParts isHelper scope (memberSnippets m) := by
  cases m with
  | method key params body =>
    rw [memberOutline, memberSnippets, insertionsOfParts_append, insertionsOfParts_function]
    simp [Snippet.outline]
  | constructor params body =>
    rw [memberOutline, memberSnippets, insertionsOfParts_blockFunction]
  | staticBlock body =>
    rw [memberOutline, memberSnippets, insertionsOfParts_blockFunction]
    rfl
  | _ => simp [memberOutline, memberSnippets, Snippet.outline, optionExprOutline_eq]

/-- A piece of code inserts what it gets as a site, and what its parts insert. -/
theorem Snippet.outline_step (s : Snippet) :
    insertionsOfAll isHelper scope s.outline =
      (s.leaf isHelper).filterMap (Site.insertion? scope) ++
        insertionsOfParts isHelper scope (s.parts isHelper) := by
  cases s with
  | expr e => exact exprOutline_step scope e
  | key k => exact keyOutline_step scope k
  | prop p => exact propOutline_step scope p
  | pat p => exact patOutline_step scope p
  | stmt s => exact stmtOutline_step scope s
  | member m => exact memberOutline_step scope m

end

/-! ## All of the code -/

/-- A piece of code inserts what its sites get, in order. -/
theorem Snippet.insertions_eq_sites (isHelper : Text → Bool) (s : Snippet) (scope : Scope) :
    insertionsOfAll isHelper scope s.outline =
      (s.sites isHelper).filterMap (Site.insertion? scope) := by
  rw [outline_step, sites_eq, List.filterMap_append, List.filterMap_flatMap, insertionsOfParts]
  congr 1
  refine List.flatMap_congr fun p hp => ?_
  -- the scope grows on the way into the part, and the binders of its sites with it
  rw [Snippet.insertions_eq_sites isHelper p.snippet, List.filterMap_map]
  refine List.filterMap_congr fun site _ => ?_
  exact (Site.insertion?_under scope p site).symm
termination_by sizeOf s
decreasing_by exact s.parts_smaller isHelper p hp

/-- Resolution inserts at the sites of an expression, in order, what each of them gets. -/
theorem resolve_eq_recordAll_sites (isHelper : Text → Bool) (scope : Scope) (e : Expr)
    (edits : EditBuffer) :
    resolve isHelper scope e edits =
      recordAll edits (((Snippet.expr e).sites isHelper).filterMap (Site.insertion? scope)) := by
  rw [resolve, ← Snippet.insertions_eq_sites]
  rfl

end TemplateCompiler.Resolve
