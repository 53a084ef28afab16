import TemplateCompiler.Proofs.Script.Bindings
import TemplateCompiler.Resolve.Outline

/-!
# References and the binders around them

Static scoping, as a table and one recursion. The table says of each construct which parts it has and
which binders stand between it and each part; the recursion collects the references of a piece of code,
each with all the binders around it, innermost first. What a binder binds is said by the rules for
patterns and declarations, and no scope is carried along.

Code is `Plain` if the table describes all of it: it has no classes, no accessors and no destructuring
assignments, and the callee of a helper has no computed keys.

## What this module delivers

* `Binder`, `Binder.Binds`: what binds names, and which ones.
* `Phrase.parts`, `Phrase.occurrences`: the table and the references.
* `Plain`: the code that the table describes.
-/

set_option autoImplicit false

namespace TemplateCompiler.Resolve

open Script

/-! ## Binders -/

/-- What binds names for a piece of code. -/
inductive Binder where
  | params (params : List Pat)
  /-- The `var`s of the body of a function, however deep. -/
  | vars (body : List Stmt)
  /-- A function expression, for its own name. -/
  | self (id : Ident)
  | block (body : List Stmt)
  /-- The cases of a switch, which are one block. -/
  | cases (cases : List Case)
  /-- The declaration in the head of a loop. -/
  | loop (kind : DeclKind) (decls : List Declarator)
  | handler (param : Pat)

namespace Binder

/-- A binder binds a name. -/
def Binds : Binder → Text → Prop
  | .params ps, x => ∃ p ∈ ps, p.Binds x
  | .vars body, x => ∃ s ∈ body, s.HoistsVar x
  | .self id, x => id.name = x
  | .block body, x => ∃ s ∈ body, s.Declares x
  | .cases cs, x => ∃ c ∈ cs, ∃ s ∈ c.body, s.Declares x
  | .loop kind decls, x => kind ≠ .var ∧ ∃ d ∈ decls, d.Binds x
  | .handler param, x => param.Binds x

/-- The names that a binder binds. -/
def names : Binder → List Text
  | .params ps => patsBoundNames ps
  | .vars body => hoistedNames body
  | .self id => [id.name]
  | .block body => lexicalNames body
  | .cases cs => casesLexicalNames cs
  | .loop kind decls => lexicalDeclaration kind decls
  | .handler param => param.boundNames

theorem mem_names_iff {x : Text} : (b : Binder) → (x ∈ b.names ↔ b.Binds x)
  | .params ps => mem_patsBoundNames_iff ps
  | .vars body => mem_hoistedNames_iff body
  | .self _ => List.mem_singleton.trans eq_comm
  | .block _ => mem_lexicalNames_iff
  | .cases _ => mem_casesLexicalNames_iff
  | .loop _ _ => mem_lexicalDeclaration_iff
  | .handler param => mem_boundNames_iff param

instance (b : Binder) (x : Text) : Decidable (b.Binds x) :=
  decidable_of_iff _ b.mem_names_iff

end Binder

/-! ## The parts of a piece of code -/

/-- A piece of code that may hold references. -/
inductive Phrase where
  | expr (e : Expr)
  /-- An expression that is called, or the object of a member that is called. -/
  | callee (e : Expr)
  | key (k : Key)
  | prop (p : Property)
  | pat (p : Pat)
  | stmt (s : Stmt)

/-- A part of a piece of code, with the binders between the two, innermost first. -/
structure Part where
  binders : List Binder
  phrase : Phrase

/-- Parts with the same binders around them. -/
def inside (binders : List Binder) (phrases : List Phrase) : List Part :=
  phrases.map (Part.mk binders)

/-- A function binds its parameters and the `var`s of its body; the body is a block inside of it. -/
def functionParts (outer : List Binder) (params : List Pat) (body : List Stmt) : List Part :=
  inside (.vars body :: .params params :: outer) (params.map .pat) ++
    inside (.block body :: .vars body :: .params params :: outer) (body.map .stmt)

/-- The patterns and initial values of some declarations. -/
def declaratorPhrases (decls : List Declarator) : List Phrase :=
  decls.flatMap fun | .mk target init => .pat target :: init.toList.map .expr

/-- The tests and statements of some cases. -/
def casePhrases (cases : List Case) : List Phrase :=
  cases.flatMap fun | .mk test body => test.toList.map .expr ++ body.map .stmt

/-- What the first part of a loop binds for the loop. -/
def startBinders : Option Stmt → List Binder
  | some (.declare kind decls) => [.loop kind decls]
  | _ => []

/-- What the head of an `in` or `of` loop binds for the loop. -/
def headBinders : LoopHead → List Binder
  | .declared kind decls => [.loop kind decls]
  | .target _ => []

/-- The patterns and values in the head of an `in` or `of` loop. -/
def headPhrases : LoopHead → List Phrase
  | .declared _ decls => declaratorPhrases decls
  | .target pat => [.pat pat]

/-- A handler binds its parameter for its body. -/
def handlerParts : Handler → List Part
  | .absent => []
  | .plain body => inside [.block body] (body.map .stmt)
  | .binding param body =>
    inside [.handler param] [.pat param] ++ inside [.block body, .handler param] (body.map .stmt)

/-- The parts of an expression. -/
def exprParts : Expr → List Part
  | .ident _ | .this _ | .literal _ | .privateName _ | .metaProperty _ | .omitted _ => []
  | .spread _ arg | .unary _ _ arg | .update _ arg | .paren _ arg | .await _ arg =>
    inside [] [.expr arg]
  | .array _ items _ | .template _ items | .sequence _ items => inside [] (items.map .expr)
  | .superCall _ args | .importCall _ args => inside [] (args.map .expr)
  | .object _ props _ => inside [] (props.map .prop)
  | .function _ name params body => functionParts (name.toList.map .self) params body
  | .arrow _ params body => functionParts [] params body
  | .arrowExpr _ params body => inside [.params params] (params.map .pat ++ [.expr body])
  | .classExpr _ _ _ _ => []
  | .tagged _ tag holes => inside [] (.expr tag :: holes.map .expr)
  | .binary _ _ left right => inside [] [.expr left, .expr right]
  | .conditional _ test yes no => inside [] [.expr test, .expr yes, .expr no]
  | .assign _ target value => inside [] [.pat target, .expr value]
  | .assignUpdate _ target value => inside [] [.expr target, .expr value]
  | .member _ object key | .chainMember _ object key => inside [] [.expr object, .key key]
  | .superMember _ key => inside [] [.key key]
  | .call _ callee args | .chainCall _ callee args => inside [] (.callee callee :: args.map .expr)
  | .construct _ callee args => inside [] (.expr callee :: args.map .expr)
  | .yield _ arg => inside [] (arg.toList.map .expr)

/-- The parts of a callee: those of an expression, but the object of a member is a callee again. -/
def calleeParts : Expr → List Part
  | .member _ object key => inside [] [.callee object, .key key]
  | e => exprParts e

/-- The parts of a key. -/
def keyParts : Key → List Part
  | .named _ _ | .privateName _ _ => []
  | .computed _ e => inside [] [.expr e]

/-- The parts of a property. -/
def propParts : Property → List Part
  | .shorthand _ => []
  | .keyValue key value => inside [] [.key key, .expr value]
  | .method key _ params body => inside [] [.key key] ++ functionParts [] params body
  | .spread _ arg => inside [] [.expr arg]
  | .shorthandDefault _ _ | .getter _ _ _ | .setter _ _ _ _ => []

/-- The parts of a pattern. The names in it are no references. -/
def patParts : Pat → List Part
  | .ident _ | .omitted => []
  | .array items | .object items => inside [] (items.map .pat)
  | .property key target => inside [] [.key key, .pat target]
  | .withDefault target value => inside [] [.pat target, .expr value]
  | .rest target => inside [] [.pat target]
  | .expr e => inside [] [.expr e]

/-- The parts of a statement. -/
def stmtParts : Stmt → List Part
  | .empty | .debugger | .jump _ | .classDecl _ _ _ => []
  | .expr e | .raise e => inside [] [.expr e]
  | .declare _ decls => inside [] (declaratorPhrases decls)
  | .function _ params body => functionParts [] params body
  | .block body => inside [.block body] (body.map .stmt)
  | .branch test yes no => inside [] (.expr test :: .stmt yes :: no.toList.map .stmt)
  | .loop head test step body =>
    inside (startBinders head) (head.toList.map .stmt ++ test.toList.map .expr
      ++ step.toList.map .expr ++ [.stmt body])
  | .loopIn head object body | .loopOf head object body =>
    inside (headBinders head) (headPhrases head ++ [.expr object, .stmt body])
  | .loopWhile test body => inside [] [.expr test, .stmt body]
  | .loopUntil body test => inside [] [.stmt body, .expr test]
  | .result arg => inside [] (arg.toList.map .expr)
  | .labeled _ body => inside [] [.stmt body]
  | .switch subject cases =>
    inside [] [.expr subject] ++ inside [.cases cases] (casePhrases cases)
  | .guarded body handler finalizer =>
    inside [.block body] (body.map .stmt) ++ handlerParts handler
      ++ inside [] (finalizer.toList.map .stmt)
  | .within object body => inside [] [.expr object, .stmt body]

/-- The parts of a piece of code, in the order of the source. -/
def Phrase.parts : Phrase → List Part
  | .expr e => exprParts e
  | .callee e => calleeParts e
  | .key k => keyParts k
  | .prop p => propParts p
  | .pat p => patParts p
  | .stmt s => stmtParts s

/-! ## Parts are smaller -/

/-- All parts are smaller than a size. -/
def Below (n : Nat) (ps : List Part) : Prop :=
  ∀ p ∈ ps, sizeOf p.phrase < n

theorem below_nil {n : Nat} : Below n [] := nofun

theorem below_append {n : Nat} {ps qs : List Part} : Below n (ps ++ qs) ↔ Below n ps ∧ Below n qs :=
  List.forall_mem_append

theorem below_inside {n : Nat} {bs : List Binder} {phrases : List Phrase} :
    Below n (inside bs phrases) ↔ ∀ c ∈ phrases, sizeOf c < n := by
  simp [Below, inside]

theorem functionParts_below {n : Nat} {outer : List Binder} {params : List Pat} {body : List Stmt}
    (h : sizeOf params + sizeOf body < n) : Below n (functionParts outer params body) := by
  simp only [functionParts, below_append, below_inside, List.forall_mem_map]
  grind [→ List.sizeOf_lt_of_mem]

theorem sizeOf_declaratorPhrases {c : Phrase} {decls : List Declarator}
    (h : c ∈ declaratorPhrases decls) : sizeOf c < sizeOf decls := by
  obtain ⟨⟨target, init⟩, hd, hc⟩ := List.mem_flatMap.1 h
  have := List.sizeOf_lt_of_mem hd
  cases init <;> grind

theorem sizeOf_casePhrases {c : Phrase} {cases : List Case} (h : c ∈ casePhrases cases) :
    sizeOf c < sizeOf cases := by
  obtain ⟨⟨test, body⟩, hd, hc⟩ := List.mem_flatMap.1 h
  have := List.sizeOf_lt_of_mem hd
  cases test <;> grind [→ List.sizeOf_lt_of_mem]

theorem sizeOf_headPhrases {c : Phrase} {head : LoopHead} (h : c ∈ headPhrases head) :
    sizeOf c ≤ sizeOf head := by
  cases head <;> grind [headPhrases, → sizeOf_declaratorPhrases]

theorem handlerParts_below (handler : Handler) : Below (1 + sizeOf handler) (handlerParts handler) := by
  cases handler <;> simp [handlerParts, below_inside, below_nil, below_append]
  all_goals grind [→ List.sizeOf_lt_of_mem]

theorem Below.mono {n m : Nat} {ps : List Part} (h : Below n ps) (hnm : n ≤ m) : Below m ps :=
  fun p hp => Nat.lt_of_lt_of_le (h p hp) hnm

theorem exprParts_below (e : Expr) : Below (sizeOf (Phrase.expr e)) (exprParts e) := by
  cases e <;> simp [exprParts, below_inside, below_nil]
  all_goals grind [→ List.sizeOf_lt_of_mem, functionParts_below]

theorem calleeParts_below (e : Expr) : Below (sizeOf (Phrase.callee e)) (calleeParts e) := by
  cases e with
  | member span object key =>
    simp [calleeParts, below_inside]
    grind
  | _ => exact exprParts_below _

theorem keyParts_below (k : Key) : Below (sizeOf (Phrase.key k)) (keyParts k) := by
  cases k with
  | computed span e =>
    simp only [keyParts, below_inside, List.forall_mem_cons]
    grind
  | _ => exact below_nil

theorem propParts_below (p : Property) : Below (sizeOf (Phrase.prop p)) (propParts p) := by
  cases p <;> simp [propParts, below_inside, below_nil, below_append]
  all_goals grind [functionParts_below]

theorem patParts_below (p : Pat) : Below (sizeOf (Phrase.pat p)) (patParts p) := by
  cases p <;> simp [patParts, below_inside, below_nil]
  all_goals grind [→ List.sizeOf_lt_of_mem]

theorem stmtParts_below (s : Stmt) : Below (sizeOf (Phrase.stmt s)) (stmtParts s) := by
  cases s <;> simp [stmtParts, below_inside, below_nil, below_append]
  all_goals grind [→ List.sizeOf_lt_of_mem, functionParts_below, → sizeOf_declaratorPhrases,
    → sizeOf_casePhrases, → sizeOf_headPhrases, handlerParts_below, Below.mono]

theorem Phrase.parts_below : (s : Phrase) → Below (sizeOf s) s.parts
  | .expr e => exprParts_below e
  | .callee e => calleeParts_below e
  | .key k => keyParts_below k
  | .prop p => propParts_below p
  | .pat p => patParts_below p
  | .stmt s => stmtParts_below s

/-! ## References -/

/-- How a name refers to a variable. -/
inductive Role where
  | reference
  /-- At the root of a callee. -/
  | callee
  /-- As a property that is key and reference at once. -/
  | shorthand
deriving DecidableEq, Repr

/-- A reference with the binders around it, innermost first. -/
structure Occurrence where
  id : Ident
  role : Role
  binders : List Binder

namespace Occurrence

/-- The same reference in code that has binders around it. -/
def under (bs : List Binder) (o : Occurrence) : Occurrence :=
  { o with binders := o.binders ++ bs }

/-- Some binder around a reference binds its name. -/
def Bound (o : Occurrence) : Prop :=
  ∃ b ∈ o.binders, b.Binds o.id.name

instance (o : Occurrence) : Decidable o.Bound :=
  inferInstanceAs (Decidable (∃ b ∈ o.binders, b.Binds o.id.name))

end Occurrence

namespace Phrase

/-- The reference that a piece of code is itself. -/
def leaf : Phrase → List Occurrence
  | .expr (.ident id) => [⟨id, .reference, []⟩]
  | .callee (.ident id) => [⟨id, .callee, []⟩]
  | .prop (.shorthand id) => [⟨id, .shorthand, []⟩]
  | _ => []

/-- The references in a piece of code, in the order of the source. -/
def occurrences (s : Phrase) : List Occurrence :=
  s.leaf ++ s.parts.attach.flatMap fun p => p.1.phrase.occurrences.map (.under p.1.binders)
termination_by sizeOf s
decreasing_by exact s.parts_below p.1 p.2

theorem occurrences_eq (s : Phrase) :
    s.occurrences = s.leaf ++ s.parts.flatMap fun p => p.phrase.occurrences.map (.under p.binders) := by
  rw [occurrences]
  simp

end Phrase

/-! ## Plain code -/

/-- A target that is no destructuring pattern. -/
def PlainTarget : Pat → Prop
  | .expr _ => True
  | _ => False

/-- A head that declares its names, or is no pattern. -/
def PlainHead : LoopHead → Prop
  | .declared _ _ => True
  | .target pat => PlainTarget pat

/-- What plain code asks of an expression itself. -/
def exprPermitted : Expr → Prop
  | .classExpr _ _ _ _ => False
  | .assign _ target _ => PlainTarget target
  | _ => True

/-- What plain code asks of a callee itself: a helper is called by a fixed path. -/
def calleePermitted (isHelper : Text → Bool) : Expr → Prop
  | .member _ object (.computed _ _) =>
    ∀ id, memberRoot? object = some id → isHelper id.name = false
  | e => exprPermitted e

/-- What plain code asks of a property itself. -/
def propPermitted : Property → Prop
  | .shorthandDefault _ _ | .getter _ _ _ | .setter _ _ _ _ => False
  | _ => True

/-- What plain code asks of a statement itself. -/
def stmtPermitted : Stmt → Prop
  | .classDecl _ _ _ => False
  | .loopIn head _ _ | .loopOf head _ _ => PlainHead head
  | _ => True

/-- What plain code asks of a piece of code itself. -/
def Phrase.Permitted (isHelper : Text → Bool) : Phrase → Prop
  | .expr e => exprPermitted e
  | .callee e => calleePermitted isHelper e
  | .key _ | .pat _ => True
  | .prop p => propPermitted p
  | .stmt s => stmtPermitted s

/-- Code without the constructs that the table does not describe. -/
inductive Plain (isHelper : Text → Bool) : Phrase → Prop where
  | mk {s : Phrase} (here : s.Permitted isHelper)
    (inner : ∀ p ∈ s.parts, Plain isHelper p.phrase) : Plain isHelper s

theorem plain_iff (isHelper : Text → Bool) (s : Phrase) :
    Plain isHelper s ↔ s.Permitted isHelper ∧ ∀ p ∈ s.parts, Plain isHelper p.phrase :=
  ⟨fun | .mk here inner => ⟨here, inner⟩, fun ⟨here, inner⟩ => .mk here inner⟩

end TemplateCompiler.Resolve
