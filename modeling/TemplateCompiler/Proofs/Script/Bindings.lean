import TemplateCompiler.Script.Binding

/-!
# What it is to bind a name

Which names patterns and declarations bind, said by rules and not by lists. A pattern binds the names
at its leaves. A `var` binds a name for the function around it, through any statements but not through
a function or a class; the other declarations bind a name for the statements they stand among.

## What this module delivers

* `Pat.Binds`, `mem_boundNames_iff`: the names of patterns.
* `Stmt.HoistsVar`, `mem_hoistedNames_iff`: the names of `var`s.
* `Stmt.Declares`, `mem_lexicalNames_iff`: the names of the other declarations.
-/

set_option autoImplicit false

namespace TemplateCompiler.Script

/-! ## Patterns -/

/-- A pattern binds a name that is a leaf of it, behind defaults and rests. -/
inductive Pat.Binds : Pat → Text → Prop where
  | ident (id : Ident) : Binds (.ident id) id.name
  | array {items : List Pat} {p : Pat} {x : Text} (hp : p ∈ items) (h : Binds p x) :
    Binds (.array items) x
  | object {props : List Pat} {p : Pat} {x : Text} (hp : p ∈ props) (h : Binds p x) :
    Binds (.object props) x
  | property {key : Key} {target : Pat} {x : Text} (h : Binds target x) :
    Binds (.property key target) x
  | withDefault {target : Pat} {value : Expr} {x : Text} (h : Binds target x) :
    Binds (.withDefault target value) x
  | rest {target : Pat} {x : Text} (h : Binds target x) : Binds (.rest target) x

mutual

theorem mem_boundNames_iff {x : Text} : (p : Pat) → (x ∈ p.boundNames ↔ p.Binds x)
  | .ident id => by
    rw [Pat.boundNames, List.mem_singleton]
    constructor
    · rintro rfl
      exact .ident id
    · rintro ⟨⟩
      rfl
  | .omitted => ⟨nofun, nofun⟩
  | .array items => by
    rw [Pat.boundNames, mem_patsBoundNames_iff items]
    constructor
    · rintro ⟨p, hp, h⟩
      exact .array hp h
    · rintro (_ | ⟨hp, h⟩)
      exact ⟨_, hp, h⟩
  | .object props => by
    rw [Pat.boundNames, mem_patsBoundNames_iff props]
    constructor
    · rintro ⟨p, hp, h⟩
      exact .object hp h
    · intro h
      cases h with
      | object hp h => exact ⟨_, hp, h⟩
  | .property key target => by
    rw [Pat.boundNames, mem_boundNames_iff target]
    exact ⟨.property, fun | .property h => h⟩
  | .withDefault target value => by
    rw [Pat.boundNames, mem_boundNames_iff target]
    exact ⟨.withDefault, fun | .withDefault h => h⟩
  | .rest target => by
    rw [Pat.boundNames, mem_boundNames_iff target]
    exact ⟨.rest, fun | .rest h => h⟩
  | .expr e => ⟨nofun, nofun⟩

theorem mem_patsBoundNames_iff {x : Text} :
    (ps : List Pat) → (x ∈ patsBoundNames ps ↔ ∃ p ∈ ps, p.Binds x)
  | [] => ⟨nofun, nofun⟩
  | p :: ps => by
    rw [patsBoundNames, List.mem_append, mem_boundNames_iff p, mem_patsBoundNames_iff ps]
    simp

end

/-- A declared pattern binds a name. -/
def Declarator.Binds : Declarator → Text → Prop
  | .mk target _, x => target.Binds x

theorem mem_declaratorNames_iff {x : Text} (decls : List Declarator) :
    x ∈ declaratorNames decls ↔ ∃ d ∈ decls, d.Binds x := by
  induction decls with
  | nil => exact ⟨nofun, nofun⟩
  | cons d decls ih =>
    obtain ⟨target, init⟩ := d
    rw [declaratorNames, List.mem_append, mem_boundNames_iff target, ih]
    simp [Declarator.Binds]

/-! ## Declarations of a function -/

/-- The patterns that a statement itself declares with `var`, in the head of a loop included. -/
def Stmt.vars : Stmt → List Declarator
  | .declare .var decls => decls
  | .loop (some (.declare .var decls)) _ _ _ => decls
  | .loopIn (.declared .var decls) _ _ => decls
  | .loopOf (.declared .var decls) _ _ => decls
  | _ => []

/-- The statements of a handler. -/
def Handler.body : Handler → List Stmt
  | .absent => []
  | .plain body => body
  | .binding _ body => body

/-- The statements of a case. -/
def Case.body : Case → List Stmt
  | .mk _ body => body

/-- The statements directly inside of a statement; those of functions and classes are not inside. -/
def Stmt.inner : Stmt → List Stmt
  | .block body => body
  | .branch _ yes no => yes :: no.toList
  | .loop _ _ _ body | .loopIn _ _ body | .loopOf _ _ body => [body]
  | .loopWhile _ body | .loopUntil body _ | .labeled _ body | .within _ body => [body]
  | .guarded body handler finalizer => body ++ handler.body ++ finalizer.toList
  | .switch _ cases => cases.flatMap Case.body
  | _ => []

/-- A statement binds a name for the function around it: there is a `var` of it somewhere inside. -/
inductive Stmt.HoistsVar : Stmt → Text → Prop where
  | here {s : Stmt} {d : Declarator} {x : Text} (hd : d ∈ s.vars) (h : d.Binds x) : HoistsVar s x
  | inner {s t : Stmt} {x : Text} (ht : t ∈ s.inner) (h : HoistsVar t x) : HoistsVar s x

theorem hoistsVar_iff {s : Stmt} {x : Text} :
    s.HoistsVar x ↔ (∃ d ∈ s.vars, d.Binds x) ∨ ∃ t ∈ s.inner, t.HoistsVar x := by
  constructor
  · rintro (⟨hd, h⟩ | ⟨ht, h⟩)
    · exact .inl ⟨_, hd, h⟩
    · exact .inr ⟨_, ht, h⟩
  · rintro (⟨d, hd, h⟩ | ⟨t, ht, h⟩)
    · exact .here hd h
    · exact .inner ht h

theorem mem_hoistedDeclaration_iff {kind : DeclKind} {decls : List Declarator} {x : Text} :
    x ∈ hoistedDeclaration kind decls ↔ kind = .var ∧ ∃ d ∈ decls, d.Binds x := by
  cases kind with
  | var => simp [hoistedDeclaration, mem_declaratorNames_iff]
  | letKind => simp [hoistedDeclaration]
  | const => simp [hoistedDeclaration]

theorem not_hoistsVar {s : Stmt} {x : Text} (hvars : s.vars = []) (hinner : s.inner = []) :
    ¬ s.HoistsVar x := by
  rw [hoistsVar_iff, hvars, hinner]
  rintro (⟨d, hd, -⟩ | ⟨t, ht, -⟩)
  · cases hd
  · cases ht

theorem mem_hoistedStart_iff {head : Option Stmt} {test step : Option Expr} {body : Stmt} {x : Text} :
    x ∈ hoistedStart head ↔ ∃ d ∈ (Stmt.loop head test step body).vars, d.Binds x := by
  cases head with
  | none => exact ⟨nofun, nofun⟩
  | some s =>
    cases s with
    | declare kind decls =>
      rw [hoistedStart, mem_hoistedDeclaration_iff]
      cases kind <;> simp [Stmt.vars]
    | _ => exact ⟨nofun, nofun⟩

theorem mem_hoistedHead_iff {head : LoopHead} {x : Text} :
    x ∈ hoistedHead head ↔ ∃ decls, head = .declared .var decls ∧ ∃ d ∈ decls, d.Binds x := by
  cases head with
  | declared kind decls =>
    rw [hoistedHead, mem_hoistedDeclaration_iff]
    cases kind <;> simp
  | target pat => exact ⟨nofun, nofun⟩

mutual

theorem mem_stmtHoistedNames_iff {x : Text} : (s : Stmt) → (x ∈ s.hoistedNames ↔ s.HoistsVar x)
  | .declare kind decls => by
    rw [hoistsVar_iff, Stmt.hoistedNames, mem_hoistedDeclaration_iff]
    cases kind <;> simp [Stmt.vars, Stmt.inner]
  | .block body => by
    rw [hoistsVar_iff, Stmt.hoistedNames, mem_hoistedNames_iff body]
    simp [Stmt.vars, Stmt.inner]
  | .branch test yes no => by
    rw [hoistsVar_iff, Stmt.hoistedNames, List.mem_append, mem_stmtHoistedNames_iff yes,
      mem_optionHoistedNames_iff no]
    simp [Stmt.vars, Stmt.inner]
  | .loop head test step body => by
    rw [hoistsVar_iff, Stmt.hoistedNames, List.mem_append, mem_stmtHoistedNames_iff body,
      ← mem_hoistedStart_iff]
    simp [Stmt.inner]
  | .loopIn head object body => by
    rw [hoistsVar_iff, Stmt.hoistedNames, List.mem_append, mem_stmtHoistedNames_iff body,
      mem_hoistedHead_iff]
    rcases head with ⟨⟨⟩, decls⟩ | pat
    all_goals simp [Stmt.vars, Stmt.inner]
  | .loopOf head iterable body => by
    rw [hoistsVar_iff, Stmt.hoistedNames, List.mem_append, mem_stmtHoistedNames_iff body,
      mem_hoistedHead_iff]
    rcases head with ⟨⟨⟩, decls⟩ | pat
    all_goals simp [Stmt.vars, Stmt.inner]
  | .loopWhile test body => by
    rw [hoistsVar_iff, Stmt.hoistedNames, mem_stmtHoistedNames_iff body]
    simp [Stmt.vars, Stmt.inner]
  | .loopUntil body test => by
    rw [hoistsVar_iff, Stmt.hoistedNames, mem_stmtHoistedNames_iff body]
    simp [Stmt.vars, Stmt.inner]
  | .labeled label body => by
    rw [hoistsVar_iff, Stmt.hoistedNames, mem_stmtHoistedNames_iff body]
    simp [Stmt.vars, Stmt.inner]
  | .within object body => by
    rw [hoistsVar_iff, Stmt.hoistedNames, mem_stmtHoistedNames_iff body]
    simp [Stmt.vars, Stmt.inner]
  | .guarded body handler finalizer => by
    rw [hoistsVar_iff, Stmt.hoistedNames, List.mem_append, List.mem_append,
      mem_hoistedNames_iff body, mem_handlerHoistedNames_iff handler,
      mem_optionHoistedNames_iff finalizer]
    simp [Stmt.vars, Stmt.inner, or_and_right, exists_or, or_assoc]
  | .switch subject cases => by
    rw [hoistsVar_iff, Stmt.hoistedNames, mem_casesHoistedNames_iff cases]
    simp only [Stmt.vars, Stmt.inner, List.mem_flatMap]
    constructor
    · rintro ⟨c, hc, t, ht, h⟩
      exact .inr ⟨t, ⟨c, hc, ht⟩, h⟩
    · rintro (⟨d, hd, -⟩ | ⟨t, ⟨c, hc, ht⟩, h⟩)
      · cases hd
      · exact ⟨c, hc, t, ht, h⟩
  | .empty => ⟨nofun, fun h => absurd h (not_hoistsVar rfl rfl)⟩
  | .debugger => ⟨nofun, fun h => absurd h (not_hoistsVar rfl rfl)⟩
  | .expr _ => ⟨nofun, fun h => absurd h (not_hoistsVar rfl rfl)⟩
  | .function _ _ _ => ⟨nofun, fun h => absurd h (not_hoistsVar rfl rfl)⟩
  | .classDecl _ _ _ => ⟨nofun, fun h => absurd h (not_hoistsVar rfl rfl)⟩
  | .result _ => ⟨nofun, fun h => absurd h (not_hoistsVar rfl rfl)⟩
  | .raise _ => ⟨nofun, fun h => absurd h (not_hoistsVar rfl rfl)⟩
  | .jump _ => ⟨nofun, fun h => absurd h (not_hoistsVar rfl rfl)⟩

theorem mem_hoistedNames_iff {x : Text} :
    (body : List Stmt) → (x ∈ hoistedNames body ↔ ∃ s ∈ body, s.HoistsVar x)
  | [] => ⟨nofun, nofun⟩
  | s :: rest => by
    rw [hoistedNames, List.mem_append, mem_stmtHoistedNames_iff s, mem_hoistedNames_iff rest]
    simp

theorem mem_optionHoistedNames_iff {x : Text} :
    (s : Option Stmt) → (x ∈ optionHoistedNames s ↔ ∃ t ∈ s.toList, t.HoistsVar x)
  | none => ⟨nofun, nofun⟩
  | some s => by
    rw [optionHoistedNames, mem_stmtHoistedNames_iff s]
    simp

theorem mem_handlerHoistedNames_iff {x : Text} :
    (handler : Handler) → (x ∈ handler.hoistedNames ↔ ∃ s ∈ handler.body, s.HoistsVar x)
  | .absent => ⟨nofun, nofun⟩
  | .plain body => mem_hoistedNames_iff body
  | .binding _ body => mem_hoistedNames_iff body

theorem mem_casesHoistedNames_iff {x : Text} :
    (cases : List Case) → (x ∈ casesHoistedNames cases ↔ ∃ c ∈ cases, ∃ s ∈ c.body, s.HoistsVar x)
  | [] => ⟨nofun, nofun⟩
  | .mk test body :: cases => by
    rw [casesHoistedNames, List.mem_append, mem_hoistedNames_iff body,
      mem_casesHoistedNames_iff cases]
    simp [Case.body]

end

/-- A `var` is hoisted out of a block, and a `let` is not. -/
example : (Stmt.block [.declare .var [.mk (.ident ⟨"a".toList, ⟨0, 1⟩⟩) none],
    .declare .letKind [.mk (.ident ⟨"b".toList, ⟨0, 1⟩⟩) none]]).hoistedNames = ["a".toList] := by
  decide +kernel

/-! ## Declarations of a block -/

/-- A statement binds a name for the statements it stands among. -/
inductive Stmt.Declares : Stmt → Text → Prop where
  | declare {kind : DeclKind} {decls : List Declarator} {d : Declarator} {x : Text}
    (hkind : kind ≠ .var) (hd : d ∈ decls) (h : d.Binds x) : Declares (.declare kind decls) x
  | function (id : Ident) (params : List Pat) (body : List Stmt) :
    Declares (.function id params body) id.name
  | classDecl (id : Ident) (heritage : Option Expr) (members : List Member) :
    Declares (.classDecl id heritage members) id.name

theorem mem_lexicalDeclaration_iff {kind : DeclKind} {decls : List Declarator} {x : Text} :
    x ∈ lexicalDeclaration kind decls ↔ kind ≠ .var ∧ ∃ d ∈ decls, d.Binds x := by
  cases kind with
  | var => simp [lexicalDeclaration]
  | letKind => simp [lexicalDeclaration, mem_declaratorNames_iff]
  | const => simp [lexicalDeclaration, mem_declaratorNames_iff]

theorem mem_stmtLexicalNames_iff {s : Stmt} {x : Text} : x ∈ s.lexicalNames ↔ s.Declares x := by
  cases s with
  | declare kind decls =>
    rw [Stmt.lexicalNames, mem_lexicalDeclaration_iff]
    constructor
    · rintro ⟨hkind, d, hd, h⟩
      exact .declare hkind hd h
    · rintro ⟨hkind, hd, h⟩
      exact ⟨hkind, _, hd, h⟩
  | function id params body =>
    rw [Stmt.lexicalNames, List.mem_singleton]
    constructor
    · rintro rfl
      exact .function id params body
    · rintro ⟨⟩
      rfl
  | classDecl id heritage members =>
    rw [Stmt.lexicalNames, List.mem_singleton]
    constructor
    · rintro rfl
      exact .classDecl id heritage members
    · rintro ⟨⟩
      rfl
  | _ => exact ⟨nofun, nofun⟩

theorem mem_lexicalNames_iff {body : List Stmt} {x : Text} :
    x ∈ lexicalNames body ↔ ∃ s ∈ body, s.Declares x := by
  induction body with
  | nil => exact ⟨nofun, nofun⟩
  | cons s rest ih =>
    rw [lexicalNames, List.mem_append, mem_stmtLexicalNames_iff, ih]
    simp

theorem mem_casesLexicalNames_iff {cases : List Case} {x : Text} :
    x ∈ casesLexicalNames cases ↔ ∃ c ∈ cases, ∃ s ∈ c.body, s.Declares x := by
  induction cases with
  | nil => exact ⟨nofun, nofun⟩
  | cons c cases ih =>
    obtain ⟨test, body⟩ := c
    rw [casesLexicalNames, List.mem_append, mem_lexicalNames_iff, ih]
    simp [Case.body]

end TemplateCompiler.Script
