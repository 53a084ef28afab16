import TemplateCompiler.Script.Tree

/-!
# Names that patterns and statements bind

A `var` belongs to the function around it, however deeply it is nested in blocks; the other
declarations belong to the block that directly contains them.

## What this module delivers

* `Pat.boundNames`: the names that a pattern binds.
* `hoistedNames`: the names that the `var`s of a function body bind.
* `lexicalNames`: the names that the other declarations of a block bind.
* `Stmt.declaredNames`: the names of a declaration of any kind.
-/

set_option autoImplicit false

namespace TemplateCompiler.Script

/-! ## Patterns -/

mutual

/-- The names that a pattern binds, in order. A target that is an expression binds nothing. -/
def Pat.boundNames : Pat → List Text
  | .ident id => [id.name]
  | .omitted => []
  | .array items => patsBoundNames items
  | .object props => patsBoundNames props
  | .property _ target => target.boundNames
  | .withDefault target _ => target.boundNames
  | .rest target => target.boundNames
  | .expr _ => []

/-- The names that some patterns bind, in order. -/
def patsBoundNames : List Pat → List Text
  | [] => []
  | p :: ps => p.boundNames ++ patsBoundNames ps

end

/-- The names that the patterns of a declaration bind. -/
def declaratorNames : List Declarator → List Text
  | [] => []
  | .mk target _ :: decls => target.boundNames ++ declaratorNames decls

/-! ## Declarations of a function -/

/-- The names that a `var` declaration binds; the other kinds belong to their block. -/
def hoistedDeclaration (kind : DeclKind) (decls : List Declarator) : List Text :=
  match kind with
  | .var => declaratorNames decls
  | .letKind | .const => []

/-- The names that the head of a loop binds for the function around it. -/
def hoistedHead : LoopHead → List Text
  | .declared kind decls => hoistedDeclaration kind decls
  | .target _ => []

/-- The names that the first part of a loop binds for the function around it. -/
def hoistedStart : Option Stmt → List Text
  | some (.declare kind decls) => hoistedDeclaration kind decls
  | _ => []

mutual

/-- The names that the `var`s of a statement bind. Functions and classes in it have their own. -/
def Stmt.hoistedNames : Stmt → List Text
  | .declare kind decls => hoistedDeclaration kind decls
  | .block body => hoistedNames body
  | .branch _ yes no => yes.hoistedNames ++ optionHoistedNames no
  | .loop head _ _ body => hoistedStart head ++ body.hoistedNames
  | .loopIn head _ body => hoistedHead head ++ body.hoistedNames
  | .loopOf head _ body => hoistedHead head ++ body.hoistedNames
  | .loopWhile _ body => body.hoistedNames
  | .loopUntil body _ => body.hoistedNames
  | .labeled _ body => body.hoistedNames
  | .within _ body => body.hoistedNames
  | .guarded body handler finalizer =>
    hoistedNames body ++ handler.hoistedNames ++ optionHoistedNames finalizer
  | .switch _ cases => casesHoistedNames cases
  | _ => []

/-- The names that the `var`s of some statements bind. -/
def hoistedNames : List Stmt → List Text
  | [] => []
  | s :: rest => s.hoistedNames ++ hoistedNames rest

/-- The names that the `var`s of a statement bind, if there is one. -/
def optionHoistedNames : Option Stmt → List Text
  | none => []
  | some s => s.hoistedNames

/-- The names that the `var`s of a handler bind. -/
def Handler.hoistedNames : Handler → List Text
  | .absent => []
  | .plain body => TemplateCompiler.Script.hoistedNames body
  | .binding _ body => TemplateCompiler.Script.hoistedNames body

/-- The names that the `var`s of some cases bind. -/
def casesHoistedNames : List Case → List Text
  | [] => []
  | .mk _ body :: cases => hoistedNames body ++ casesHoistedNames cases

end

/-! ## Declarations of a block -/

/-- The names that a declaration binds for its block; those of a `var` belong to the function. -/
def lexicalDeclaration (kind : DeclKind) (decls : List Declarator) : List Text :=
  match kind with
  | .var => []
  | .letKind | .const => declaratorNames decls

/-- The names that one statement binds for the block that directly contains it. -/
def Stmt.lexicalNames : Stmt → List Text
  | .declare kind decls => lexicalDeclaration kind decls
  | .function id _ _ => [id.name]
  | .classDecl id _ _ => [id.name]
  | _ => []

/-- The names that the statements of a block bind for it. -/
def lexicalNames : List Stmt → List Text
  | [] => []
  | s :: rest => s.lexicalNames ++ lexicalNames rest

/-- The names that the cases of a switch bind for all of them. -/
def casesLexicalNames : List Case → List Text
  | [] => []
  | .mk _ body :: cases => lexicalNames body ++ casesLexicalNames cases

/-- The names that the head of a loop binds for the loop. -/
def lexicalHead : LoopHead → List Text
  | .declared kind decls => lexicalDeclaration kind decls
  | .target _ => []

/-- The names that the first part of a loop binds for the loop. -/
def lexicalStart : Option Stmt → List Text
  | some (.declare kind decls) => lexicalDeclaration kind decls
  | _ => []

/-- The names of a declaration of any kind. -/
def Stmt.declaredNames : Stmt → List Text
  | .declare _ decls => declaratorNames decls
  | .function id _ _ => [id.name]
  | .classDecl id _ _ => [id.name]
  | _ => []

end TemplateCompiler.Script
