import TemplateCompiler.Proofs.Component.Rewriting

/-!
# Reading a linked script again

## What this module delivers

* `readBody`: a text as the body of a function.
* `readBody_mergesStatements`: two statements that become one when the import between them is removed.
-/

set_option autoImplicit false

namespace TemplateCompiler

open Script Text

/-! ## Bodies of functions -/

/-- The surroundings of the statements of a function in strict code, which a module is. -/
def bodyContext : Context := { strict := true, inFunction := true, inOrdinaryFunction := true }

/-- A text as the body of a function, with rules down to a depth. -/
def readBody (depth : Nat) (text : Text) : Option (List Stmt) :=
  run .script 0 text
    (Reader.manyUntil .eof ((level depth).statement bodyContext true) (text.length + 1))

/-! ## Statements that merge -/

/-- Two statements without semicolons, and an import between them. -/
def mergingScript : Text := "a\nimport 'x'\n(b)".toList

/-- Whether some items are a name, an import, and another name in parentheses. -/
def isNameImportParen : List ModuleItem → Bool
  | [.statement _ (.expr (.ident _)), .imports .., .statement _ (.expr (.paren _ (.ident _)))] => true
  | _ => false

/-- Whether some statements are a single call of a name. -/
def isSingleCall : List Stmt → Bool
  | [.expr (.call _ (.ident _) [.ident _])] => true
  | _ => false

/-- Without the import, the two statements are one call. -/
theorem readBody_mergesStatements :
    ((wholeScript mergingScript).any fun block => isNameImportParen block.content.items) = true ∧
      (((wholeScript mergingScript).bind fun block =>
        (linkScript block (.ofText mergingScript)).toOption.bind fun r =>
          (r.2.slice block.span.start block.span.stop).toOption).any fun body =>
            (readBody 20 body).any isSingleCall) = true := by
  decide +kernel

end TemplateCompiler
