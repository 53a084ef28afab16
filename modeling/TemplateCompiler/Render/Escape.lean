import TemplateCompiler.Text.Basic

/-!
# Text in template literals

The generated code holds the text of a template between backquotes. What would end the literal, open a
hole in it or start an escape is written with a backslash; inside of an attribute value a double quote
is written as a character reference.

## What this module delivers

* `escapeLiteral`: text for a template literal.
* `escapeAttribute`: text for an attribute value in a template literal.
-/

set_option autoImplicit false

namespace TemplateCompiler

/-- Text for a template literal. A dollar sign is written with a backslash only in front of a brace. -/
def escapeLiteral : Text → Text
  | [] => []
  | '\\' :: t => '\\' :: '\\' :: escapeLiteral t
  | '\x60' :: t => '\\' :: '\x60' :: escapeLiteral t
  | '$' :: '\x7b' :: t => '\\' :: '$' :: '\x7b' :: escapeLiteral t
  | c :: t => c :: escapeLiteral t

/-- The reference for a double quote. -/
def quoteReference : Text := "&quot;".toList

/-- Text for an attribute value in a template literal. -/
def escapeAttribute : Text → Text
  | [] => []
  | '\\' :: t => '\\' :: '\\' :: escapeAttribute t
  | '\x60' :: t => '\\' :: '\x60' :: escapeAttribute t
  | '$' :: '\x7b' :: t => '\\' :: '$' :: '\x7b' :: escapeAttribute t
  | '"' :: t => quoteReference ++ escapeAttribute t
  | c :: t => c :: escapeAttribute t

end TemplateCompiler
