import TemplateCompiler.Span
import TemplateCompiler.Text.Basic

/-!
# Faults of templates

## What this module delivers

* `TemplateFault`: what can be wrong with a template, and `TemplateFault.message` in words.
* `TemplateError`: a fault with the span it concerns.
-/

set_option autoImplicit false

namespace TemplateCompiler

/-- What can be wrong with a template. -/
inductive TemplateFault where
  /-- An expression or the script does not follow the grammar of scripts. -/
  | malformedScript
  /-- An expression ends before its place does. -/
  | trailingContent
  | unclosedMustache
  | unclosedComment
  | unclosedElement (name : Text)
  | unclosedBlock (name : Text)
  | unexpectedClosingTag (name : Text)
  | unexpectedBlockClose (name : Text)
  /-- An alternative outside of a conditional block. -/
  | unexpectedElse
  | unknownBlock (name : Text)
  | malformedEachHeader
  | invalidBindingName (name : Text)
  /-- A malformed tag or attribute. -/
  | malformedTag
  | unclosedAttributeValue
  /-- A script or style inside of an element or block. -/
  | nestedRawElement (name : Text)
  | duplicateScript
  | duplicateStyle
  | duplicateAttribute (name : Text)
  | duplicateBinding (name : Text)
  /-- A block binds a name that the generated code relies on. -/
  | reservedName (name : Text)
  | duplicateDefaultExport
  /-- The grammar of scripts placed an expression outside of the text it was read from. -/
  | strayExpression
deriving DecidableEq, Repr

/-- A fault in words. -/
def TemplateFault.message : TemplateFault → Text
  | .malformedScript => "malformed script".toList
  | .trailingContent => "unexpected content after the expression".toList
  | .unclosedMustache => "unclosed mustache tag".toList
  | .unclosedComment => "unclosed comment".toList
  | .unclosedElement name => "<".toList ++ name ++ "> was left open".toList
  | .unclosedBlock name => "\x7b\x7b#".toList ++ name ++ "\x7d\x7d block was left open".toList
  | .unexpectedClosingTag name =>
    "</".toList ++ name ++ "> attempted to close an element that was not open".toList
  | .unexpectedBlockClose name =>
    "\x7b\x7b/".toList ++ name ++ "\x7d\x7d attempted to close a block that was not open".toList
  | .unexpectedElse => "\x7b\x7belse\x7d\x7d outside of an \x7b\x7b#if\x7d\x7d block".toList
  | .unknownBlock name => "unknown block type \x7b\x7b#".toList ++ name ++ "\x7d\x7d".toList
  | .malformedEachHeader =>
    "expected \x7b\x7b#each expression as item\x7d\x7d or ".toList
      ++ "\x7b\x7b#each expression as item, index\x7d\x7d".toList
  | .invalidBindingName name => "'".toList ++ name ++ "' is not a valid binding name".toList
  | .malformedTag => "invalid tag or attribute syntax".toList
  | .unclosedAttributeValue => "unclosed attribute value".toList
  | .nestedRawElement name =>
    "<".toList ++ name ++ "> tags are only supported at the top level".toList
  | .duplicateScript => "a template can only have one <script> tag".toList
  | .duplicateStyle => "a template can only have one <style> tag".toList
  | .duplicateAttribute name =>
    "attribute '".toList ++ name ++ "' is specified more than once".toList
  | .duplicateBinding name =>
    "'".toList ++ name ++ "' is bound more than once by the same block".toList
  | .reservedName name =>
    "'".toList ++ name ++ "' is reserved and cannot be used as a block binding".toList
  | .duplicateDefaultExport => "a component can only have one default export".toList
  | .strayExpression => "expression outside of its text".toList

/-- A fault with the span it concerns. -/
structure TemplateError where
  fault : TemplateFault
  span : Span
deriving DecidableEq, Repr

/-- An error in words: the fault, and its span with offsets counted from one. -/
def TemplateError.message (e : TemplateError) : Text :=
  e.fault.message ++ " at ".toList ++ Text.ofNat e.span.lo ++ "..".toList ++ Text.ofNat e.span.hi

end TemplateCompiler
