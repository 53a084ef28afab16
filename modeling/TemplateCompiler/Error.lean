import TemplateCompiler.Edit.Buffer
import TemplateCompiler.Template.Fault

/-!
# Errors of a compilation

A compilation fails for one of three reasons that the user can mend: the template is malformed, its
script or style is not supported, or a construct cannot be rendered. A fourth one, a refused edit,
would be a mistake of the compiler itself.

## What this module delivers

* `ScriptFault`, `ScriptError`: what can be wrong with a script or style.
* `RenderError`: a construct that cannot be rendered.
* `CompileError`: every failure, with `CompileError.message` and `CompileError.span?`.
-/

set_option autoImplicit false

namespace TemplateCompiler

/-- What can be wrong with a script or style. -/
inductive ScriptFault where
  /-- The template has a style. -/
  | unsupportedStyle
  /-- The default export is not a plain object. -/
  | invalidDefaultExport
  /-- A property of the default export does not have the expected shape. -/
  | invalidProperty (name : Text)
  /-- Everything of another module is exported. -/
  | unsupportedExport
deriving DecidableEq, Repr

/-- A fault of a script in words. -/
def ScriptFault.message : ScriptFault → Text
  | .unsupportedStyle => "CSS is not supported".toList
  | .invalidDefaultExport =>
    "default export must be an object literal without spread elements or computed keys".toList
  | .invalidProperty name =>
    "`".toList ++ name ++ "` property of the default export has an unsupported shape".toList
  | .unsupportedExport => "`export *` is not supported".toList

/-- A fault of a script with the span it concerns. -/
structure ScriptError where
  fault : ScriptFault
  span : Span
deriving DecidableEq, Repr

/-- A construct that cannot be rendered: a component with children. -/
structure RenderError where
  span : Span
deriving DecidableEq, Repr

/-- A construct that cannot be rendered, in words. -/
def RenderError.message (_ : RenderError) : Text :=
  "not implemented: component children".toList

/-- Why a compilation fails. -/
inductive CompileError where
  | template (e : TemplateError)
  | script (e : ScriptError)
  | render (e : RenderError)
  /-- A refused edit: a mistake of the compiler and not of the template. -/
  | edit (fault : EditFault)
deriving DecidableEq, Repr

namespace CompileError

/-- The cause of an error in words, without the stage it comes from. -/
def cause : CompileError → Text
  | .template e => e.message
  | .script e => e.fault.message
  | .render e => e.message
  | .edit _ => "edit refused".toList

/-- An error in words. -/
def message : CompileError → Text
  | e@(.template _) => "parse error: ".toList ++ e.cause
  | e@(.script _) => "script error: ".toList ++ e.cause
  | e@(.render _) => "codegen error: ".toList ++ e.cause
  | e@(.edit _) => "internal error: ".toList ++ e.cause

/-- The span that an error concerns. A mistake of the compiler has none. -/
def span? : CompileError → Option Span
  | .template e => some e.span
  | .script e => some e.span
  | .render e => some e.span
  | .edit _ => none

end CompileError

/-- The outcome of a template stage as one of the compilation. -/
def ofTemplate {α : Type} : Except TemplateError α → Except CompileError α
  | .ok a => .ok a
  | .error e => .error (.template e)

/-- The outcome of a script stage as one of the compilation. -/
def ofScript {α : Type} : Except ScriptError α → Except CompileError α
  | .ok a => .ok a
  | .error e => .error (.script e)

/-- The outcome of a rendering stage as one of the compilation. -/
def ofRender {α : Type} : Except RenderError α → Except CompileError α
  | .ok a => .ok a
  | .error e => .error (.render e)

/-- The outcome of an edit as one of the compilation. -/
def ofEdit {α : Type} : Except EditFault α → Except CompileError α
  | .ok a => .ok a
  | .error f => .error (.edit f)

end TemplateCompiler
