import TemplateCompiler.Span
import TemplateCompiler.Text.Basic

/-!
# Fragments

Generated code is a list of fragments. What comes from the source is referred to by its range, and
read only when all the edits are known.

## What this module delivers

* `Fragment`: generated text, or a range of the source.
-/

set_option autoImplicit false

namespace TemplateCompiler

/-- A piece of generated code. -/
inductive Fragment where
  | text (t : Text)
  /-- A range of the source, read with all the edits applied. -/
  | slice (range : Span)
deriving DecidableEq, Repr

/-- A fragment of text. -/
abbrev Fragment.ofString (s : String) : Fragment := .text s.toList

end TemplateCompiler
