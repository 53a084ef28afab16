/-!
# Spans

A span is a range of byte offsets of the source, its end excluded. Messages count offsets from one.

## What this module delivers

* `Span`, and `Span.lo`, `Span.hi`: its ends as they are shown to the user.
-/

set_option autoImplicit false

namespace TemplateCompiler

/-- The range of byte offsets from `start` up to `stop`. -/
structure Span where
  start : Nat
  stop : Nat
deriving DecidableEq, Repr

namespace Span

/-- The start of a span as it is shown, counted from one. -/
def lo (s : Span) : Nat := s.start + 1

/-- The end of a span as it is shown, counted from one. -/
def hi (s : Span) : Nat := s.stop + 1

end Span

end TemplateCompiler
