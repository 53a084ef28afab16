import TemplateCompiler.Edit.Buffer
import TemplateCompiler.Render.Fragment
import TemplateCompiler.Text.Position

/-!
# Composing fragments

The fragments are joined to one text. For every range of the source a segment tells where it came to
stand.

## What this module delivers

* `Segment`: a range of the code and the range of the source it comes from, with their positions.
* `compose`: the code of some fragments, and its segments.
-/

set_option autoImplicit false

namespace TemplateCompiler

/-- A range of the code and the range of the source it comes from. -/
structure Segment where
  generated : Span
  source : Span
  generatedPosition : Position
  sourcePosition : Position
deriving DecidableEq, Repr

/-- Code with its segments in order. -/
structure Composed where
  code : Text
  segments : List Segment
deriving DecidableEq, Repr

/-- The code of some fragments that come to stand at an offset and position. `starts` are the offsets
at which the lines of the source start. -/
def composeFrom (edits : EditBuffer) (starts : Array Nat) :
    Nat → Position → List Fragment → Except EditFault Composed
  | _, _, [] => .ok ⟨[], []⟩
  | offset, pos, .text t :: rest => do
    let r ← composeFrom edits starts (offset + Text.byteLength t) (pos.advance t) rest
    return ⟨t ++ r.code, r.segments⟩
  | offset, pos, .slice range :: rest => do
    let t ← edits.slice range.start range.stop
    let stop := offset + Text.byteLength t
    let r ← composeFrom edits starts stop (pos.advance t) rest
    return ⟨t ++ r.code,
      ⟨⟨offset, stop⟩, range, pos, positionAt starts range.start⟩ :: r.segments⟩

/-- The code of some fragments, with all the edits applied. -/
def compose (edits : EditBuffer) (fragments : List Fragment) : Except EditFault Composed :=
  composeFrom edits (lineStarts edits.source) 0 ⟨0, 0⟩ fragments

end TemplateCompiler
