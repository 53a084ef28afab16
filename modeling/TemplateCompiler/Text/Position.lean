import TemplateCompiler.Text.Basic

/-!
# Lines and columns

A position is counted from zero: the line is the number of line feeds before an offset and the
column the number of bytes since the last of them. The position after a text is kept up to date while
the text grows. The position of an offset of a finished text is looked up in a table of the offsets at
which its lines start.

## What this module delivers

* `Position`: a line and a byte column.
* `Position.advance`: the position after a text.
* `lineStarts`: the offsets at which the lines of a text start.
* `search`: looking a number up in a table by halving.
* `lineAt`, `positionAt`: the line and the position of a byte offset.
-/

set_option autoImplicit false

namespace TemplateCompiler

/-- A line and a byte column, both counted from zero. -/
structure Position where
  line : Nat
  column : Nat
deriving DecidableEq, Repr

namespace Position

/-- The position after one more character. -/
def next (p : Position) (c : Char) : Position :=
  if c == '\n' then ⟨p.line + 1, 0⟩ else ⟨p.line, p.column + c.utf8Size⟩

/-- The position after a text. -/
def advance (p : Position) (t : Text) : Position :=
  t.foldl next p

@[simp] theorem advance_nil (p : Position) : p.advance [] = p := rfl

@[simp] theorem advance_append (p : Position) (s t : Text) :
    p.advance (s ++ t) = (p.advance s).advance t := by
  simp [advance]

end Position

/-! ## Looking up positions -/

/-- The offsets behind the line feeds of a text that stands at an offset. -/
def lineStartsFrom : Nat → Text → List Nat
  | _, [] => []
  | offset, c :: t =>
    let after := offset + c.utf8Size
    if c == '\n' then after :: lineStartsFrom after t else lineStartsFrom after t

/-- The offsets at which the lines of a text start, in increasing order. -/
def lineStarts (t : Text) : Array Nat :=
  (0 :: lineStartsFrom 0 t).toArray

/-- Looks a number up between two indices of an increasing table, by halving. The answer is the index
of the number or, if it is missing, the index it would have. Every step makes the part that is left
shorter, so as many steps as it has entries are enough. -/
def searchFrom (table : Array Nat) (x : Nat) : Nat → Nat → Nat → Except Nat Nat
  | 0, lo, _ => .error lo
  | steps + 1, lo, hi =>
    if lo < hi then
      let mid := (lo + hi) / 2
      let y := table.getD mid 0
      if y = x then .ok mid
      else if y < x then searchFrom table x steps (mid + 1) hi
      else searchFrom table x steps lo mid
    else .error lo

/-- Looks a number up in an increasing table. -/
def search (table : Array Nat) (x : Nat) : Except Nat Nat :=
  searchFrom table x table.size 0 table.size

/-- The line of a byte offset, given where the lines start: the last one that starts there or before. -/
def lineAt (starts : Array Nat) (offset : Nat) : Nat :=
  match search starts offset with
  | .ok line => line
  | .error next => next - 1

/-- The position of a byte offset, given where the lines start. -/
def positionAt (starts : Array Nat) (offset : Nat) : Position :=
  let line := lineAt starts offset
  ⟨line, offset - starts.getD line 0⟩

end TemplateCompiler
