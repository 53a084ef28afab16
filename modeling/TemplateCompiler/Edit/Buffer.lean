import TemplateCompiler.Text.Basic

/-!
# Edits over a source text

Editing never changes the source in place. It records insertions and overwrites against byte
offsets of the source, and the text of any range is read with all the edits applied.

An insertion belongs to one of the two chunks that meet at its offset: a *right* insertion to the
chunk that starts there, a *left* insertion to the chunk that ends there. Insertions of one side at
one offset stand in the order in which they were recorded.

Both kinds of edits are kept as lists sorted by offset, so a buffer is determined by what was recorded
at each offset and not by the order of recording at different ones.

## What this module delivers

* `EditBuffer`, `EditFault`: the buffer, and the reasons for which an operation is refused.
* `insertRight`, `insertLeft`, `overwrite`, `remove`: recording an edit.
* `slice`, `edited`: reading a range, or everything, with the edits applied.
-/

set_option autoImplicit false

namespace TemplateCompiler

/-- Why an edit or a read is refused. -/
inductive EditFault where
  /-- An offset after the end of the source, or a range whose end is before its start. -/
  | outOfRange
  /-- An overwrite that meets one recorded before. -/
  | overlap
  /-- A read that would cut a character. -/
  | insideCharacter
deriving DecidableEq, Repr

/-- Inserted texts by offset, in increasing order of the offsets. -/
abbrev Insertions := List (Nat × Text)

namespace Insertions

/-- Adds a text at an offset, after the texts that are already there. -/
def add (offset : Nat) (text : Text) : Insertions → Insertions
  | [] => [(offset, text)]
  | (k, t) :: rest =>
    if offset < k then (offset, text) :: (k, t) :: rest
    else if offset = k then (k, t ++ text) :: rest
    else (k, t) :: add offset text rest

/-- The text at an offset, empty if nothing was inserted there. -/
def textAt (offset : Nat) : Insertions → Text
  | [] => []
  | (k, t) :: rest => if offset = k then t else textAt offset rest

/-- The first offset after `pos` where something was inserted. -/
def nextAfter (pos : Nat) : Insertions → Option Nat
  | [] => none
  | (k, _) :: rest => if pos < k then some k else nextAfter pos rest

end Insertions

/-- The replacement of the non-empty range from `start` up to `stop`. -/
structure Overwrite where
  start : Nat
  stop : Nat
  text : Text
deriving DecidableEq, Repr

namespace Overwrite

/-- Adds an overwrite to a list sorted by start. -/
def insert (o : Overwrite) : List Overwrite → List Overwrite
  | [] => [o]
  | p :: rest => if o.start < p.start then o :: p :: rest else p :: insert o rest

/-- The overwrite that starts at an offset. -/
def startingAt? (offset : Nat) : List Overwrite → Option Overwrite
  | [] => none
  | o :: rest => if o.start = offset then some o else startingAt? offset rest

/-- The last overwrite that starts before an offset. -/
def lastBefore? (offset : Nat) : List Overwrite → Option Overwrite
  | [] => none
  | o :: rest =>
    if o.start < offset then
      match lastBefore? offset rest with
      | some later => some later
      | none => some o
    else none

/-- The first offset after `pos` where an overwrite starts. -/
def nextAfter (pos : Nat) : List Overwrite → Option Nat
  | [] => none
  | o :: rest => if pos < o.start then some o.start else nextAfter pos rest

end Overwrite

/-- A source text with the edits recorded on it. -/
structure EditBuffer where
  /-- The source text. -/
  source : Text
  /-- Insertions that belong to the chunk ending at their offset. -/
  left : Insertions
  /-- Insertions that belong to the chunk starting at their offset. -/
  right : Insertions
  /-- Replaced ranges, sorted by start. -/
  overwrites : List Overwrite
deriving DecidableEq, Repr

namespace EditBuffer

/-- A source text without edits. -/
def ofText (source : Text) : EditBuffer :=
  ⟨source, [], [], []⟩

/-- Length of the source in bytes. -/
def length (b : EditBuffer) : Nat :=
  Text.byteLength b.source

/-! ## Recording -/

/-- Inserts a text at an offset, as a part of the chunk that starts there. -/
def insertRight (b : EditBuffer) (offset : Nat) (text : Text) : Except EditFault EditBuffer :=
  if offset ≤ b.length then .ok { b with right := b.right.add offset text }
  else .error .outOfRange

/-- Inserts a text at an offset, as a part of the chunk that ends there. -/
def insertLeft (b : EditBuffer) (offset : Nat) (text : Text) : Except EditFault EditBuffer :=
  if offset ≤ b.length then .ok { b with left := b.left.add offset text }
  else .error .outOfRange

/-- Whether the last overwrite that starts before `stop` reaches behind `start`. The recorded ones
are disjoint, so no earlier one needs a look. -/
def meetsOverwrite (b : EditBuffer) (start stop : Nat) : Bool :=
  match Overwrite.lastBefore? stop b.overwrites with
  | some o => decide (start < o.stop)
  | none => false

/-- Replaces a range. Replacing an empty range is a right insertion. -/
def overwrite (b : EditBuffer) (start stop : Nat) (text : Text) : Except EditFault EditBuffer :=
  if start ≤ stop ∧ stop ≤ b.length then
    if start = stop then b.insertRight start text
    else if b.meetsOverwrite start stop then .error .overlap
    else .ok { b with overwrites := Overwrite.insert ⟨start, stop, text⟩ b.overwrites }
  else .error .outOfRange

/-- Removes a range. -/
def remove (b : EditBuffer) (start stop : Nat) : Except EditFault EditBuffer :=
  b.overwrite start stop []

/-! ## Reading -/

/-- The first offset after `pos` where an edit is anchored, or the end of the source. -/
def nextEditAfter (b : EditBuffer) (pos : Nat) : Nat :=
  let anchors := [b.left.nextAfter pos, b.right.nextAfter pos, Overwrite.nextAfter pos b.overwrites]
  (anchors.filterMap id).foldl min b.length

/-- The text from `pos` up to `stop` of a range that starts at `start`. Left insertions at the start
of the range belong to the chunk before it, right insertions at its end to the chunk after it.
Every step moves `pos` forward, so `stop - pos + 1` steps are enough. -/
def sliceFrom (b : EditBuffer) (start stop : Nat) : Nat → Nat → Except EditFault Text
  | 0, _ => .ok []
  | steps + 1, pos =>
    let before := if start < pos then b.left.textAt pos else []
    if stop ≤ pos then .ok before
    else
      let inserted := before ++ b.right.textAt pos
      match Overwrite.startingAt? pos b.overwrites with
      | some o => do
        let rest ← b.sliceFrom start stop steps (min o.stop stop)
        return inserted ++ o.text ++ rest
      | none =>
        let next := min (b.nextEditAfter pos) stop
        match Text.slice? pos next b.source with
        | none => .error .insideCharacter
        | some kept => do
          let rest ← b.sliceFrom start stop steps next
          return inserted ++ kept ++ rest

/-- The text of a range with all the edits applied. -/
def slice (b : EditBuffer) (start stop : Nat) : Except EditFault Text :=
  if start ≤ stop ∧ stop ≤ b.length then b.sliceFrom start stop (stop - start + 1) start
  else .error .outOfRange

/-- The whole text with all the edits applied. -/
def edited (b : EditBuffer) : Except EditFault Text :=
  b.slice 0 b.length

end EditBuffer

end TemplateCompiler
