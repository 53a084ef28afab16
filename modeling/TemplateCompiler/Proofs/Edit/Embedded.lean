import TemplateCompiler.Proofs.Edit.Locality
import TemplateCompiler.Proofs.Outcome

/-!
# A buffer inside of a longer one

A source with its edits may stand in a longer text, and the edits then stand further on. A range
that can be read in the buffer can be read in the longer one, where it has the same text: neither
what stands before the source nor what stands behind it is looked at.

## What this module delivers

* `Insertions.shift`, `Overwrite.shift`: edits moved by some bytes.
* `EditBuffer.embedded`: a buffer between two texts.
* `EditBuffer.slice_embedded`: a range of a buffer that stands in a longer one.
-/

set_option autoImplicit false

namespace TemplateCompiler

open Text

/-! ## Moved edits -/

namespace Insertions

/-- Insertions moved by some bytes. -/
def shift (k : Nat) (l : Insertions) : Insertions :=
  l.map fun p => (p.1 + k, p.2)

@[simp] theorem shift_cons (k offset : Nat) (text : Text) (l : Insertions) :
    shift k ((offset, text) :: l) = (offset + k, text) :: shift k l := rfl

@[simp] theorem shift_append (k : Nat) (l l' : Insertions) :
    shift k (l ++ l') = shift k l ++ shift k l' :=
  List.map_append

theorem textAt_shift (k offset : Nat) (l : Insertions) :
    (l.shift k).textAt (offset + k) = l.textAt offset := by
  induction l with
  | nil => rfl
  | cons p rest ih =>
    obtain ⟨offset', text⟩ := p
    simp only [shift_cons, textAt, Nat.add_right_cancel_iff, ih]

theorem nextAfter_shift (k pos : Nat) (l : Insertions) :
    (l.shift k).nextAfter (pos + k) = (l.nextAfter pos).map (· + k) := by
  induction l with
  | nil => rfl
  | cons p rest ih =>
    obtain ⟨offset, text⟩ := p
    simp only [shift_cons, nextAfter, Nat.add_lt_add_iff_right, ih]
    split <;> rfl

theorem add_shift (k offset : Nat) (text : Text) (l : Insertions) :
    (l.shift k).add (offset + k) text = (l.add offset text).shift k := by
  induction l with
  | nil => rfl
  | cons p rest ih =>
    obtain ⟨offset', text'⟩ := p
    simp only [shift_cons, add, Nat.add_lt_add_iff_right, Nat.add_right_cancel_iff, ih]
    split
    · rfl
    · split <;> rfl

/-- Moved texts that are added to moved insertions. -/
theorem addAll_shift (k : Nat) (items l : Insertions) :
    (l.shift k).addAll (items.shift k) = (l.addAll items).shift k := by
  induction items generalizing l with
  | nil => rfl
  | cons p items ih =>
    obtain ⟨offset, text⟩ := p
    rw [shift_cons, addAll, List.foldl_cons, add_shift]
    exact ih _

end Insertions

namespace Overwrite

/-- An overwrite moved by some bytes. -/
def shift (k : Nat) (o : Overwrite) : Overwrite := ⟨o.start + k, o.stop + k, o.text⟩

theorem startingAt?_shift (k offset : Nat) (l : List Overwrite) :
    startingAt? (offset + k) (l.map (shift k)) = (startingAt? offset l).map (shift k) := by
  induction l with
  | nil => rfl
  | cons o rest ih =>
    simp only [List.map_cons, startingAt?, shift, Nat.add_right_cancel_iff, ih]
    split <;> rfl

theorem nextAfter_shift (k pos : Nat) (l : List Overwrite) :
    nextAfter (pos + k) (l.map (shift k)) = (nextAfter pos l).map (· + k) := by
  induction l with
  | nil => rfl
  | cons o rest ih =>
    simp only [List.map_cons, nextAfter, shift, Nat.add_lt_add_iff_right, ih]
    split <;> rfl

end Overwrite

/-! ## Ranges of a longer buffer -/

theorem Text.slice?_inner {start stop : Nat} {t m : Text} (h : slice? start stop t = some m)
    (before after : Text) :
    slice? (start + byteLength before) (stop + byteLength before) (before ++ t ++ after) =
      some m := by
  obtain ⟨a, c, rfl, ha, hm⟩ := slice?_eq_some_iff.1 h
  refine slice?_eq_some_iff.2 ⟨before ++ a, c ++ after, ?_, ?_, ?_⟩
  · simp only [List.append_assoc]
  · rw [byteLength_append, ha, Nat.add_comm]
  · omega

namespace EditBuffer

/-- A buffer whose source stands between two texts. -/
def embedded (before after : Text) (b : EditBuffer) : EditBuffer :=
  ⟨before ++ b.source ++ after, b.left.shift (byteLength before), b.right.shift (byteLength before),
    b.overwrites.map (Overwrite.shift (byteLength before))⟩

variable {b : EditBuffer} (before after : Text)

theorem length_embedded :
    (b.embedded before after).length = b.length + byteLength before + byteLength after := by
  simp only [length, embedded, byteLength_append]
  omega

/-- A step of a read comes to the same offset, further on. -/
theorem nextEditAfter_embedded {stop : Nat} (hstop : stop ≤ b.length) (pos : Nat) :
    min ((b.embedded before after).nextEditAfter (pos + byteLength before))
        (stop + byteLength before) =
      min (b.nextEditAfter pos) stop + byteLength before := by
  have hmin : ∀ o : Option Nat, min (stop + byteLength before)
      ((o.map (· + byteLength before)).getD (stop + byteLength before)) =
        min stop (o.getD stop) + byteLength before := by
    intro o
    cases o with
    | none => simp
    | some k => simp [Nat.add_min_add_right]
  have hle : stop + byteLength before ≤ (b.embedded before after).length := by
    rw [length_embedded]
    omega
  rw [min_nextEditAfter hle, min_nextEditAfter hstop]
  simp only [embedded, Insertions.nextAfter_shift, Overwrite.nextAfter_shift, hmin,
    Nat.add_min_add_right]

/-- From any offset of a range on, the text that is read is the same in the longer buffer. -/
theorem sliceFrom_embedded {start stop : Nat} (hstop : stop ≤ b.length) (steps : Nat) {pos : Nat}
    {t : Text} (h : b.sliceFrom start stop steps pos = .ok t) :
    (b.embedded before after).sliceFrom (start + byteLength before) (stop + byteLength before) steps
      (pos + byteLength before) = .ok t := by
  induction steps generalizing pos t with
  | zero => exact h
  | succ steps ih =>
    have hleft : (b.embedded before after).left.textAt (pos + byteLength before) =
        b.left.textAt pos := Insertions.textAt_shift ..
    have hright : (b.embedded before after).right.textAt (pos + byteLength before) =
        b.right.textAt pos := Insertions.textAt_shift ..
    have hover : Overwrite.startingAt? (pos + byteLength before)
        (b.embedded before after).overwrites =
          (Overwrite.startingAt? pos b.overwrites).map (Overwrite.shift (byteLength before)) :=
      Overwrite.startingAt?_shift ..
    simp only [sliceFrom, hleft, hright, hover, Nat.add_lt_add_iff_right, Nat.add_le_add_iff_right,
      nextEditAfter_embedded before after hstop] at h ⊢
    split at h
    · rename_i hend
      rw [if_pos hend]
      exact h
    · rename_i hend
      rw [if_neg hend]
      cases hstart : Overwrite.startingAt? pos b.overwrites with
      | some o =>
        simp only [hstart, Option.map_some, Overwrite.shift] at h ⊢
        obtain ⟨rest, hrest, h⟩ := bind_eq_ok_iff.1 h
        have hrest := ih hrest
        rw [← Nat.add_min_add_right] at hrest
        exact bind_eq_ok_iff.2 ⟨rest, hrest, h⟩
      | none =>
        simp only [hstart, Option.map_none] at h ⊢
        cases hkept : slice? pos (min (b.nextEditAfter pos) stop) b.source with
        | none =>
          simp only [hkept] at h
          cases h
        | some kept =>
          simp only [hkept] at h
          have hinner : slice? (pos + byteLength before)
              (min (b.nextEditAfter pos) stop + byteLength before)
              (b.embedded before after).source = some kept := slice?_inner hkept before after
          simp only [hinner]
          obtain ⟨rest, hrest, h⟩ := bind_eq_ok_iff.1 h
          exact bind_eq_ok_iff.2 ⟨rest, ih hrest, h⟩

/-- A range that can be read has the same text where the buffer stands in a longer one. -/
theorem slice_embedded {start stop : Nat} {t : Text} (h : b.slice start stop = .ok t) :
    (b.embedded before after).slice (start + byteLength before) (stop + byteLength before) =
      .ok t := by
  unfold slice at h ⊢
  split at h
  · rename_i hrange
    rw [if_pos (by rw [length_embedded]; omega), Nat.add_sub_add_right]
    exact sliceFrom_embedded before after hrange.2 _ h
  · cases h

end EditBuffer

end TemplateCompiler
