import Mathlib.Data.List.Induction
import Mathlib.Data.List.Pairwise
import TemplateCompiler.Proofs.Edit.Locality
import TemplateCompiler.Proofs.Outcome

/-!
# Buffers and their histories

A buffer is the outcome of the edits that were recorded one after the other, and what it holds can be
said of that history alone: the texts inserted at an offset in the order of their recording, and the
ranges that were replaced, which do not meet.

## What this module delivers

* `Edit`, `EditBuffer.recordEdits`: the calls that record edits, and their succession.
* `leftText`, `rightText`, `replacements`, `Covered`: what a history says of an offset.
* `Recorded`: a buffer that holds what its history says. `recorded_of_recordEdits`: all of them do.
* `recordEdits_filter`: edits that replace nothing can be left out of a history.
-/

set_option autoImplicit false

namespace TemplateCompiler

open Text

/-! ## Histories of edits -/

/-- A call that records an edit. -/
inductive Edit where
  | insertRight (offset : Nat) (text : Text)
  | insertLeft (offset : Nat) (text : Text)
  | overwrite (start stop : Nat) (text : Text)
  | remove (start stop : Nat)
deriving DecidableEq, Repr

/-- Records one edit. -/
def EditBuffer.recordEdit (b : EditBuffer) : Edit → Except EditFault EditBuffer
  | .insertRight offset text => b.insertRight offset text
  | .insertLeft offset text => b.insertLeft offset text
  | .overwrite start stop text => b.overwrite start stop text
  | .remove start stop => b.remove start stop

/-- Records edits one after the other. -/
def EditBuffer.recordEdits (b : EditBuffer) (edits : List Edit) : Except EditFault EditBuffer :=
  edits.foldlM EditBuffer.recordEdit b

namespace Edit

/-- The text that an edit inserts at an offset, as a part of the chunk that ends there. -/
def leftAt (p : Nat) : Edit → Text
  | .insertLeft offset text => if offset = p then text else []
  | _ => []

/-- The text that an edit inserts at an offset, as a part of the chunk that starts there. Replacing an
empty range is such an insertion. -/
def rightAt (p : Nat) : Edit → Text
  | .insertRight offset text => if offset = p then text else []
  | .overwrite start stop text => if start = stop ∧ start = p then text else []
  | _ => []

/-- The range that an edit replaces, unless it is empty. -/
def replacement? : Edit → Option Overwrite
  | .overwrite start stop text => if start = stop then none else some ⟨start, stop, text⟩
  | .remove start stop => if start = stop then none else some ⟨start, stop, []⟩
  | _ => none

/-- The offsets where an edit is anchored. -/
def anchors : Edit → List Nat
  | .insertRight offset _ | .insertLeft offset _ => [offset]
  | .overwrite start stop _ | .remove start stop => [start, stop]

end Edit

/-- What was inserted to the left of an offset, in the order of recording. -/
def leftText (edits : List Edit) (p : Nat) : Text := edits.flatMap (Edit.leftAt p)

/-- What was inserted to the right of an offset, in the order of recording. -/
def rightText (edits : List Edit) (p : Nat) : Text := edits.flatMap (Edit.rightAt p)

/-- The ranges that were replaced. -/
def replacements (edits : List Edit) : List Overwrite := edits.filterMap Edit.replacement?

/-- An offset strictly inside of a replaced range. -/
def Covered (edits : List Edit) (p : Nat) : Prop :=
  ∃ o ∈ replacements edits, o.start < p ∧ p < o.stop

instance (edits : List Edit) (p : Nat) : Decidable (Covered edits p) :=
  inferInstanceAs (Decidable (∃ o ∈ replacements edits, o.start < p ∧ p < o.stop))

/-! ## Insertions and overwrites, looked up -/

theorem Insertions.textAt_eq_nil {offset : Nat} {l : Insertions} (h : ∀ p ∈ l, p.1 ≠ offset) :
    l.textAt offset = [] := by
  induction l with
  | nil => rfl
  | cons p rest ih =>
    obtain ⟨hp, hrest⟩ := List.forall_mem_cons.1 h
    rw [textAt, if_neg fun heq => hp heq.symm, ih hrest]

theorem Insertions.Sorted.textAt_add {l : Insertions} (h : l.Sorted) (offset : Nat) (text : Text)
    (p : Nat) :
    (l.add offset text).textAt p = l.textAt p ++ if offset = p then text else [] := by
  induction l with
  | nil => simp [Insertions.add, Insertions.textAt, eq_comm]
  | cons q rest ih =>
    obtain ⟨k, t⟩ := q
    obtain ⟨hfirst, hrest⟩ := List.pairwise_cons.1 h
    rw [Insertions.add]
    split
    · rename_i hlt
      -- Everything kept so far stands behind the offset.
      have hnil : offset = p → Insertions.textAt p ((k, t) :: rest) = [] := by
        rintro rfl
        refine Insertions.textAt_eq_nil fun q hq => ?_
        rcases List.mem_cons.1 hq with rfl | hq
        · exact Nat.ne_of_gt hlt
        · exact Nat.ne_of_gt (Nat.lt_trans hlt (hfirst q hq))
      by_cases hp : offset = p
      · rw [hnil hp, Insertions.textAt, if_pos hp.symm, if_pos hp, List.nil_append]
      · rw [Insertions.textAt, if_neg (Ne.symm hp), if_neg hp, List.append_nil]
    · split
      · rename_i heq
        subst heq
        by_cases hp : offset = p
        · simp [Insertions.textAt, hp]
        · simp [Insertions.textAt, hp, Ne.symm hp]
      · rename_i hne
        by_cases hp : p = k
        · have hne' : offset ≠ p := by
            rw [hp]
            exact hne
          rw [Insertions.textAt, Insertions.textAt, if_pos hp, if_pos hp, if_neg hne',
            List.append_nil]
        · rw [Insertions.textAt, Insertions.textAt, if_neg hp, if_neg hp, ih hrest]

theorem Overwrite.startingAt?_eq_none {offset : Nat} {l : List Overwrite} :
    startingAt? offset l = none ↔ ∀ o ∈ l, o.start ≠ offset := by
  induction l with
  | nil => simp [startingAt?]
  | cons o rest ih =>
    rw [startingAt?]
    by_cases h : o.start = offset
    · simp [h]
    · simp [h, ih]

/-- Ranges that lie one behind the other. -/
def Overwrite.Apart (l : List Overwrite) : Prop :=
  l.Pairwise fun o p => o.stop ≤ p.start

/-- Two ranges of such a list are the same or do not meet. -/
theorem Overwrite.Apart.eq_or {l : List Overwrite} (h : Apart l) {o p : Overwrite} (ho : o ∈ l)
    (hp : p ∈ l) : o = p ∨ o.stop ≤ p.start ∨ p.stop ≤ o.start := by
  have hsymm : Std.Symm fun o p : Overwrite => o = p ∨ o.stop ≤ p.start ∨ p.stop ≤ o.start :=
    ⟨fun _ _ => Or.imp Eq.symm Or.symm⟩
  have hpairs : l.Pairwise fun o p => o = p ∨ o.stop ≤ p.start ∨ p.stop ≤ o.start :=
    h.imp fun hle => .inr (.inl hle)
  exact hpairs.forall_of_forall (fun _ _ => .inl rfl) ho hp

/-- Of ranges that lie one behind the other, those that start before an offset end no later than the
last one of them. -/
theorem Overwrite.lastBefore?_spec {l : List Overwrite} (h : Apart l)
    (hproper : ∀ o ∈ l, o.start < o.stop) (offset : Nat) :
    ∀ p ∈ l, p.start < offset → ∃ o, lastBefore? offset l = some o ∧ p.stop ≤ o.stop := by
  induction l with
  | nil => exact nofun
  | cons o rest ih =>
    obtain ⟨hfirst, hrest⟩ := List.pairwise_cons.1 h
    obtain ⟨ho, hproper'⟩ := List.forall_mem_cons.1 hproper
    intro p hp hlt
    rw [lastBefore?]
    rcases List.mem_cons.1 hp with rfl | hp
    · rw [if_pos hlt]
      cases hlater : lastBefore? offset rest with
      | none => exact ⟨p, rfl, Nat.le_refl _⟩
      | some later =>
        have hmem := (lastBefore?_mem hlater).1
        exact ⟨later, rfl, Nat.le_trans (hfirst later hmem) (Nat.le_of_lt (hproper' later hmem))⟩
    · have hbefore : o.start < offset := by
        have := hfirst p hp
        omega
      obtain ⟨later, hlater, hle⟩ := ih hrest hproper' p hp hlt
      rw [if_pos hbefore, hlater]
      exact ⟨later, rfl, hle⟩

/-- A new range that is apart from all the others takes its place among them. -/
theorem Overwrite.Apart.insert {l : List Overwrite} (h : Apart l)
    (hproper : ∀ o ∈ l, o.start < o.stop) {o : Overwrite} (ho : o.start < o.stop)
    (hapart : ∀ p ∈ l, p.stop ≤ o.start ∨ o.stop ≤ p.start) : Apart (Overwrite.insert o l) := by
  induction l with
  | nil => exact List.pairwise_singleton _ _
  | cons p rest ih =>
    obtain ⟨hfirst, hrest⟩ := List.pairwise_cons.1 h
    obtain ⟨hp, hproper'⟩ := List.forall_mem_cons.1 hproper
    obtain ⟨hpo, hapart'⟩ := List.forall_mem_cons.1 hapart
    rw [Overwrite.insert]
    split
    · refine List.pairwise_cons.2 ⟨?_, h⟩
      intro q hq
      rcases List.mem_cons.1 hq with rfl | hq
      · omega
      · have := hfirst q hq
        omega
    · refine List.pairwise_cons.2 ⟨?_, ih hrest hproper' hapart'⟩
      intro q hq
      rcases mem_insert.1 hq with rfl | hq
      · omega
      · exact hfirst q hq

/-! ## Buffers and their histories -/

/-- Insertions at anchors of edits. -/
def Insertions.AnchoredBy (l : Insertions) (edits : List Edit) : Prop :=
  ∀ q ∈ l, ∃ e ∈ edits, q.1 ∈ e.anchors

theorem Insertions.AnchoredBy.concat {l : Insertions} {edits : List Edit} (h : l.AnchoredBy edits)
    (e : Edit) : l.AnchoredBy (edits ++ [e]) := by
  intro q hq
  obtain ⟨e', he', hanchor⟩ := h q hq
  exact ⟨e', List.mem_append_left _ he', hanchor⟩

theorem Insertions.AnchoredBy.add {l : Insertions} {edits : List Edit} (h : l.AnchoredBy edits)
    {e : Edit} {offset : Nat} (he : offset ∈ e.anchors) (text : Text) :
    Insertions.AnchoredBy (l.add offset text) (edits ++ [e]) := by
  intro q hq
  rcases mem_add hq with hk | ⟨q', hq', hk⟩
  · exact ⟨e, List.mem_append_right _ (List.mem_singleton_self e), hk ▸ he⟩
  · exact hk ▸ h.concat e q' hq'

/-- A buffer that holds what its history says. -/
structure Recorded (source : Text) (edits : List Edit) (b : EditBuffer) : Prop where
  source : b.source = source
  left : ∀ p, b.left.textAt p = leftText edits p
  right : ∀ p, b.right.textAt p = rightText edits p
  overwrites : ∀ o, o ∈ b.overwrites ↔ o ∈ replacements edits
  orderly : b.Orderly
  apart : Overwrite.Apart b.overwrites
  leftAnchored : b.left.AnchoredBy edits
  rightAnchored : b.right.AnchoredBy edits

namespace EditBuffer

variable {b b' : EditBuffer}

/-- What overwriting a range does: an empty range is inserted into, any other one is apart from the
ranges overwritten before and joins them. -/
theorem overwrite_eq_ok (hb : b.Orderly) (hapart : Overwrite.Apart b.overwrites) {start stop : Nat}
    {text : Text} (h : b.overwrite start stop text = .ok b') :
    (start = stop ∧ b' = { b with right := b.right.add start text }) ∨
      (start < stop ∧ (∀ o ∈ b.overwrites, o.stop ≤ start ∨ stop ≤ o.start) ∧
        b' = { b with overwrites := Overwrite.insert ⟨start, stop, text⟩ b.overwrites }) := by
  unfold EditBuffer.overwrite at h
  split at h
  · rename_i hrange
    split at h
    · rename_i heq
      exact .inl ⟨heq, insertRight_eq_ok h⟩
    · rename_i hne
      split at h
      · cases h
      · rename_i hmeets
        refine .inr ⟨by omega, ?_, (Except.ok.inj h).symm⟩
        intro o ho
        rcases Nat.lt_or_ge o.start stop with hlt | hge
        · -- The last range that starts before the end of the new one ends before its start.
          obtain ⟨last, hlast, hle⟩ := Overwrite.lastBefore?_spec hapart hb.proper stop o ho hlt
          simp only [meetsOverwrite, hlast, decide_eq_true_eq] at hmeets
          exact .inl (by omega)
        · exact .inr hge
  · cases h

end EditBuffer

section

variable {source : Text} {edits : List Edit} {b b' : EditBuffer} {e : Edit}

theorem leftText_concat (p : Nat) : leftText (edits ++ [e]) p = leftText edits p ++ e.leftAt p := by
  simp [leftText]

theorem rightText_concat (p : Nat) :
    rightText (edits ++ [e]) p = rightText edits p ++ e.rightAt p := by
  simp [rightText]

theorem mem_replacements_concat {o : Overwrite} :
    o ∈ replacements (edits ++ [e]) ↔ o ∈ replacements edits ∨ e.replacement? = some o := by
  simp [replacements]

theorem recorded_ofText (source : Text) : Recorded source [] (.ofText source) :=
  ⟨rfl, fun _ => rfl, fun _ => rfl, fun _ => Iff.rfl, EditBuffer.orderly_ofText source, .nil,
    nofun, nofun⟩

theorem Recorded.insertRight (h : Recorded source edits b) {offset : Nat} {text : Text}
    (hanchor : offset ∈ e.anchors) (hleft : ∀ p, e.leftAt p = [])
    (hright : ∀ p, e.rightAt p = if offset = p then text else [])
    (hreplaced : e.replacement? = none) :
    Recorded source (edits ++ [e]) { b with right := b.right.add offset text } where
  source := h.source
  left p := by rw [leftText_concat, hleft, List.append_nil, h.left]
  right p := by rw [rightText_concat, hright, h.orderly.right.textAt_add, h.right]
  overwrites o := by
    simp only [mem_replacements_concat, hreplaced, reduceCtorEq, or_false, h.overwrites]
  orderly := ⟨h.orderly.left, h.orderly.right.add offset text, h.orderly.overwrites,
    h.orderly.proper⟩
  apart := h.apart
  leftAnchored := h.leftAnchored.concat e
  rightAnchored := h.rightAnchored.add hanchor text

theorem Recorded.insertLeft (h : Recorded source edits b) (offset : Nat) (text : Text) :
    Recorded source (edits ++ [.insertLeft offset text])
      { b with left := b.left.add offset text } where
  source := h.source
  left p := by rw [leftText_concat, h.orderly.left.textAt_add, h.left, Edit.leftAt]
  right p := by
    rw [rightText_concat, h.right]
    exact (List.append_nil _).symm
  overwrites o := by
    simp only [mem_replacements_concat, Edit.replacement?, reduceCtorEq, or_false, h.overwrites]
  orderly := ⟨h.orderly.left.add offset text, h.orderly.right, h.orderly.overwrites,
    h.orderly.proper⟩
  apart := h.apart
  leftAnchored := h.leftAnchored.add (List.mem_singleton_self offset) text
  rightAnchored := h.rightAnchored.concat _

/-- Overwriting keeps what a buffer says of its history, whichever call it comes from. -/
theorem Recorded.overwrite (h : Recorded source edits b) {start stop : Nat} {text : Text}
    (hb : b.overwrite start stop text = .ok b') (hanchor : start ∈ e.anchors)
    (hleft : ∀ p, e.leftAt p = [])
    (hright : ∀ p, e.rightAt p = if start = stop ∧ start = p then text else [])
    (hreplaced : e.replacement? = if start = stop then none else some ⟨start, stop, text⟩) :
    Recorded source (edits ++ [e]) b' := by
  rcases EditBuffer.overwrite_eq_ok h.orderly h.apart hb with ⟨heq, rfl⟩ | ⟨hlt, hapart, rfl⟩
  · simp only [heq, if_true, true_and] at hanchor hright hreplaced ⊢
    exact h.insertRight hanchor hleft hright hreplaced
  · have hne : start ≠ stop := Nat.ne_of_lt hlt
    simp only [hne, if_false, false_and] at hright hreplaced
    have hproper : ∀ o ∈ Overwrite.insert ⟨start, stop, text⟩ b.overwrites, o.start < o.stop := by
      intro o hmem
      rcases Overwrite.mem_insert.1 hmem with rfl | hmem
      · exact hlt
      · exact h.orderly.proper o hmem
    constructor
    · exact h.source
    · intro p
      rw [leftText_concat, hleft, List.append_nil, h.left]
    · intro p
      rw [rightText_concat, hright, List.append_nil, h.right]
    · intro o
      rw [mem_replacements_concat, hreplaced, Overwrite.mem_insert, Option.some.injEq,
        ← h.overwrites, or_comm, eq_comm]
    · exact ⟨h.orderly.left, h.orderly.right, Overwrite.pairwise_insert h.orderly.overwrites _,
        hproper⟩
    · exact h.apart.insert h.orderly.proper hlt hapart
    · exact h.leftAnchored.concat e
    · exact h.rightAnchored.concat e

/-- Recording one more edit keeps what a buffer says of its history. -/
theorem Recorded.recordEdit (h : Recorded source edits b) (hb : b.recordEdit e = .ok b') :
    Recorded source (edits ++ [e]) b' := by
  cases e with
  | insertRight offset text =>
    rw [EditBuffer.insertRight_eq_ok hb]
    exact h.insertRight (List.mem_singleton_self offset) (fun _ => rfl) (fun _ => rfl) rfl
  | insertLeft offset text =>
    rw [EditBuffer.insertLeft_eq_ok hb]
    exact h.insertLeft offset text
  | overwrite start stop text =>
    exact h.overwrite hb List.mem_cons_self (fun _ => rfl) (fun _ => rfl) rfl
  | remove start stop =>
    exact h.overwrite hb List.mem_cons_self (fun _ => rfl) (fun _ => (ite_self _).symm) rfl

theorem recordEdits_concat {b : EditBuffer} :
    b.recordEdits (edits ++ [e]) = b.recordEdits edits >>= fun b => b.recordEdit e := by
  simp [EditBuffer.recordEdits, List.foldlM_append]

/-- Every buffer holds what its history says. -/
theorem recorded_of_recordEdits (h : (EditBuffer.ofText source).recordEdits edits = .ok b) :
    Recorded source edits b := by
  induction edits using List.reverseRecOn generalizing b with
  | nil =>
    cases h
    exact recorded_ofText source
  | append_singleton edits e ih =>
    rw [recordEdits_concat] at h
    obtain ⟨b₁, h₁, h₂⟩ := bind_eq_ok_iff.1 h
    exact (ih h₁).recordEdit h₂

/-- Edits whose anchors are character boundaries of a source. -/
def OnBoundaries (source : Text) (edits : List Edit) : Prop :=
  ∀ e ∈ edits, ∀ p ∈ e.anchors, isBoundary source p = true

theorem Edit.anchors_of_replacement? {o : Overwrite} (h : e.replacement? = some o) :
    o.start ∈ e.anchors ∧ o.stop ∈ e.anchors := by
  cases e with
  | insertRight | insertLeft => cases h
  | overwrite start stop text | remove start stop =>
    rw [Edit.replacement?] at h
    split at h
    · cases h
    · cases h
      exact ⟨List.mem_cons_self, List.mem_cons_of_mem _ List.mem_cons_self⟩

/-- Edits on boundaries anchor the buffer that holds them. -/
theorem Recorded.anchored (h : Recorded source edits b) (hedits : OnBoundaries source edits) :
    b.Anchored := by
  have hinserted : ∀ l : Insertions, l.AnchoredBy edits → ∀ p ∈ l, isBoundary b.source p.1 = true := by
    intro l hl p hp
    obtain ⟨e, he, hanchor⟩ := hl p hp
    rw [h.source]
    exact hedits e he _ hanchor
  have hreplaced : ∀ o ∈ b.overwrites, isBoundary b.source o.start = true ∧
      isBoundary b.source o.stop = true := by
    intro o ho
    obtain ⟨e, he, hreplaced⟩ := List.mem_filterMap.1 ((h.overwrites o).1 ho)
    obtain ⟨hstart, hstop⟩ := Edit.anchors_of_replacement? hreplaced
    rw [h.source]
    exact ⟨hedits e he _ hstart, hedits e he _ hstop⟩
  exact ⟨hinserted _ h.leftAnchored, hinserted _ h.rightAnchored, fun o ho => (hreplaced o ho).1,
    fun o ho => (hreplaced o ho).2⟩

end

/-! ## Histories with fewer insertions -/

namespace EditBuffer

/-- A buffer with other insertions. -/
def withInsertions (b : EditBuffer) (left right : Insertions) : EditBuffer :=
  ⟨b.source, left, right, b.overwrites⟩

variable {b b' : EditBuffer}

theorem overwrite_withInsertions {start stop : Nat} {text : Text}
    (h : b.overwrite start stop text = .ok b') (left right : Insertions) :
    ∃ left' right', (b.withInsertions left right).overwrite start stop text =
      .ok (b'.withInsertions left' right') := by
  unfold EditBuffer.overwrite at h
  split at h
  · rename_i hrange
    have hrange' : start ≤ stop ∧ stop ≤ (b.withInsertions left right).length := hrange
    rw [EditBuffer.overwrite, if_pos hrange']
    split at h
    · rename_i heq
      rw [insertRight_eq_ok h, if_pos heq]
      exact ⟨left, _, if_pos (Nat.le_trans hrange.1 hrange.2)⟩
    · rename_i hne
      have hmeets : (b.withInsertions left right).meetsOverwrite start stop =
          b.meetsOverwrite start stop := rfl
      rw [if_neg hne, hmeets]
      split at h
      · cases h
      · cases h
        rename_i hno
        exact ⟨left, right, if_neg hno⟩
  · cases h

/-- Whether an edit is refused does not depend on the insertions recorded before. -/
theorem recordEdit_withInsertions {e : Edit} (h : b.recordEdit e = .ok b')
    (left right : Insertions) :
    ∃ left' right', (b.withInsertions left right).recordEdit e =
      .ok (b'.withInsertions left' right') := by
  cases e with
  | insertRight offset text =>
    simp only [recordEdit, insertRight] at h
    split at h
    · cases h
      rename_i hle
      exact ⟨left, _, if_pos hle⟩
    · cases h
  | insertLeft offset text =>
    simp only [recordEdit, insertLeft] at h
    split at h
    · cases h
      rename_i hle
      exact ⟨_, right, if_pos hle⟩
    · cases h
  | overwrite start stop text => exact overwrite_withInsertions h left right
  | remove start stop => exact overwrite_withInsertions h left right

/-- An edit that replaces nothing changes nothing but the insertions. -/
theorem recordEdit_eq_withInsertions {e : Edit} (h : b.recordEdit e = .ok b')
    (he : e.replacement? = none) : b' = b.withInsertions b'.left b'.right := by
  have hover : ∀ {start stop text}, b.overwrite start stop text = .ok b' → start = stop →
      b' = b.withInsertions b'.left b'.right := by
    intro start stop text h heq
    unfold EditBuffer.overwrite at h
    split at h
    · rw [insertRight_eq_ok h]
      rfl
    · cases h
  cases e with
  | insertRight offset text =>
    rw [insertRight_eq_ok h]
    rfl
  | insertLeft offset text =>
    rw [insertLeft_eq_ok h]
    rfl
  | overwrite start stop text | remove start stop =>
    refine hover h ?_
    rw [Edit.replacement?] at he
    split at he
    · assumption
    · cases he

/-- Edits that replace nothing can be left out of a history. -/
theorem recordEdits_filter {keep : Edit → Bool} (hkeep : ∀ e, keep e = false → e.replacement? = none)
    {edits : List Edit} {c : EditBuffer} (h : c.recordEdits edits = .ok b) :
    ∃ left right, c.recordEdits (edits.filter keep) = .ok (b.withInsertions left right) := by
  induction edits using List.reverseRecOn generalizing b with
  | nil =>
    cases h
    exact ⟨c.left, c.right, rfl⟩
  | append_singleton edits e ih =>
    rw [recordEdits_concat] at h
    obtain ⟨b₁, h₁, h₂⟩ := bind_eq_ok_iff.1 h
    obtain ⟨left, right, hkept⟩ := ih h₁
    rw [List.filter_append]
    cases he : keep e
    · rw [List.filter_cons_of_neg (by simp [he]), List.filter_nil, List.append_nil, hkept,
        recordEdit_eq_withInsertions h₂ (hkeep e he)]
      exact ⟨left, right, rfl⟩
    · obtain ⟨left', right', hstep⟩ := recordEdit_withInsertions h₂ left right
      rw [List.filter_cons_of_pos he, List.filter_nil, recordEdits_concat, hkept]
      exact ⟨left', right', hstep⟩

end EditBuffer

end TemplateCompiler
