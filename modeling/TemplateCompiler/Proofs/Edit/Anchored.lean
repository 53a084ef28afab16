import TemplateCompiler.Edit.Buffer
import TemplateCompiler.Proofs.Text.Cut

/-!
# Edits that stand on character boundaries

A buffer is anchored if every edit recorded in it starts and stops where its source can be cut. Such
a buffer can be read between any two boundaries. Recording keeps a buffer anchored: an insertion on a
boundary is never refused, and an overwrite between boundaries is refused only where it meets an
earlier one.

## What this module delivers

* `EditBuffer.Anchored`, `EditBuffer.Clear`: edits on boundaries, and spans that nothing overwrites.
* `Anchored.insertRight`, `Anchored.insertLeft`, `Anchored.overwrite`: recording is not refused.
* `Anchored.exists_slice`: reading is not refused.
-/

set_option autoImplicit false

namespace TemplateCompiler

variable {b : EditBuffer}

/-! ## Offsets of edits -/

theorem Insertions.mem_add {offset : Nat} {text : Text} {l : Insertions} {p : Nat × Text}
    (h : p ∈ l.add offset text) : p.1 = offset ∨ ∃ q ∈ l, q.1 = p.1 := by
  induction l with
  | nil =>
    simp only [add, List.mem_singleton] at h
    exact Or.inl (by rw [h])
  | cons q rest ih =>
    obtain ⟨k, t⟩ := q
    rw [add] at h
    split at h
    · rcases List.mem_cons.1 h with rfl | h
      · exact Or.inl rfl
      · exact Or.inr ⟨p, h, rfl⟩
    · split at h
      · rename_i heq
        rcases List.mem_cons.1 h with rfl | h
        · exact Or.inl heq.symm
        · exact Or.inr ⟨p, List.mem_cons_of_mem _ h, rfl⟩
      · rcases List.mem_cons.1 h with rfl | h
        · exact Or.inr ⟨_, List.mem_cons_self, rfl⟩
        · rcases ih h with hp | ⟨q, hq, hp⟩
          · exact Or.inl hp
          · exact Or.inr ⟨q, List.mem_cons_of_mem _ hq, hp⟩

theorem Insertions.mem_of_nextAfter {pos k : Nat} {l : Insertions}
    (h : l.nextAfter pos = some k) : pos < k ∧ ∃ q ∈ l, q.1 = k := by
  induction l with
  | nil => simp [nextAfter] at h
  | cons q rest ih =>
    obtain ⟨k', t⟩ := q
    rw [nextAfter] at h
    split at h
    · rename_i hlt
      cases h
      exact ⟨hlt, _, List.mem_cons_self, rfl⟩
    · obtain ⟨hlt, q, hq, hk⟩ := ih h
      exact ⟨hlt, q, List.mem_cons_of_mem _ hq, hk⟩

theorem Overwrite.mem_of_nextAfter {pos k : Nat} {l : List Overwrite}
    (h : Overwrite.nextAfter pos l = some k) : pos < k ∧ ∃ o ∈ l, o.start = k := by
  induction l with
  | nil => simp [nextAfter] at h
  | cons o rest ih =>
    rw [nextAfter] at h
    split at h
    · rename_i hlt
      cases h
      exact ⟨hlt, _, List.mem_cons_self, rfl⟩
    · obtain ⟨hlt, q, hq, hk⟩ := ih h
      exact ⟨hlt, q, List.mem_cons_of_mem _ hq, hk⟩

theorem Overwrite.mem_of_startingAt? {offset : Nat} {o : Overwrite} {l : List Overwrite}
    (h : Overwrite.startingAt? offset l = some o) : o ∈ l := by
  induction l with
  | nil => simp [startingAt?] at h
  | cons p rest ih =>
    rw [startingAt?] at h
    split at h
    · exact Option.some.inj h ▸ List.mem_cons_self
    · exact List.mem_cons_of_mem _ (ih h)

theorem Overwrite.mem_insert {o p : Overwrite} {l : List Overwrite} :
    p ∈ Overwrite.insert o l ↔ p = o ∨ p ∈ l := by
  induction l with
  | nil => simp [insert]
  | cons q rest ih =>
    rw [insert]
    split
    · exact List.mem_cons
    · simp only [List.mem_cons, ih]
      exact or_left_comm

/-- The last overwrite before an offset is a recorded one that starts before it. -/
theorem Overwrite.lastBefore?_mem {offset : Nat} {o : Overwrite} {l : List Overwrite}
    (h : Overwrite.lastBefore? offset l = some o) : o ∈ l ∧ o.start < offset := by
  induction l with
  | nil => simp [lastBefore?] at h
  | cons p rest ih =>
    rw [lastBefore?] at h
    split at h
    · rename_i hlt
      split at h
      · rename_i later hlater
        cases h
        exact ⟨List.mem_cons_of_mem _ (ih hlater).1, (ih hlater).2⟩
      · cases h
        exact ⟨List.mem_cons_self, hlt⟩
    · cases h

/-- The least of some numbers and a bound is the bound or one of the numbers. -/
theorem foldl_min_eq_or_mem (l : List Nat) (bound : Nat) :
    l.foldl min bound = bound ∨ l.foldl min bound ∈ l := by
  induction l generalizing bound with
  | nil => exact Or.inl rfl
  | cons k l ih =>
    rw [List.foldl_cons]
    rcases ih (min bound k) with h | h
    · rw [h]
      rcases Nat.le_total bound k with hle | hle
      · exact Or.inl (Nat.min_eq_left hle)
      · exact Or.inr (by rw [Nat.min_eq_right hle]; exact List.mem_cons_self)
    · exact Or.inr (List.mem_cons_of_mem _ h)

/-! ## Anchored buffers -/

namespace EditBuffer

/-- Every edit of a buffer stands where its source can be cut. -/
structure Anchored (b : EditBuffer) : Prop where
  left : ∀ p ∈ b.left, Text.isBoundary b.source p.1 = true
  right : ∀ p ∈ b.right, Text.isBoundary b.source p.1 = true
  start : ∀ o ∈ b.overwrites, Text.isBoundary b.source o.start = true
  stop : ∀ o ∈ b.overwrites, Text.isBoundary b.source o.stop = true

/-- No overwrite of a buffer reaches into a span. -/
def Clear (b : EditBuffer) (s : Span) : Prop :=
  ∀ o ∈ b.overwrites, o.stop ≤ s.start ∨ s.stop ≤ o.start

theorem anchored_ofText (source : Text) : (ofText source).Anchored := by
  constructor <;> exact fun _ h => nomatch h

theorem clear_ofText (source : Text) (s : Span) : (ofText source).Clear s :=
  fun _ h => nomatch h

theorem Clear.mono {s t : Span} (h : b.Clear s) (hstart : s.start ≤ t.start)
    (hstop : t.stop ≤ s.stop) : b.Clear t := by
  intro o ho
  rcases h o ho with hle | hle
  · exact Or.inl (Nat.le_trans hle hstart)
  · exact Or.inr (Nat.le_trans hstop hle)

/-- What recording an insertion may change: nothing but the insertions. -/
structure Inserted (b b' : EditBuffer) : Prop where
  source : b'.source = b.source
  overwrites : b'.overwrites = b.overwrites
  anchored : b'.Anchored

theorem Inserted.clear {b' : EditBuffer} {s : Span} (h : Inserted b b') (hs : b.Clear s) :
    b'.Clear s := by
  rw [Clear, h.overwrites]
  exact hs

theorem Inserted.trans {a c : EditBuffer} (h : Inserted a b) (h' : Inserted b c) :
    Inserted a c :=
  ⟨h'.source.trans h.source, h'.overwrites.trans h.overwrites, h'.anchored⟩

theorem Anchored.insertRight (hb : b.Anchored) {offset : Nat} (text : Text)
    (h : Text.isBoundary b.source offset = true) :
    ∃ b', b.insertRight offset text = .ok b' ∧ Inserted b b' := by
  refine ⟨_, if_pos (Text.le_byteLength_of_isBoundary h), rfl, rfl, hb.left, ?_, hb.start, hb.stop⟩
  intro p hp
  rcases Insertions.mem_add hp with hk | ⟨q, hq, hk⟩
  · rw [hk]
    exact h
  · rw [← hk]
    exact hb.right q hq

theorem Anchored.insertLeft (hb : b.Anchored) {offset : Nat} (text : Text)
    (h : Text.isBoundary b.source offset = true) :
    ∃ b', b.insertLeft offset text = .ok b' ∧ Inserted b b' := by
  refine ⟨_, if_pos (Text.le_byteLength_of_isBoundary h), rfl, rfl, ?_, hb.right, hb.start, hb.stop⟩
  intro p hp
  rcases Insertions.mem_add hp with hk | ⟨q, hq, hk⟩
  · rw [hk]
    exact h
  · rw [← hk]
    exact hb.left q hq

/-- Insertions on boundaries, one after the other, are not refused. -/
theorem Anchored.foldlM_insert {α : Type} {insert : EditBuffer → α → Except EditFault EditBuffer}
    (good : Text → α → Prop)
    (hstep : ∀ b a, b.Anchored → good b.source a → ∃ b', insert b a = .ok b' ∧ Inserted b b')
    (l : List α) (hb : b.Anchored) (hl : ∀ a ∈ l, good b.source a) :
    ∃ b', l.foldlM insert b = .ok b' ∧ Inserted b b' := by
  induction l generalizing b with
  | nil => exact ⟨b, rfl, rfl, rfl, hb⟩
  | cons a l ih =>
    obtain ⟨b₁, h₁, hi₁⟩ := hstep b a hb (hl a List.mem_cons_self)
    have hl₁ : ∀ x ∈ l, good b₁.source x := by
      intro x hx
      rw [hi₁.source]
      exact hl x (List.mem_cons_of_mem _ hx)
    obtain ⟨b₂, h₂, hi₂⟩ := ih hi₁.anchored hl₁
    refine ⟨b₂, ?_, hi₁.trans hi₂⟩
    rw [List.foldlM_cons, h₁]
    exact h₂

/-- What recording an overwrite of a span may change: every other span stays clear. -/
structure Overwritten (b : EditBuffer) (s : Span) (b' : EditBuffer) : Prop where
  source : b'.source = b.source
  anchored : b'.Anchored
  clear : ∀ t : Span, b.Clear t → s.stop ≤ t.start ∨ t.stop ≤ s.start → b'.Clear t

/-- An overwrite inside of a span changes nothing outside of the span. -/
theorem Overwritten.mono {b' : EditBuffer} {s t : Span} (h : Overwritten b s b')
    (hstart : t.start ≤ s.start) (hstop : s.stop ≤ t.stop) : Overwritten b t b' :=
  ⟨h.source, h.anchored, fun u hu hapart => h.clear u hu (by omega)⟩

theorem Overwritten.inserted {a c : EditBuffer} {s : Span} (h : Overwritten a s b)
    (h' : Inserted b c) : Overwritten a s c :=
  ⟨h'.source.trans h.source, h'.anchored, fun u hu hapart => h'.clear (h.clear u hu hapart)⟩

/-- A clear span is free to be overwritten. -/
theorem not_meetsOverwrite {start stop : Nat} (h : b.Clear ⟨start, stop⟩) :
    b.meetsOverwrite start stop = false := by
  unfold meetsOverwrite
  split
  · rename_i o ho
    obtain ⟨hmem, hlt⟩ := Overwrite.lastBefore?_mem ho
    rcases h o hmem with hle | hle
    · exact decide_eq_false (Nat.not_lt.2 hle)
    · exact absurd hlt (Nat.not_lt.2 hle)
  · rfl

/-- An overwrite between boundaries of a clear span is not refused. -/
theorem Anchored.overwrite (hb : b.Anchored) {start stop : Nat} (text : Text)
    (hstart : Text.isBoundary b.source start = true) (hstop : Text.isBoundary b.source stop = true)
    (hle : start ≤ stop) (hclear : b.Clear ⟨start, stop⟩) :
    ∃ b', b.overwrite start stop text = .ok b' ∧ Overwritten b ⟨start, stop⟩ b' := by
  have hrange : start ≤ stop ∧ stop ≤ b.length := ⟨hle, Text.le_byteLength_of_isBoundary hstop⟩
  rw [EditBuffer.overwrite, if_pos hrange]
  split
  · obtain ⟨b', h, hi⟩ := hb.insertRight text hstart
    exact ⟨b', h, hi.source, hi.anchored, fun t ht _ => hi.clear ht⟩
  · rw [not_meetsOverwrite hclear]
    refine ⟨_, rfl, rfl, ⟨hb.left, hb.right, ?_, ?_⟩, ?_⟩
    · intro o ho
      rcases Overwrite.mem_insert.1 ho with rfl | ho
      · exact hstart
      · exact hb.start o ho
    · intro o ho
      rcases Overwrite.mem_insert.1 ho with rfl | ho
      · exact hstop
      · exact hb.stop o ho
    · intro t ht hdisjoint o ho
      rcases Overwrite.mem_insert.1 ho with rfl | ho
      · exact hdisjoint
      · exact ht o ho

/-! ## Reading -/

/-- The next edit is anchored behind the offset it is looked for from, or is the end. -/
theorem nextEditAfter_eq_or (b : EditBuffer) (pos : Nat) :
    b.nextEditAfter pos = b.length ∨ pos < b.nextEditAfter pos ∧
      ((∃ p ∈ b.left, p.1 = b.nextEditAfter pos) ∨ (∃ p ∈ b.right, p.1 = b.nextEditAfter pos) ∨
        ∃ o ∈ b.overwrites, o.start = b.nextEditAfter pos) := by
  rcases foldl_min_eq_or_mem ([b.left.nextAfter pos, b.right.nextAfter pos,
    Overwrite.nextAfter pos b.overwrites].filterMap id) b.length with h | h
  · exact Or.inl h
  · refine Or.inr ?_
    change b.nextEditAfter pos ∈ _ at h
    simp only [List.mem_filterMap, id_eq, exists_eq_right, List.mem_cons, List.not_mem_nil,
      or_false] at h
    rcases h with h | h | h
    · exact (Insertions.mem_of_nextAfter h.symm).imp_right Or.inl
    · exact (Insertions.mem_of_nextAfter h.symm).imp_right fun hr => Or.inr (Or.inl hr)
    · exact (Overwrite.mem_of_nextAfter h.symm).imp_right fun ho => Or.inr (Or.inr ho)

theorem Anchored.isBoundary_nextEditAfter (hb : b.Anchored) (pos : Nat) :
    Text.isBoundary b.source (b.nextEditAfter pos) = true := by
  rcases b.nextEditAfter_eq_or pos with h | ⟨-, ⟨p, hp, h⟩ | ⟨p, hp, h⟩ | ⟨o, ho, h⟩⟩
  · rw [h]
    exact Text.isBoundary_byteLength b.source
  · exact h ▸ hb.left p hp
  · exact h ▸ hb.right p hp
  · exact h ▸ hb.start o ho

/-- Reading on from a boundary meets only boundaries, so it is never refused. -/
theorem Anchored.exists_sliceFrom (hb : b.Anchored) {stop : Nat}
    (hstop : Text.isBoundary b.source stop = true) (start steps : Nat) {pos : Nat}
    (hpos : Text.isBoundary b.source pos = true) :
    ∃ t, b.sliceFrom start stop steps pos = .ok t := by
  induction steps generalizing pos with
  | zero => exact ⟨[], rfl⟩
  | succ steps ih =>
    have hmin : ∀ {k : Nat}, Text.isBoundary b.source k = true →
        Text.isBoundary b.source (min k stop) = true := by
      intro k hk
      rcases Nat.le_total k stop with hle | hle
      · rwa [Nat.min_eq_left hle]
      · rwa [Nat.min_eq_right hle]
    by_cases hend : stop ≤ pos
    · simp only [sliceFrom, if_pos hend]
      exact ⟨_, rfl⟩
    · simp only [sliceFrom, if_neg hend]
      cases ho : Overwrite.startingAt? pos b.overwrites with
      | some o =>
        obtain ⟨t, ht⟩ := ih (hmin (hb.stop o (Overwrite.mem_of_startingAt? ho)))
        simp only [ht]
        exact ⟨_, rfl⟩
      | none =>
        have hnext := hmin (hb.isBoundary_nextEditAfter pos)
        have hle : pos ≤ min (b.nextEditAfter pos) stop := by
          have hlen : pos ≤ b.length := Text.le_byteLength_of_isBoundary hpos
          rcases b.nextEditAfter_eq_or pos with h | ⟨h, -⟩ <;> omega
        obtain ⟨kept, hkept⟩ := Text.exists_slice?_of_isBoundary hpos hnext hle
        obtain ⟨t, ht⟩ := ih hnext
        simp only [hkept, ht]
        exact ⟨_, rfl⟩

/-- An anchored buffer can be read between any two boundaries. -/
theorem Anchored.exists_slice (hb : b.Anchored) {start stop : Nat}
    (hstart : Text.isBoundary b.source start = true) (hstop : Text.isBoundary b.source stop = true)
    (hle : start ≤ stop) : ∃ t, b.slice start stop = .ok t := by
  rw [slice, if_pos ⟨hle, Text.le_byteLength_of_isBoundary hstop⟩]
  exact hb.exists_sliceFrom hstop start _ hstart

end EditBuffer

end TemplateCompiler
