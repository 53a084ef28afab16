import TemplateCompiler.Proofs.Edit.Anchored

/-!
# A range is read with the edits inside of it

Reading a range looks at the left insertions after its start, at the right insertions before its end
and at the overwrites that start in it. Edits elsewhere make no difference, so a range that two
buffers edit in the same way has the same text in both.

## What this module delivers

* `Orderly`: a buffer whose edits are kept in the order of their offsets, as recording keeps them.
* `within`, `slice_within`: the edits of a range, and that they are all that a read looks at.
* `Confined`, `within_eq_ofText`: edits that stay in a span do not show in a range apart from it.
-/

set_option autoImplicit false

namespace TemplateCompiler

variable {offset : Nat} {text : Text}

/-! ## Sorted insertions -/

namespace Insertions

/-- Insertions at increasing offsets. -/
def Sorted (l : Insertions) : Prop :=
  l.Pairwise fun p q => p.1 < q.1

theorem add_of_lt {text : Text} {l : Insertions} (h : ∀ p ∈ l, offset < p.1) :
    l.add offset text = (offset, text) :: l := by
  cases l with
  | nil => rfl
  | cons p rest => rw [add, if_pos (h p List.mem_cons_self)]

theorem Sorted.add {l : Insertions} (h : l.Sorted) (offset : Nat) (text : Text) :
    (l.add offset text).Sorted := by
  induction l with
  | nil => exact List.pairwise_singleton _ _
  | cons p rest ih =>
    obtain ⟨k, t⟩ := p
    obtain ⟨hfirst, hrest⟩ := List.pairwise_cons.1 h
    rw [Insertions.add]
    split
    · rename_i hlt
      refine List.pairwise_cons.2 ⟨?_, h⟩
      intro q hq
      rcases List.mem_cons.1 hq with rfl | hq
      · exact hlt
      · exact Nat.lt_trans hlt (hfirst q hq)
    · split
      · exact List.pairwise_cons.2 ⟨hfirst, hrest⟩
      · refine List.pairwise_cons.2 ⟨?_, ih hrest⟩
        intro q hq
        rcases mem_add hq with hk | ⟨q', hq', hk⟩
        · show k < q.1
          omega
        · rw [← hk]
          exact hfirst q' hq'

/-- Adding at an offset that is kept commutes with keeping, and at another one does not show. -/
theorem filter_add {keep : Nat → Bool} {l : Insertions} (h : l.Sorted) (offset : Nat)
    (text : Text) :
    (l.add offset text).filter (fun p => keep p.1) =
      if keep offset then Insertions.add offset text (l.filter fun p => keep p.1)
      else l.filter fun p => keep p.1 := by
  induction l with
  | nil => cases hk : keep offset <;> simp [add, hk]
  | cons p rest ih =>
    obtain ⟨k, t⟩ := p
    obtain ⟨hfirst, hrest⟩ := List.pairwise_cons.1 h
    rw [add]
    split
    · rename_i hlt
      -- Everything that is kept comes after the offset.
      have hafter : ∀ q ∈ ((k, t) :: rest).filter (fun p => keep p.1), offset < q.1 := by
        intro q hq
        rcases List.mem_cons.1 (List.mem_filter.1 hq).1 with rfl | hq
        · exact hlt
        · exact Nat.lt_trans hlt (hfirst q hq)
      rw [add_of_lt hafter, List.filter_cons]
    · rename_i hge
      split
      · rename_i heq
        subst heq
        cases hk : keep offset <;> simp [add, hk]
      · rename_i hne
        rw [List.filter_cons, List.filter_cons, ih hrest]
        cases hk : keep k <;> cases ho : keep offset <;> simp [add, hge, hne]

/-- Adds texts one after the other. -/
def addAll (l : Insertions) (items : List (Nat × Text)) : Insertions :=
  items.foldl (fun l p => l.add p.1 p.2) l

theorem Sorted.addAll {l : Insertions} (h : l.Sorted) (items : List (Nat × Text)) :
    (l.addAll items).Sorted := by
  induction items generalizing l with
  | nil => exact h
  | cons p items ih => exact ih (h.add p.1 p.2)

theorem filter_addAll {keep : Nat → Bool} {l : Insertions} (h : l.Sorted)
    (items : List (Nat × Text)) :
    (l.addAll items).filter (fun p => keep p.1) =
      Insertions.addAll (l.filter fun p => keep p.1) (items.filter fun p => keep p.1) := by
  induction items generalizing l with
  | nil => rfl
  | cons p items ih =>
    have hstep : (l.addAll (p :: items)) = (l.add p.1 p.2).addAll items := rfl
    rw [hstep, ih (h.add p.1 p.2), filter_add h, List.filter_cons]
    split <;> rfl

theorem textAt_filter {keep : Nat → Bool} {offset : Nat} (h : keep offset = true)
    (l : Insertions) : textAt offset (l.filter fun p => keep p.1) = l.textAt offset := by
  induction l with
  | nil => rfl
  | cons p rest ih =>
    obtain ⟨k, t⟩ := p
    rw [List.filter_cons, textAt]
    by_cases hk : offset = k
    · subst hk
      simp [h, textAt]
    · rw [if_neg hk]
      split
      · rw [textAt, if_neg hk, ih]
      · exact ih

theorem nextAfter_eq_find? (pos : Nat) (l : Insertions) :
    l.nextAfter pos = (l.map Prod.fst).find? fun k => decide (pos < k) := by
  induction l with
  | nil => rfl
  | cons p rest ih =>
    rw [nextAfter, List.map_cons, List.find?_cons, ih]
    by_cases h : pos < p.1 <;> simp [h]

end Insertions

/-! ## Sorted overwrites -/

namespace Overwrite

theorem pairwise_insert {l : List Overwrite} (h : l.Pairwise fun o p => o.start ≤ p.start)
    (o : Overwrite) : (Overwrite.insert o l).Pairwise fun o p => o.start ≤ p.start := by
  induction l with
  | nil => exact List.pairwise_singleton _ _
  | cons p rest ih =>
    obtain ⟨hfirst, hrest⟩ := List.pairwise_cons.1 h
    rw [insert]
    split
    · rename_i hlt
      refine List.pairwise_cons.2 ⟨?_, h⟩
      intro q hq
      rcases List.mem_cons.1 hq with rfl | hq
      · exact Nat.le_of_lt hlt
      · exact Nat.le_trans (Nat.le_of_lt hlt) (hfirst q hq)
    · rename_i hge
      refine List.pairwise_cons.2 ⟨?_, ih hrest⟩
      intro q hq
      rcases mem_insert.1 hq with rfl | hq
      · exact Nat.le_of_not_lt hge
      · exact hfirst q hq

theorem startingAt?_filter {keep : Nat → Bool} {offset : Nat} (h : keep offset = true)
    (l : List Overwrite) :
    startingAt? offset (l.filter fun o => keep o.start) = startingAt? offset l := by
  induction l with
  | nil => rfl
  | cons o rest ih =>
    rw [List.filter_cons, startingAt?]
    by_cases hk : o.start = offset
    · subst hk
      simp [h, startingAt?]
    · rw [if_neg hk]
      split
      · rw [startingAt?, if_neg hk, ih]
      · exact ih

theorem start_of_startingAt? {o : Overwrite} {l : List Overwrite}
    (h : startingAt? offset l = some o) : o.start = offset := by
  induction l with
  | nil => cases h
  | cons p rest ih =>
    rw [startingAt?] at h
    split at h
    · rename_i hk
      rw [← Option.some.inj h]
      exact hk
    · exact ih h

theorem nextAfter_eq_find? (pos : Nat) (l : List Overwrite) :
    nextAfter pos l = (l.map Overwrite.start).find? fun k => decide (pos < k) := by
  induction l with
  | nil => rfl
  | cons o rest ih =>
    rw [nextAfter, List.map_cons, List.find?_cons, ih]
    by_cases h : pos < o.start <;> simp [h]

end Overwrite

/-- Up to a bound, the first of some increasing numbers after a position is found among those that
are kept, if all between the position and the bound are. -/
theorem min_find?_filter {l : List Nat} (hl : l.Pairwise (· ≤ ·)) {keep : Nat → Bool}
    {pos stop : Nat} (hkeep : ∀ k, pos < k → k < stop → keep k = true) :
    min stop (((l.filter keep).find? fun k => decide (pos < k)).getD stop) =
      min stop ((l.find? fun k => decide (pos < k)).getD stop) := by
  induction l with
  | nil => rfl
  | cons k rest ih =>
    obtain ⟨hfirst, hrest⟩ := List.pairwise_cons.1 hl
    rw [List.filter_cons, List.find?_cons]
    by_cases hlt : pos < k
    · simp only [hlt, decide_true]
      split
      · simp [hlt]
      · rename_i hdrop
        -- A number that is dropped is not before the bound, and neither are those after it.
        have hge : stop ≤ k := by
          rcases Nat.lt_or_ge k stop with h | h
          · exact absurd (hkeep k hlt h) hdrop
          · exact h
        rw [Option.getD_some, Nat.min_eq_left hge]
        cases hfind : (rest.filter keep).find? (fun k => decide (pos < k)) with
        | none => exact Nat.min_self stop
        | some j =>
          have hj := hfirst j (List.mem_filter.1 (List.mem_of_find?_eq_some hfind)).1
          exact Nat.min_eq_left (Nat.le_trans hge hj)
    · simp only [hlt, decide_false]
      split
      · simp only [List.find?_cons, hlt, decide_false]
        exact ih hrest
      · exact ih hrest

namespace EditBuffer

variable {b b' : EditBuffer} {s t : Span}

/-! ## Orderly buffers -/

/-- A buffer whose edits are kept in the order of their offsets. -/
structure Orderly (b : EditBuffer) : Prop where
  left : b.left.Sorted
  right : b.right.Sorted
  overwrites : b.overwrites.Pairwise fun o p => o.start ≤ p.start
  proper : ∀ o ∈ b.overwrites, o.start < o.stop

theorem orderly_ofText (source : Text) : (ofText source).Orderly :=
  ⟨.nil, .nil, .nil, fun _ h => nomatch h⟩

/-- Edits that show when a span is read: none stands outside of it. -/
structure Confined (b : EditBuffer) (s : Span) : Prop where
  left : ∀ p ∈ b.left, s.start < p.1 ∧ p.1 ≤ s.stop
  right : ∀ p ∈ b.right, s.start ≤ p.1 ∧ p.1 < s.stop
  overwrites : ∀ o ∈ b.overwrites, s.start ≤ o.start ∧ o.start < s.stop

theorem confined_ofText (source : Text) (s : Span) : (ofText source).Confined s := by
  constructor <;> exact fun _ h => nomatch h

theorem insertRight_eq_ok {text : Text} (h : b.insertRight offset text = .ok b') :
    b' = { b with right := b.right.add offset text } := by
  unfold insertRight at h
  split at h
  · exact (Except.ok.inj h).symm
  · cases h

theorem insertLeft_eq_ok {text : Text} (h : b.insertLeft offset text = .ok b') :
    b' = { b with left := b.left.add offset text } := by
  unfold insertLeft at h
  split at h
  · exact (Except.ok.inj h).symm
  · cases h

theorem overwrite_source {start stop : Nat} {text : Text}
    (h : b.overwrite start stop text = .ok b') : b'.source = b.source := by
  unfold EditBuffer.overwrite at h
  split at h
  · split at h
    · rw [insertRight_eq_ok h]
    · split at h
      · cases h
      · cases h
        rfl
  · cases h

/-- Both invariants of a buffer whose edits belong to one span. -/
structure Tidy (b : EditBuffer) (s : Span) : Prop where
  orderly : b.Orderly
  confined : b.Confined s

theorem tidy_ofText (source : Text) (s : Span) : (ofText source).Tidy s :=
  ⟨orderly_ofText source, confined_ofText source s⟩

theorem Tidy.insertRight (hb : b.Tidy s) {text : Text}
    (h : b.insertRight offset text = .ok b') (hstart : s.start ≤ offset)
    (hstop : offset < s.stop) : b'.Tidy s := by
  rw [insertRight_eq_ok h]
  obtain ⟨ho, hc⟩ := hb
  refine ⟨⟨ho.left, ho.right.add offset text, ho.overwrites, ho.proper⟩,
    ⟨hc.left, ?_, hc.overwrites⟩⟩
  intro p hp
  rcases Insertions.mem_add hp with hk | ⟨q, hq, hk⟩
  · rw [hk]
    exact ⟨hstart, hstop⟩
  · rw [← hk]
    exact hc.right q hq

theorem Tidy.insertLeft (hb : b.Tidy s) {text : Text}
    (h : b.insertLeft offset text = .ok b') (hstart : s.start < offset)
    (hstop : offset ≤ s.stop) : b'.Tidy s := by
  rw [insertLeft_eq_ok h]
  obtain ⟨ho, hc⟩ := hb
  refine ⟨⟨ho.left.add offset text, ho.right, ho.overwrites, ho.proper⟩,
    ⟨?_, hc.right, hc.overwrites⟩⟩
  intro p hp
  rcases Insertions.mem_add hp with hk | ⟨q, hq, hk⟩
  · rw [hk]
    exact ⟨hstart, hstop⟩
  · rw [← hk]
    exact hc.left q hq

theorem Tidy.overwrite (hb : b.Tidy s) {start stop : Nat} {text : Text}
    (h : b.overwrite start stop text = .ok b') (hstart : s.start ≤ start)
    (hstop : start < s.stop) : b'.Tidy s := by
  unfold EditBuffer.overwrite at h
  split at h
  · rename_i hrange
    split at h
    · exact hb.insertRight h hstart hstop
    · rename_i hne
      split at h
      · cases h
      · obtain ⟨ho, hc⟩ := hb
        cases h
        refine ⟨⟨ho.left, ho.right, Overwrite.pairwise_insert ho.overwrites _, ?_⟩,
          ⟨hc.left, hc.right, ?_⟩⟩
        · intro o hmem
          rcases Overwrite.mem_insert.1 hmem with rfl | hmem
          · exact Nat.lt_of_le_of_ne hrange.1 hne
          · exact ho.proper o hmem
        · intro o hmem
          rcases Overwrite.mem_insert.1 hmem with rfl | hmem
          · exact ⟨hstart, hstop⟩
          · exact hc.overwrites o hmem
  · cases h

/-! ## The edits of a range -/

/-- Whether a left insertion at an offset shows when a span is read. -/
def showsLeft (s : Span) (offset : Nat) : Bool :=
  decide (s.start < offset ∧ offset ≤ s.stop)

/-- Whether a right insertion or an overwrite at an offset shows when a span is read. -/
def showsRight (s : Span) (offset : Nat) : Bool :=
  decide (s.start ≤ offset ∧ offset < s.stop)

/-- The source with the edits only that show when a span is read. -/
def within (b : EditBuffer) (s : Span) : EditBuffer where
  source := b.source
  left := b.left.filter fun p => showsLeft s p.1
  right := b.right.filter fun p => showsRight s p.1
  overwrites := b.overwrites.filter fun o => showsRight s o.start

/-- Edits that stay in a span do not show in a range apart from it. -/
theorem Confined.within_eq_ofText (hb : b.Confined s) (h : t.stop ≤ s.start ∨ s.stop ≤ t.start) :
    b.within t = ofText b.source := by
  have hleft : b.left.filter (fun p => showsLeft t p.1) = [] := by
    refine List.filter_eq_nil_iff.2 fun p hp => ?_
    have := hb.left p hp
    simp only [showsLeft, decide_eq_true_eq]
    omega
  have hright : b.right.filter (fun p => showsRight t p.1) = [] := by
    refine List.filter_eq_nil_iff.2 fun p hp => ?_
    have := hb.right p hp
    simp only [showsRight, decide_eq_true_eq]
    omega
  have hoverwrites : b.overwrites.filter (fun o => showsRight t o.start) = [] := by
    refine List.filter_eq_nil_iff.2 fun o ho => ?_
    have := hb.overwrites o ho
    simp only [showsRight, decide_eq_true_eq]
    omega
  rw [within, hleft, hright, hoverwrites]
  rfl

/-- Up to a bound inside of the source, the next edit is the first one of each kind. -/
theorem min_nextEditAfter {stop : Nat} (hstop : stop ≤ b.length) (pos : Nat) :
    min (b.nextEditAfter pos) stop =
      min (min (min stop ((b.left.nextAfter pos).getD stop))
        (min stop ((b.right.nextAfter pos).getD stop)))
        (min stop ((Overwrite.nextAfter pos b.overwrites).getD stop)) := by
  unfold nextEditAfter
  cases b.left.nextAfter pos <;> cases b.right.nextAfter pos <;>
    cases Overwrite.nextAfter pos b.overwrites <;>
    simp only [List.filterMap, id, List.foldl_cons, List.foldl_nil, Option.getD_some,
      Option.getD_none] <;> omega

/-- Looking for the next edit in a range finds the same one among the edits of the range. -/
theorem nextEditAfter_within (hb : b.Orderly) (hs : s.stop ≤ b.length) {pos : Nat}
    (hpos : s.start ≤ pos) :
    min ((b.within s).nextEditAfter pos) s.stop = min (b.nextEditAfter pos) s.stop := by
  have hshowsLeft : ∀ k, pos < k → k < s.stop → showsLeft s k = true := by
    intro k h h'
    simp only [showsLeft, decide_eq_true_eq]
    omega
  have hshowsRight : ∀ k, pos < k → k < s.stop → showsRight s k = true := by
    intro k h h'
    simp only [showsRight, decide_eq_true_eq]
    omega
  have hsorted : ∀ {l : Insertions}, l.Sorted → (l.map Prod.fst).Pairwise (· ≤ ·) :=
    fun hl => List.pairwise_map.2 (hl.imp Nat.le_of_lt)
  rw [min_nextEditAfter (b := b.within s) hs, min_nextEditAfter hs]
  simp only [within, Insertions.nextAfter_eq_find?, Overwrite.nextAfter_eq_find?]
  rw [← min_find?_filter (hsorted hb.left) hshowsLeft,
    ← min_find?_filter (hsorted hb.right) hshowsRight,
    ← min_find?_filter (List.pairwise_map.2 hb.overwrites) hshowsRight]
  simp only [List.filter_map, Function.comp_def]

/-- From any offset in a range on, the text is read with the edits of the range only. -/
theorem sliceFrom_within (hb : b.Orderly) (hs : s.stop ≤ b.length) (steps : Nat) {pos : Nat}
    (hstart : s.start ≤ pos) (hstop : pos ≤ s.stop) :
    (b.within s).sliceFrom s.start s.stop steps pos = b.sliceFrom s.start s.stop steps pos := by
  induction steps generalizing pos with
  | zero => rfl
  | succ steps ih =>
    have hbefore : (if s.start < pos then (b.within s).left.textAt pos else []) =
        if s.start < pos then b.left.textAt pos else [] := by
      split
      · rename_i hlt
        have hshows : showsLeft s pos = true := by simp [showsLeft, hlt, hstop]
        exact Insertions.textAt_filter hshows _
      · rfl
    simp only [sliceFrom, hbefore]
    -- Only what goes in front of the end is read there, which `hbefore` is about.
    by_cases hend : s.stop ≤ pos
    · simp only [hend, if_true]
    · have hshows : showsRight s pos = true := by
        simp only [showsRight, decide_eq_true_eq]
        omega
      have hright : (b.within s).right.textAt pos = b.right.textAt pos :=
        Insertions.textAt_filter hshows _
      have hstarting : Overwrite.startingAt? pos (b.within s).overwrites =
          Overwrite.startingAt? pos b.overwrites := Overwrite.startingAt?_filter hshows _
      simp only [hend, if_false, hright, hstarting, nextEditAfter_within hb hs hstart]
      cases ho : Overwrite.startingAt? pos b.overwrites with
      | some o =>
        -- An overwrite is not empty, so the read goes on behind the offset.
        have hproper := hb.proper o (Overwrite.mem_of_startingAt? ho)
        rw [Overwrite.start_of_startingAt? ho] at hproper
        have hge : s.start ≤ min o.stop s.stop := by omega
        simp only [ih hge (Nat.min_le_right ..)]
      | none =>
        have hnext : pos < b.nextEditAfter pos ∨ b.nextEditAfter pos = b.length := by
          rcases b.nextEditAfter_eq_or pos with h | h
          · exact Or.inr h
          · exact Or.inl h.1
        have hge : s.start ≤ min (b.nextEditAfter pos) s.stop := by omega
        simp only [ih hge (Nat.min_le_right ..)]
        rfl

/-- A range is read with the edits of the range only. -/
theorem slice_within (hb : b.Orderly) (s : Span) :
    (b.within s).slice s.start s.stop = b.slice s.start s.stop := by
  have hlength : (b.within s).length = b.length := rfl
  unfold slice
  rw [hlength]
  by_cases h : s.start ≤ s.stop ∧ s.stop ≤ b.length
  · rw [if_pos h, if_pos h, sliceFrom_within hb h.2 _ (Nat.le_refl _) h.1]
  · rw [if_neg h, if_neg h]

/-- A range that two buffers edit in the same way has the same text in both. -/
theorem slice_eq_of_within_eq (hb : b.Orderly) (hb' : b'.Orderly) (h : b.within s = b'.within s) :
    b.slice s.start s.stop = b'.slice s.start s.stop := by
  rw [← slice_within hb, h, slice_within hb']

end EditBuffer

end TemplateCompiler
