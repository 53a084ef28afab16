import Mathlib.Data.List.Sort
import TemplateCompiler.Proofs.Edit.Meaning

/-!
# Edits in another order

Which edits a buffer accepts, and what it holds then, does not depend on the order in which they are
recorded. A range is refused for the ranges replaced before it and is accepted before them, yet what
decides is that no two of them meet, and that says nothing of an order. Insertions are told apart by
their side and their offset, and only those that agree in both stand one behind the other.

## What this module delivers

* `Edit.InRange`, `Overwrite.Disjoint`, `recordEdits_accepted_iff`: which histories are accepted.
* `Insertions.Sorted.ext`, `Overwrite.Apart.ext`: what determines the edits that a buffer holds.
* `Rearranges`, `recordEdits_rearranged`: a history in another order leads to the same buffer.
-/

set_option autoImplicit false

namespace TemplateCompiler

open Text

/-! ## Accepted histories -/

/-- An edit inside of a source of some length. -/
def Edit.InRange (length : Nat) : Edit → Prop
  | .insertRight offset _ | .insertLeft offset _ => offset ≤ length
  | .overwrite start stop _ | .remove start stop => start ≤ stop ∧ stop ≤ length

/-- Two ranges that do not meet, whichever of them comes first. -/
def Overwrite.Disjoint (o p : Overwrite) : Prop :=
  o.stop ≤ p.start ∨ p.stop ≤ o.start

theorem Overwrite.Disjoint.symm {o p : Overwrite} (h : o.Disjoint p) : p.Disjoint o :=
  Or.symm h

namespace EditBuffer

variable {b b' : EditBuffer}

/-- Overwriting is accepted exactly if the range is inside of the source and, unless it is empty,
meets none that was overwritten before. -/
theorem overwrite_accepted_iff (hb : b.Orderly) (hapart : Overwrite.Apart b.overwrites)
    {start stop : Nat} {text : Text} :
    (∃ b', b.overwrite start stop text = .ok b') ↔
      (start ≤ stop ∧ stop ≤ b.length) ∧
        (start ≠ stop → ∀ o ∈ b.overwrites, o.Disjoint ⟨start, stop, text⟩) := by
  constructor
  · rintro ⟨b', h⟩
    refine ⟨?_, fun hne => ?_⟩
    · by_contra hrange
      rw [overwrite, if_neg hrange] at h
      cases h
    · rcases overwrite_eq_ok hb hapart h with ⟨heq, -⟩ | ⟨-, hdisjoint, -⟩
      · exact absurd heq hne
      · exact hdisjoint
  · rintro ⟨hrange, hdisjoint⟩
    rw [overwrite, if_pos hrange]
    by_cases heq : start = stop
    · rw [if_pos heq]
      exact ⟨_, if_pos (Nat.le_trans hrange.1 hrange.2)⟩
    · have hclear : b.Clear ⟨start, stop⟩ := hdisjoint heq
      rw [if_neg heq, not_meetsOverwrite hclear]
      exact ⟨_, rfl⟩

/-- An edit is accepted exactly if it is inside of the source and what it replaces meets nothing
that was replaced before. -/
theorem recordEdit_accepted_iff (hb : b.Orderly) (hapart : Overwrite.Apart b.overwrites)
    {e : Edit} :
    (∃ b', b.recordEdit e = .ok b') ↔
      e.InRange b.length ∧ ∀ o ∈ e.replacement?, ∀ p ∈ b.overwrites, p.Disjoint o := by
  have hover : ∀ {start stop : Nat} {text : Text},
      (∃ b', b.overwrite start stop text = .ok b') ↔
        (start ≤ stop ∧ stop ≤ b.length) ∧
          ∀ o ∈ (if start = stop then none else some (⟨start, stop, text⟩ : Overwrite)),
            ∀ p ∈ b.overwrites, p.Disjoint o := by
    intro start stop text
    rw [overwrite_accepted_iff hb hapart]
    by_cases heq : start = stop <;> simp [heq]
  cases e with
  | insertRight offset text =>
    simp only [recordEdit, insertRight, Edit.InRange, Edit.replacement?]
    by_cases h : offset ≤ b.length <;> simp [h]
  | insertLeft offset text =>
    simp only [recordEdit, insertLeft, Edit.InRange, Edit.replacement?]
    by_cases h : offset ≤ b.length <;> simp [h]
  | overwrite start stop text => exact hover
  | remove start stop => exact hover

end EditBuffer

theorem replacements_concat (edits : List Edit) (e : Edit) :
    replacements (edits ++ [e]) = replacements edits ++ e.replacement?.toList := by
  rw [replacements, List.filterMap_append]
  cases h : e.replacement? <;> simp [replacements, h]

/-- A history is accepted exactly if its edits are inside of the source and no two of the ranges
that it replaces meet. Neither depends on the order of the edits. -/
theorem recordEdits_accepted_iff {source : Text} {edits : List Edit} :
    (∃ b, (EditBuffer.ofText source).recordEdits edits = .ok b) ↔
      (∀ e ∈ edits, e.InRange (byteLength source)) ∧
        (replacements edits).Pairwise Overwrite.Disjoint := by
  induction edits using List.reverseRecOn with
  | nil => exact ⟨fun _ => ⟨nofun, .nil⟩, fun _ => ⟨_, rfl⟩⟩
  | append_singleton edits e ih =>
    -- What the last edit may meet is what the ones before it replace.
    have hlast : ∀ b, (EditBuffer.ofText source).recordEdits edits = .ok b →
        ((∃ b', b.recordEdit e = .ok b') ↔ e.InRange (byteLength source) ∧
          ∀ o ∈ e.replacement?, ∀ p ∈ replacements edits, p.Disjoint o) := by
      intro b hb
      have hrecorded := recorded_of_recordEdits hb
      rw [EditBuffer.recordEdit_accepted_iff hrecorded.orderly hrecorded.apart, EditBuffer.length,
        hrecorded.source]
      simp only [hrecorded.overwrites]
    have hsingle : e.replacement?.toList.Pairwise Overwrite.Disjoint := by
      cases e.replacement? <;> simp
    rw [recordEdits_concat, replacements_concat, List.pairwise_append]
    simp only [List.forall_mem_append, List.forall_mem_singleton, hsingle, true_and,
      Option.mem_toList]
    constructor
    · rintro ⟨b', h⟩
      obtain ⟨b, hb, hb'⟩ := bind_eq_ok_iff.1 h
      obtain ⟨hrange, hdisjoint⟩ := ih.1 ⟨b, hb⟩
      obtain ⟨hrange', hdisjoint'⟩ := (hlast b hb).1 ⟨b', hb'⟩
      exact ⟨⟨hrange, hrange'⟩, hdisjoint, fun p hp o ho => hdisjoint' o ho p hp⟩
    · rintro ⟨⟨hrange, hrange'⟩, hdisjoint, hdisjoint'⟩
      obtain ⟨b, hb⟩ := ih.2 ⟨hrange, hdisjoint⟩
      obtain ⟨b', hb'⟩ := (hlast b hb).2 ⟨hrange', fun o ho p hp => hdisjoint' p hp o ho⟩
      exact ⟨b', bind_eq_ok_iff.2 ⟨b, hb, hb'⟩⟩

/-! ## Buffers told apart -/

namespace Insertions

theorem mem_keys_add {k offset : Nat} {text : Text} {l : Insertions} :
    k ∈ (l.add offset text).map Prod.fst ↔ k = offset ∨ k ∈ l.map Prod.fst := by
  induction l with
  | nil => simp [add]
  | cons p rest ih =>
    obtain ⟨j, t⟩ := p
    rw [add]
    split
    · simp
    · split
      · rename_i heq
        simp [heq]
      · rw [List.map_cons, List.mem_cons, ih, List.map_cons, List.mem_cons, or_left_comm]

theorem Sorted.mem_iff {l : Insertions} (h : l.Sorted) {k : Nat} {t : Text} :
    (k, t) ∈ l ↔ k ∈ l.map Prod.fst ∧ l.textAt k = t := by
  induction l with
  | nil => simp
  | cons p rest ih =>
    obtain ⟨j, u⟩ := p
    obtain ⟨hfirst, hrest⟩ := List.pairwise_cons.1 h
    rw [textAt, List.map_cons, List.mem_cons, List.mem_cons, ih hrest]
    by_cases hk : k = j
    · subst hk
      -- The keys after the first are larger.
      have hnot : k ∉ rest.map Prod.fst := by
        intro hmem
        obtain ⟨q, hq, hqk⟩ := List.mem_map.1 hmem
        exact Nat.ne_of_gt (hfirst q hq) hqk
      simp [hnot, eq_comm]
    · simp [hk]

/-- Sorted insertions are determined by their offsets and the text at each of them. An offset may
have an empty text, so the texts alone do not tell. -/
theorem Sorted.ext {l l' : Insertions} (h : l.Sorted) (h' : l'.Sorted)
    (hkeys : ∀ k, k ∈ l.map Prod.fst ↔ k ∈ l'.map Prod.fst)
    (htext : ∀ k, l.textAt k = l'.textAt k) : l = l' := by
  have hirrefl : Std.Irrefl fun p q : Nat × Text => p.1 < q.1 := ⟨fun p => Nat.lt_irrefl p.1⟩
  have hasymm : Std.Antisymm fun p q : Nat × Text => p.1 < q.1 :=
    ⟨fun p q hpq hqp => absurd hqp (Nat.lt_asymm hpq)⟩
  refine List.Pairwise.eq_of_mem_iff h h' fun p => ?_
  rw [h.mem_iff, h'.mem_iff, hkeys, htext]

end Insertions

/-- Ranges that are not empty and lie one behind the other are determined by which they are. -/
theorem Overwrite.Apart.ext {l l' : List Overwrite} (h : Apart l) (h' : Apart l')
    (hproper : ∀ o ∈ l, o.start < o.stop) (hmem : ∀ o, o ∈ l ↔ o ∈ l') : l = l' := by
  have hirrefl : Std.Irrefl fun o p : Overwrite => o.stop ≤ p.start ∧ o.start < o.stop :=
    ⟨fun o ho => by omega⟩
  have hantisymm : Std.Antisymm fun o p : Overwrite => o.stop ≤ p.start ∧ o.start < o.stop :=
    ⟨fun o p hop hpo => by omega⟩
  have hstrict : ∀ {l : List Overwrite}, Apart l → (∀ o ∈ l, o.start < o.stop) →
      l.Pairwise fun o p => o.stop ≤ p.start ∧ o.start < o.stop := by
    intro l hl hproper
    exact hl.imp_of_mem fun ho _ hle => ⟨hle, hproper _ ho⟩
  have hproper' : ∀ o ∈ l', o.start < o.stop := fun o ho => hproper o ((hmem o).2 ho)
  exact List.Pairwise.eq_of_mem_iff (hstrict h hproper) (hstrict h' hproper') hmem

/-! ## Histories that agree -/

namespace Edit

/-- Whether an edit inserts at an offset, as a part of the chunk that ends there. -/
def insertsLeft (p : Nat) : Edit → Bool
  | .insertLeft offset _ => offset == p
  | .insertRight _ _ | .overwrite _ _ _ | .remove _ _ => false

/-- Whether an edit inserts at an offset, as a part of the chunk that starts there. Replacing or
removing an empty range is such an insertion. -/
def insertsRight (p : Nat) : Edit → Bool
  | .insertRight offset _ => offset == p
  | .overwrite start stop _ | .remove start stop => start == stop && start == p
  | .insertLeft _ _ => false

theorem leftAt_eq_nil {p : Nat} {e : Edit} (h : e.insertsLeft p = false) : e.leftAt p = [] := by
  cases e with
  | insertLeft offset text => exact if_neg (by simpa [insertsLeft] using h)
  | insertRight | overwrite | remove => rfl

theorem rightAt_eq_nil {p : Nat} {e : Edit} (h : e.insertsRight p = false) :
    e.rightAt p = [] := by
  cases e with
  | insertRight offset text => exact if_neg (by simpa [insertsRight] using h)
  | overwrite start stop text => exact if_neg (by simpa [insertsRight] using h)
  | insertLeft | remove => rfl

theorem mem_anchors_of_insertsLeft {p : Nat} {e : Edit} (h : e.insertsLeft p = true) :
    p ∈ e.anchors := by
  cases e with
  | insertLeft offset text =>
    rw [insertsLeft, beq_iff_eq] at h
    simp [anchors, h]
  | insertRight | overwrite | remove => cases h

theorem mem_anchors_of_insertsRight {p : Nat} {e : Edit} (h : e.insertsRight p = true) :
    p ∈ e.anchors := by
  cases e with
  | insertRight offset text =>
    rw [insertsRight, beq_iff_eq] at h
    simp [anchors, h]
  | overwrite start stop text | remove start stop =>
    simp only [insertsRight, Bool.and_eq_true, beq_iff_eq] at h
    simp [anchors, h.2]
  | insertLeft => cases h

end Edit

namespace EditBuffer

variable {b b' : EditBuffer} {e : Edit}

/-- The offsets of one more edit join those of the insertions that are there. -/
theorem mem_keys_recordEdit (hb : b.Orderly) (hapart : Overwrite.Apart b.overwrites)
    (h : b.recordEdit e = .ok b') (k : Nat) :
    (k ∈ b'.left.map Prod.fst ↔ k ∈ b.left.map Prod.fst ∨ e.insertsLeft k = true) ∧
      (k ∈ b'.right.map Prod.fst ↔ k ∈ b.right.map Prod.fst ∨ e.insertsRight k = true) := by
  have hover : ∀ {start stop : Nat} {text : Text}, b.overwrite start stop text = .ok b' →
      b'.left = b.left ∧ (k ∈ b'.right.map Prod.fst ↔
        k ∈ b.right.map Prod.fst ∨ (start == stop && start == k) = true) := by
    intro start stop text h
    rcases overwrite_eq_ok hb hapart h with ⟨rfl, rfl⟩ | ⟨hlt, -, rfl⟩
    · refine ⟨rfl, ?_⟩
      rw [Insertions.mem_keys_add, or_comm, eq_comm (a := k)]
      simp
    · have hne : start ≠ stop := Nat.ne_of_lt hlt
      simp [hne]
  cases e with
  | insertRight offset text =>
    rw [insertRight_eq_ok h, Insertions.mem_keys_add, eq_comm (a := k)]
    simp [Edit.insertsLeft, Edit.insertsRight, or_comm]
  | insertLeft offset text =>
    rw [insertLeft_eq_ok h, Insertions.mem_keys_add, eq_comm (a := k)]
    simp [Edit.insertsLeft, Edit.insertsRight, or_comm]
  | overwrite start stop text =>
    obtain ⟨hleft, hright⟩ := hover h
    exact ⟨by simp [hleft, Edit.insertsLeft], hright⟩
  | remove start stop =>
    obtain ⟨hleft, hright⟩ := hover h
    exact ⟨by simp [hleft, Edit.insertsLeft], hright⟩

/-- A buffer holds insertions at the offsets where its history inserts, empty texts included. -/
theorem mem_keys_recordEdits {source : Text} {edits : List Edit}
    (h : (ofText source).recordEdits edits = .ok b) (k : Nat) :
    (k ∈ b.left.map Prod.fst ↔ ∃ e ∈ edits, e.insertsLeft k = true) ∧
      (k ∈ b.right.map Prod.fst ↔ ∃ e ∈ edits, e.insertsRight k = true) := by
  induction edits using List.reverseRecOn generalizing b with
  | nil =>
    cases h
    simp [ofText]
  | append_singleton edits e ih =>
    rw [recordEdits_concat] at h
    obtain ⟨b₁, h₁, h₂⟩ := bind_eq_ok_iff.1 h
    have hrecorded := recorded_of_recordEdits h₁
    obtain ⟨hleft, hright⟩ := mem_keys_recordEdit hrecorded.orderly hrecorded.apart h₂ k
    obtain ⟨ihleft, ihright⟩ := ih h₁
    rw [hleft, hright, ihleft, ihright]
    simp [or_and_right, exists_or]

end EditBuffer

/-- The edits of one history in another order, in which the insertions on one side of one offset
still follow each other as they did. -/
structure Rearranges (edits edits' : List Edit) : Prop where
  perm : edits.Perm edits'
  left : ∀ p, edits.filter (Edit.insertsLeft p) = edits'.filter (Edit.insertsLeft p)
  right : ∀ p, edits.filter (Edit.insertsRight p) = edits'.filter (Edit.insertsRight p)

/-- Only the offsets where a history is anchored need a look. -/
theorem rearranges_iff {edits edits' : List Edit} :
    Rearranges edits edits' ↔ edits.Perm edits' ∧ ∀ p ∈ edits.flatMap Edit.anchors,
      edits.filter (Edit.insertsLeft p) = edits'.filter (Edit.insertsLeft p) ∧
        edits.filter (Edit.insertsRight p) = edits'.filter (Edit.insertsRight p) := by
  constructor
  · intro h
    exact ⟨h.perm, fun p _ => ⟨h.left p, h.right p⟩⟩
  · rintro ⟨hperm, horder⟩
    -- Elsewhere neither history inserts anything.
    have hnone : ∀ p ∉ edits.flatMap Edit.anchors, ∀ inserts : Edit → Bool,
        (∀ e, inserts e = true → p ∈ e.anchors) → edits.filter inserts = edits'.filter inserts := by
      intro p hp inserts hanchor
      have hfalse : ∀ e ∈ edits, ¬ inserts e = true :=
        fun e he hinserts => hp (List.mem_flatMap.2 ⟨e, he, hanchor e hinserts⟩)
      rw [List.filter_eq_nil_iff.2 hfalse,
        List.filter_eq_nil_iff.2 fun e he => hfalse e (hperm.mem_iff.2 he)]
    refine ⟨hperm, fun p => ?_, fun p => ?_⟩
    · by_cases hp : p ∈ edits.flatMap Edit.anchors
      · exact (horder p hp).1
      · exact hnone p hp _ fun e => Edit.mem_anchors_of_insertsLeft
    · by_cases hp : p ∈ edits.flatMap Edit.anchors
      · exact (horder p hp).2
      · exact hnone p hp _ fun e => Edit.mem_anchors_of_insertsRight

instance (edits edits' : List Edit) : Decidable (Rearranges edits edits') :=
  decidable_of_iff _ rearranges_iff.symm

namespace Rearranges

variable {edits edits' : List Edit}

/-- What was recorded before stays where it is. -/
theorem append_left (h : Rearranges edits edits') (history : List Edit) :
    Rearranges (history ++ edits) (history ++ edits') where
  perm := h.perm.append_left history
  left p := by rw [List.filter_append, List.filter_append, h.left]
  right p := by rw [List.filter_append, List.filter_append, h.right]

theorem leftText_eq (h : Rearranges edits edits') (p : Nat) :
    leftText edits p = leftText edits' p := by
  have hfilter : ∀ edits : List Edit,
      (edits.filter (Edit.insertsLeft p)).flatMap (Edit.leftAt p) = leftText edits p :=
    fun _ => flatMap_filter_of_nil fun _ => Edit.leftAt_eq_nil
  rw [← hfilter edits, ← hfilter edits', h.left]

theorem rightText_eq (h : Rearranges edits edits') (p : Nat) :
    rightText edits p = rightText edits' p := by
  have hfilter : ∀ edits : List Edit,
      (edits.filter (Edit.insertsRight p)).flatMap (Edit.rightAt p) = rightText edits p :=
    fun _ => flatMap_filter_of_nil fun _ => Edit.rightAt_eq_nil
  rw [← hfilter edits, ← hfilter edits', h.right]

theorem replacements_perm (h : Rearranges edits edits') :
    (replacements edits).Perm (replacements edits') :=
  h.perm.filterMap _

variable {source : Text} {b b' : EditBuffer}

/-- Whether a history is accepted does not depend on its order. -/
theorem accepted (h : Rearranges edits edits')
    (hb : (EditBuffer.ofText source).recordEdits edits = .ok b) :
    ∃ b', (EditBuffer.ofText source).recordEdits edits' = .ok b' := by
  obtain ⟨hrange, hdisjoint⟩ := recordEdits_accepted_iff.1 ⟨b, hb⟩
  refine recordEdits_accepted_iff.2 ⟨fun e he => hrange e (h.perm.mem_iff.2 he), ?_⟩
  exact (h.replacements_perm.pairwise_iff Overwrite.Disjoint.symm).1 hdisjoint

/-- Histories that differ in their order only are recorded in the same buffer. -/
theorem buffer_eq (h : Rearranges edits edits')
    (hb : (EditBuffer.ofText source).recordEdits edits = .ok b)
    (hb' : (EditBuffer.ofText source).recordEdits edits' = .ok b') : b = b' := by
  have hr := recorded_of_recordEdits hb
  have hr' := recorded_of_recordEdits hb'
  have hsource : b.source = b'.source := by rw [hr.source, hr'.source]
  have hleft : b.left = b'.left := by
    refine hr.orderly.left.ext hr'.orderly.left (fun k => ?_) (fun k => ?_)
    · rw [(EditBuffer.mem_keys_recordEdits hb k).1, (EditBuffer.mem_keys_recordEdits hb' k).1]
      simp only [h.perm.mem_iff]
    · rw [hr.left, hr'.left, h.leftText_eq]
  have hright : b.right = b'.right := by
    refine hr.orderly.right.ext hr'.orderly.right (fun k => ?_) (fun k => ?_)
    · rw [(EditBuffer.mem_keys_recordEdits hb k).2, (EditBuffer.mem_keys_recordEdits hb' k).2]
      simp only [h.perm.mem_iff]
    · rw [hr.right, hr'.right, h.rightText_eq]
  have hoverwrites : b.overwrites = b'.overwrites := by
    refine hr.apart.ext hr'.apart hr.orderly.proper fun o => ?_
    rw [hr.overwrites, hr'.overwrites, h.replacements_perm.mem_iff]
  obtain ⟨_, _, _, _⟩ := b
  obtain ⟨_, _, _, _⟩ := b'
  cases hsource
  cases hleft
  cases hright
  cases hoverwrites
  rfl

end Rearranges

/-- Independent edits commute. If a buffer accepts some edits, it accepts them in every order in
which the insertions on one side of one offset follow each other as before, and then it is the same
buffer and has the same text in every range. -/
theorem recordEdits_rearranged {source : Text} {history edits edits' : List Edit} {b c : EditBuffer}
    (hb : (EditBuffer.ofText source).recordEdits history = .ok b)
    (hc : b.recordEdits edits = .ok c) (h : Rearranges edits edits') :
    ∃ c', b.recordEdits edits' = .ok c' ∧ c' = c ∧
      ∀ start stop, c'.slice start stop = c.slice start stop := by
  -- The edits of the buffer itself come first in both histories.
  have hwhole : ∀ more : List Edit, (EditBuffer.ofText source).recordEdits (history ++ more) =
      b.recordEdits more := by
    intro more
    rw [EditBuffer.recordEdits, List.foldlM_append]
    exact congrArg (· >>= _) hb
  rw [← hwhole] at hc ⊢
  obtain ⟨c', hc'⟩ := (h.append_left history).accepted hc
  have heq := (h.append_left history).buffer_eq hc hc'
  exact ⟨c', hc', heq.symm, fun start stop => by rw [heq]⟩

/-- The crowded edits with the replaced ranges last and in the opposite order. What goes to the
right of the start is still inserted in the old order. -/
def crowdedEditsRearranged : List Edit :=
  [.insertLeft 0 "4".toList, .insertLeft 9 "3".toList, .overwrite 0 0 "1".toList,
    .insertLeft 6 "lost".toList, .insertRight 0 "2".toList, .insertLeft 7 ">".toList,
    .insertRight 4 "<".toList, .insertRight 5 "lost".toList, .remove 7 9,
    .overwrite 4 7 "qux".toList]

theorem recordEdits_rearranged_crowdedEdits :
    ∃ b c, (EditBuffer.ofText "foo baré".toList).recordEdits [.insertRight 0 "0".toList] = .ok b ∧
      b.recordEdits crowdedEdits = .ok c ∧ Rearranges crowdedEdits crowdedEditsRearranged ∧
      c.slice 0 9 = .ok "012foo <qux>3".toList ∧
      ∃ c', b.recordEdits crowdedEditsRearranged = .ok c' ∧ c' = c ∧
        ∀ start stop, c'.slice start stop = c.slice start stop := by
  have hsome : (((EditBuffer.ofText "foo baré".toList).recordEdits
      [.insertRight 0 "0".toList]).toOption.bind fun b => (b.recordEdits crowdedEdits).toOption.bind
        fun c => (c.slice 0 9).toOption) = some "012foo <qux>3".toList := by
    decide
  obtain ⟨b, hb, h⟩ := Option.bind_eq_some_iff.1 hsome
  obtain ⟨c, hc, hslice⟩ := Option.bind_eq_some_iff.1 h
  have hb := toOption_eq_some_iff.1 hb
  have hc := toOption_eq_some_iff.1 hc
  have horder : Rearranges crowdedEdits crowdedEditsRearranged := by decide
  exact ⟨b, c, hb, hc, horder, toOption_eq_some_iff.1 hslice, recordEdits_rearranged hb hc horder⟩

end TemplateCompiler
