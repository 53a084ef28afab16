import Mathlib.Data.List.Basic
import TemplateCompiler.Proofs.Edit.History
import TemplateCompiler.Proofs.Text.Bytes

/-!
# What an edited text says

Reading jumps from one anchor of an edit to the next. The text it answers is the one that a reader gets
who goes over the source byte by byte and looks up in the history of the edits, at every byte, what was
inserted there and whether it was replaced.

## What this module delivers

* `bytesAt`, `editedBytes`: the bytes of a range, offset by offset.
* `Recorded.sliceFrom_bytes`: reading on from an offset.
* `Edit.shows`: the edits that make a difference.
* `slice_eq_editedBytes`: reading answers the bytes that the history says.
-/

set_option autoImplicit false

namespace TemplateCompiler

open Text

/-! ## Reading offset by offset -/

/-- The byte of a text at an offset, if there is one. -/
def byteAt (t : Text) (p : Nat) : List UInt8 := (encode t)[p]?.toList

/-- What is read at an offset: the replacement of a range that starts there, and otherwise the byte of
the source. -/
def contentAt (source : Text) (edits : List Edit) (p : Nat) : List UInt8 :=
  match (replacements edits).find? fun o => o.start == p with
  | some o => encode o.text
  | none => byteAt source p

/-- What an offset adds to the text of a range: what was inserted to its left unless the range starts
there, and, unless the range ends there, what was inserted to its right and what is read there. An
offset inside of a replaced range adds nothing. -/
def bytesAt (source : Text) (edits : List Edit) (start stop p : Nat) : List UInt8 :=
  if Covered edits p then []
  else
    (if start < p then encode (leftText edits p) else []) ++
      if p < stop then encode (rightText edits p) ++ contentAt source edits p else []

/-- The bytes of a range with all the edits applied, offset by offset. -/
def editedBytes (source : Text) (edits : List Edit) (start stop : Nat) : List UInt8 :=
  (List.range' start (stop - start + 1)).flatMap (bytesAt source edits start stop)

theorem flatMap_byteAt (t : Text) (start n : Nat) :
    (List.range' start n).flatMap (byteAt t) = ((encode t).drop start).take n := by
  induction n generalizing start with
  | zero => rfl
  | succ n ih =>
    rw [List.range'_succ, List.flatMap_cons, ih, byteAt]
    rcases Nat.lt_or_ge start (encode t).length with hlt | hge
    · rw [List.getElem?_eq_getElem hlt, List.drop_eq_getElem_cons hlt, List.take_succ_cons]
      rfl
    · rw [List.getElem?_eq_none hge, List.drop_eq_nil_of_le hge,
        List.drop_eq_nil_of_le (Nat.le_succ_of_le hge), List.take_nil]
      rfl

/-- In a sorted list, the first number after a position is found and is the least one. -/
theorem exists_find?_le {l : List Nat} (hl : l.Pairwise (· ≤ ·)) {pos k : Nat} (hk : k ∈ l)
    (hlt : pos < k) : ∃ j, l.find? (fun x => decide (pos < x)) = some j ∧ j ≤ k := by
  induction l with
  | nil => cases hk
  | cons x rest ih =>
    obtain ⟨hfirst, hrest⟩ := List.pairwise_cons.1 hl
    by_cases hx : pos < x
    · refine ⟨x, by rw [List.find?_cons_of_pos (by simpa using hx)], ?_⟩
      rcases List.mem_cons.1 hk with rfl | hk
      · exact Nat.le_refl _
      · exact hfirst k hk
    · rw [List.find?_cons_of_neg (by simpa using hx)]
      rcases List.mem_cons.1 hk with rfl | hk
      · exact absurd hlt hx
      · exact ih hrest hk

theorem foldl_min_le {l : List Nat} {bound k : Nat} (h : bound ≤ k ∨ k ∈ l) :
    l.foldl min bound ≤ k := by
  induction l generalizing bound with
  | nil =>
    rcases h with h | h
    · exact h
    · cases h
  | cons x rest ih =>
    rw [List.foldl_cons]
    refine ih ?_
    rcases h with h | h
    · exact .inl (Nat.le_trans (Nat.min_le_left ..) h)
    · rcases List.mem_cons.1 h with rfl | h
      · exact .inl (Nat.min_le_right ..)
      · exact .inr h

/-- No edit is anchored between an offset and the next edit after it. -/
theorem EditBuffer.Orderly.nextEditAfter_le {b : EditBuffer} (hb : b.Orderly) {pos k : Nat}
    (hk : (∃ q ∈ b.left, q.1 = k) ∨ (∃ q ∈ b.right, q.1 = k) ∨ ∃ o ∈ b.overwrites, o.start = k)
    (hlt : pos < k) : b.nextEditAfter pos ≤ k := by
  have hsorted : ∀ {l : Insertions}, l.Sorted → (l.map Prod.fst).Pairwise (· ≤ ·) :=
    fun hl => List.pairwise_map.2 (hl.imp Nat.le_of_lt)
  have hfound : ∀ j, j ∈ [b.left.nextAfter pos, b.right.nextAfter pos,
      Overwrite.nextAfter pos b.overwrites].filterMap id → b.nextEditAfter pos ≤ j :=
    fun j hj => foldl_min_le (Or.inr hj)
  simp only [List.mem_filterMap, id_eq, exists_eq_right, List.mem_cons, List.not_mem_nil,
    or_false, Insertions.nextAfter_eq_find?, Overwrite.nextAfter_eq_find?] at hfound
  rcases hk with ⟨q, hq, rfl⟩ | ⟨q, hq, rfl⟩ | ⟨o, ho, rfl⟩
  · obtain ⟨j, hj, hle⟩ := exists_find?_le (hsorted hb.left) (List.mem_map_of_mem hq) hlt
    exact Nat.le_trans (hfound j (.inl hj.symm)) hle
  · obtain ⟨j, hj, hle⟩ := exists_find?_le (hsorted hb.right) (List.mem_map_of_mem hq) hlt
    exact Nat.le_trans (hfound j (.inr (.inl hj.symm))) hle
  · obtain ⟨j, hj, hle⟩ := exists_find?_le (List.pairwise_map.2 hb.overwrites)
      (List.mem_map_of_mem ho) hlt
    exact Nat.le_trans (hfound j (.inr (.inr hj.symm))) hle

section

variable {source : Text} {edits : List Edit} {b : EditBuffer} {start stop pos : Nat}

theorem bytesAt_of_covered {p : Nat} (h : Covered edits p) :
    bytesAt source edits start stop p = [] := by
  rw [bytesAt, if_pos h]

/-- An offset that is not covered, and where the range does not end. -/
theorem bytesAt_of_lt {p : Nat} (h : ¬ Covered edits p) (hp : p < stop) :
    bytesAt source edits start stop p =
      (if start < p then encode (leftText edits p) else []) ++ encode (rightText edits p) ++
        contentAt source edits p := by
  rw [bytesAt, if_neg h, if_pos hp, List.append_assoc]

theorem flatMap_range'_split {α : Type} (f : Nat → List α) {pos next stop : Nat} (h : pos ≤ next)
    (h' : next ≤ stop) :
    (List.range' pos (stop - pos + 1)).flatMap f =
      (List.range' pos (next - pos)).flatMap f ++
        (List.range' next (stop - next + 1)).flatMap f := by
  have hlen : stop - pos + 1 = (next - pos) + (stop - next + 1) := by omega
  rw [hlen, ← List.range'_append_1, List.flatMap_append, Nat.add_sub_of_le h]

namespace Recorded

variable (h : Recorded source edits b)

include h

theorem covered_iff {p : Nat} :
    Covered edits p ↔ ∃ o ∈ b.overwrites, o.start < p ∧ p < o.stop := by
  simp only [Covered, h.overwrites]

/-- A range that starts at an offset is the only one. -/
theorem contentAt_of_startingAt? {p : Nat} {o : Overwrite}
    (ho : Overwrite.startingAt? p b.overwrites = some o) : contentAt source edits p = encode o.text := by
  have hmem := Overwrite.mem_of_startingAt? ho
  have hstart := Overwrite.start_of_startingAt? ho
  have hunique : ∀ o' ∈ b.overwrites, o'.start = p → o' = o := by
    intro o' hmem' hstart'
    have hproper := h.orderly.proper o hmem
    have hproper' := h.orderly.proper o' hmem'
    rcases h.apart.eq_or hmem' hmem with heq | hle
    · exact heq
    · omega
  rw [contentAt]
  cases hfind : (replacements edits).find? fun o => o.start == p with
  | none =>
    have := List.find?_eq_none.1 hfind o ((h.overwrites o).1 hmem)
    simp [hstart] at this
  | some o' =>
    have hstart' := List.find?_some hfind
    rw [hunique o' ((h.overwrites o').2 (List.mem_of_find?_eq_some hfind)) (by simpa using hstart')]

theorem contentAt_of_startingAt?_eq_none {p : Nat}
    (ho : Overwrite.startingAt? p b.overwrites = none) : contentAt source edits p = byteAt source p := by
  have hnone := Overwrite.startingAt?_eq_none.1 ho
  have hfind : (replacements edits).find? (fun o => o.start == p) = none := by
    refine List.find?_eq_none.2 fun o hmem => ?_
    simpa using hnone o ((h.overwrites o).2 hmem)
  rw [contentAt, hfind]

/-- Up to the next edit after an offset that is not covered, and where no replaced range starts, no
other offset is covered. -/
theorem not_covered_of_le_next (hpos : ¬ Covered edits pos)
    (hnone : Overwrite.startingAt? pos b.overwrites = none) {p : Nat} (hlt : pos < p)
    (hnext : p ≤ b.nextEditAfter pos) : ¬ Covered edits p := by
  rw [h.covered_iff] at hpos ⊢
  rintro ⟨o, ho, hstart, hstop⟩
  rcases Nat.lt_trichotomy pos o.start with hlt' | heq | hgt
  · have := h.orderly.nextEditAfter_le (.inr (.inr ⟨o, ho, rfl⟩)) hlt'
    omega
  · exact Overwrite.startingAt?_eq_none.1 hnone o ho heq.symm
  · exact hpos ⟨o, ho, hgt, by omega⟩

/-- Between such an offset and the next edit, only bytes of the source are read. -/
theorem bytesAt_between (hpos : ¬ Covered edits pos)
    (hnone : Overwrite.startingAt? pos b.overwrites = none) {p : Nat} (hlt : pos < p)
    (hnext : p < b.nextEditAfter pos) (hstop : p < stop) :
    bytesAt source edits start stop p = byteAt source p := by
  -- An edit that is anchored at `p` would have been the next one.
  have hquiet : ¬ ((∃ q ∈ b.left, q.1 = p) ∨ (∃ q ∈ b.right, q.1 = p) ∨
      ∃ o ∈ b.overwrites, o.start = p) := by
    intro hk
    have := h.orderly.nextEditAfter_le hk hlt
    omega
  have hleft : leftText edits p = [] := by
    rw [← h.left]
    exact Insertions.textAt_eq_nil fun q hq heq => hquiet (.inl ⟨q, hq, heq⟩)
  have hright : rightText edits p = [] := by
    rw [← h.right]
    exact Insertions.textAt_eq_nil fun q hq heq => hquiet (.inr (.inl ⟨q, hq, heq⟩))
  have hstarts : Overwrite.startingAt? p b.overwrites = none :=
    Overwrite.startingAt?_eq_none.2 fun o ho heq => hquiet (.inr (.inr ⟨o, ho, heq⟩))
  rw [bytesAt_of_lt (h.not_covered_of_le_next hpos hnone hlt (Nat.le_of_lt hnext)) hstop, hleft,
    hright, encode_nil, ite_self, h.contentAt_of_startingAt?_eq_none hstarts]
  rfl

/-- A chunk of the source up to the next edit, with what was inserted at its start. -/
theorem flatMap_bytesAt_kept (hpos : ¬ Covered edits pos)
    (hnone : Overwrite.startingAt? pos b.overwrites = none) {next : Nat} (hlt : pos < next)
    (hnext : next ≤ b.nextEditAfter pos) (hstop : next ≤ stop) {kept : Text}
    (hkept : slice? pos next source = some kept) :
    (List.range' pos (next - pos)).flatMap (bytesAt source edits start stop) =
      (if start < pos then encode (leftText edits pos) else []) ++ encode (rightText edits pos) ++
        encode kept := by
  obtain ⟨n, hn⟩ : ∃ n, next - pos = n + 1 := ⟨next - pos - 1, by omega⟩
  have hrest : (List.range' (pos + 1) n).flatMap (bytesAt source edits start stop) =
      (List.range' (pos + 1) n).flatMap (byteAt source) := by
    refine List.flatMap_congr fun p hp => ?_
    have hp := List.mem_range'_1.1 hp
    exact h.bytesAt_between hpos hnone (by omega) (by omega) (by omega)
  rw [encode_slice? hkept, ← flatMap_byteAt, hn, List.range'_succ, List.flatMap_cons,
    List.flatMap_cons, hrest, bytesAt_of_lt hpos (by omega),
    h.contentAt_of_startingAt?_eq_none hnone, List.append_assoc]

/-- A replaced range, with what was inserted at its start. -/
theorem flatMap_bytesAt_replaced (hpos : ¬ Covered edits pos) {o : Overwrite}
    (ho : Overwrite.startingAt? pos b.overwrites = some o) (hstop : pos < stop) :
    (List.range' pos (o.stop - pos)).flatMap (bytesAt source edits start stop) =
      (if start < pos then encode (leftText edits pos) else []) ++ encode (rightText edits pos) ++
        encode o.text := by
  have hmem := Overwrite.mem_of_startingAt? ho
  have hstart := Overwrite.start_of_startingAt? ho
  have hproper := h.orderly.proper o hmem
  obtain ⟨n, hn⟩ : ∃ n, o.stop - pos = n + 1 := ⟨o.stop - pos - 1, by omega⟩
  have hrest : (List.range' (pos + 1) n).flatMap (bytesAt source edits start stop) = [] := by
    refine List.flatMap_eq_nil_iff.2 fun p hp => ?_
    have hp := List.mem_range'_1.1 hp
    exact bytesAt_of_covered (h.covered_iff.2 ⟨o, hmem, by omega, by omega⟩)
  rw [hn, List.range'_succ, List.flatMap_cons, hrest, List.append_nil, bytesAt_of_lt hpos hstop,
    h.contentAt_of_startingAt? ho]

/-- Reading on from an offset answers the bytes from there on. Every step reads the chunk up to the
next anchor, and the invariant is that the offset reached is not covered. -/
theorem sliceFrom_bytes (hedits : OnBoundaries source edits)
    (hstop : isBoundary source stop = true) (hcovered : ¬ Covered edits stop) (steps : Nat) {pos : Nat}
    (hpos : isBoundary source pos = true) (hle : pos ≤ stop) (huncovered : ¬ Covered edits pos)
    (hsteps : stop - pos < steps) :
    ∃ t, b.sliceFrom start stop steps pos = .ok t ∧
      encode t = (List.range' pos (stop - pos + 1)).flatMap (bytesAt source edits start stop) := by
  have hb := h.anchored hedits
  induction steps generalizing pos with
  | zero => omega
  | succ steps ih =>
    have hbefore : encode (if start < pos then b.left.textAt pos else []) =
        if start < pos then encode (leftText edits pos) else [] := by
      rw [h.left, apply_ite encode, encode_nil]
    rcases Nat.eq_or_lt_of_le hle with rfl | hlt
    · refine ⟨_, by simp only [EditBuffer.sliceFrom, Nat.le_refl, if_true]; rfl, ?_⟩
      rw [hbefore, Nat.sub_self, List.range'_succ, List.range'_zero, List.flatMap_cons,
        List.flatMap_nil, bytesAt, if_neg huncovered, if_neg (Nat.lt_irrefl _)]
      simp only [List.append_nil]
    · have hnot : ¬ stop ≤ pos := Nat.not_le.2 hlt
      cases ho : Overwrite.startingAt? pos b.overwrites with
      | some o =>
        have hmem := Overwrite.mem_of_startingAt? ho
        have hstart := Overwrite.start_of_startingAt? ho
        have hproper := h.orderly.proper o hmem
        -- The range ends no later than the part that is read, whose end is not covered.
        have hinside : o.stop ≤ stop := by
          rcases Nat.lt_or_ge stop o.stop with hgt | hge
          · exact absurd (h.covered_iff.2 ⟨o, hmem, by omega, hgt⟩) hcovered
          · exact hge
        have huncovered' : ¬ Covered edits o.stop := by
          rw [h.covered_iff]
          rintro ⟨o', hmem', hstart', hstop'⟩
          rcases h.apart.eq_or hmem' hmem with rfl | hle' <;> omega
        obtain ⟨t, ht, hbytes⟩ := ih (h.source ▸ hb.stop o hmem) hinside huncovered' (by omega)
        refine ⟨_, by simp only [EditBuffer.sliceFrom, hnot, if_false, ho, Nat.min_eq_left hinside, ht]; rfl, ?_⟩
        rw [flatMap_range'_split _ (show pos ≤ o.stop by omega) hinside,
          h.flatMap_bytesAt_replaced huncovered ho hlt, ← hbytes, encode_append, encode_append,
          encode_append, hbefore, h.right]
      | none =>
        have hnext : pos < b.nextEditAfter pos := by
          have hlen : stop ≤ b.length := by
            rw [EditBuffer.length, h.source]
            exact le_byteLength_of_isBoundary hstop
          rcases b.nextEditAfter_eq_or pos with heq | hgt <;> omega
        have hboundary : isBoundary source (min (b.nextEditAfter pos) stop) = true := by
          rcases Nat.le_total (b.nextEditAfter pos) stop with hle' | hle'
          · rw [Nat.min_eq_left hle', ← h.source]
            exact hb.isBoundary_nextEditAfter pos
          · rwa [Nat.min_eq_right hle']
        generalize hn : min (b.nextEditAfter pos) stop = next at hboundary
        have huncovered' : ¬ Covered edits next :=
          h.not_covered_of_le_next huncovered ho (by omega) (by omega)
        obtain ⟨kept, hkept⟩ := exists_slice?_of_isBoundary hpos hboundary (by omega)
        obtain ⟨t, ht, hbytes⟩ := ih hboundary (by omega) huncovered' (by omega)
        refine ⟨_, by simp only [EditBuffer.sliceFrom, hnot, if_false, ho, hn, h.source, hkept, ht]; rfl, ?_⟩
        rw [flatMap_range'_split _ (show pos ≤ next by omega) (by omega),
          h.flatMap_bytesAt_kept huncovered ho (by omega) (by omega) (by omega) hkept, ← hbytes,
          encode_append, encode_append, encode_append, hbefore, h.right]

end Recorded

end

/-! ## Edits that do not show -/

/-- Whether an edit is not an insertion strictly inside of a replaced range. -/
def Edit.shows (edits : List Edit) : Edit → Bool
  | .insertRight offset _ | .insertLeft offset _ => !decide (Covered edits offset)
  | .overwrite start stop _ => start != stop || !decide (Covered edits start)
  | .remove .. => true

theorem Edit.of_not_shows {edits : List Edit} {e : Edit} (h : e.shows edits = false) :
    e.replacement? = none ∧ ∀ p, ¬ Covered edits p → e.leftAt p = [] ∧ e.rightAt p = [] := by
  cases e with
  | insertRight offset text =>
    simp only [shows, Bool.not_eq_false', decide_eq_true_eq] at h
    refine ⟨rfl, fun p hp => ⟨rfl, if_neg ?_⟩⟩
    rintro rfl
    exact hp h
  | insertLeft offset text =>
    simp only [shows, Bool.not_eq_false', decide_eq_true_eq] at h
    refine ⟨rfl, fun p hp => ⟨if_neg ?_, rfl⟩⟩
    rintro rfl
    exact hp h
  | overwrite start stop text =>
    simp only [shows, Bool.or_eq_false_iff, bne_eq_false_iff_eq, Bool.not_eq_false',
      decide_eq_true_eq] at h
    refine ⟨if_pos h.1, fun p hp => ⟨rfl, if_neg ?_⟩⟩
    rintro ⟨-, rfl⟩
    exact hp h.2
  | remove start stop => cases h

theorem flatMap_filter_of_nil {α β : Type} {keep : α → Bool} {f : α → List β} {l : List α}
    (h : ∀ x, keep x = false → f x = []) : (l.filter keep).flatMap f = l.flatMap f := by
  induction l with
  | nil => rfl
  | cons x rest ih =>
    cases hx : keep x
    · rw [List.filter_cons_of_neg (by simp [hx]), List.flatMap_cons, h x hx, ih, List.nil_append]
    · rw [List.filter_cons_of_pos hx, List.flatMap_cons, List.flatMap_cons, ih]

theorem replacements_filter_shows (all edits : List Edit) :
    replacements (edits.filter (Edit.shows all)) = replacements edits := by
  rw [replacements, replacements, List.filterMap_filter]
  refine List.filterMap_congr fun e _ => ?_
  cases he : e.shows all
  · simp [(Edit.of_not_shows he).1]
  · rfl

/-- What an offset adds to a range is told by the edits that show. -/
theorem bytesAt_filter_shows (source : Text) (edits : List Edit) (start stop p : Nat) :
    bytesAt source (edits.filter (Edit.shows edits)) start stop p =
      bytesAt source edits start stop p := by
  have hreplaced := replacements_filter_shows edits edits
  have hcontent : contentAt source (edits.filter (Edit.shows edits)) p = contentAt source edits p := by
    rw [contentAt, contentAt, hreplaced]
  have hcovered : Covered (edits.filter (Edit.shows edits)) p ↔ Covered edits p := by
    rw [Covered, Covered, hreplaced]
  by_cases hp : Covered edits p
  · rw [bytesAt_of_covered hp, bytesAt_of_covered (hcovered.2 hp)]
  · have hleft : leftText (edits.filter (Edit.shows edits)) p = leftText edits p :=
      flatMap_filter_of_nil fun e he => ((Edit.of_not_shows he).2 p hp).1
    have hright : rightText (edits.filter (Edit.shows edits)) p = rightText edits p :=
      flatMap_filter_of_nil fun e he => ((Edit.of_not_shows he).2 p hp).2
    rw [bytesAt, bytesAt, if_neg hp, if_neg (mt hcovered.1 hp), hleft, hright, hcontent]

/-! ## The text of a range -/

/-- An edited text says what its history says. Whatever edits have been recorded on character
boundaries, a range whose ends are boundaries and not strictly inside of replaced ranges is read, and
its bytes are those that its offsets add to it, one after the other. The same text is read if the
insertions strictly inside of replaced ranges are left out of the history. -/
theorem slice_eq_editedBytes {source : Text} {edits : List Edit} {b : EditBuffer}
    (hb : (EditBuffer.ofText source).recordEdits edits = .ok b) (hedits : OnBoundaries source edits)
    {start stop : Nat} (hle : start ≤ stop) (hstart : isBoundary source start = true)
    (hstop : isBoundary source stop = true) (hstart' : ¬ Covered edits start)
    (hstop' : ¬ Covered edits stop) :
    ∃ t, b.slice start stop = .ok t ∧ encode t = editedBytes source edits start stop ∧
      ∃ b', (EditBuffer.ofText source).recordEdits (edits.filter (Edit.shows edits)) = .ok b' ∧
        b'.slice start stop = .ok t := by
  have hread : ∀ {edits b}, (EditBuffer.ofText source).recordEdits edits = .ok b →
      OnBoundaries source edits → ¬ Covered edits start → ¬ Covered edits stop →
      ∃ t, b.slice start stop = .ok t ∧ encode t = editedBytes source edits start stop := by
    intro edits b hb hedits hstart' hstop'
    have hrecorded := recorded_of_recordEdits hb
    have hrange : start ≤ stop ∧ stop ≤ b.length := by
      rw [EditBuffer.length, hrecorded.source]
      exact ⟨hle, le_byteLength_of_isBoundary hstop⟩
    rw [EditBuffer.slice, if_pos hrange]
    exact hrecorded.sliceFrom_bytes hedits hstop hstop' _ hstart hle hstart' (Nat.lt_succ_self _)
  obtain ⟨t, ht, hbytes⟩ := hread hb hedits hstart' hstop'
  -- The history without what does not show gives the same bytes, and bytes tell the text.
  have hquiet : ∀ e : Edit, e.shows edits = false → e.replacement? = none :=
    fun e he => (Edit.of_not_shows he).1
  obtain ⟨left, right, hb'⟩ := EditBuffer.recordEdits_filter hquiet hb
  have hcovered : ∀ p, Covered (edits.filter (Edit.shows edits)) p ↔ Covered edits p := by
    intro p
    rw [Covered, Covered, replacements_filter_shows]
  have hedits' : OnBoundaries source (edits.filter (Edit.shows edits)) :=
    fun e he => hedits e (List.mem_filter.1 he).1
  obtain ⟨t', ht', hbytes'⟩ := hread hb' hedits' (mt (hcovered _).1 hstart') (mt (hcovered _).1 hstop')
  have heq : t' = t := by
    apply encode_injective
    rw [hbytes, hbytes', editedBytes, editedBytes]
    exact List.flatMap_congr fun p _ => bytesAt_filter_shows source edits start stop p
  exact ⟨t, ht, hbytes, _, hb', heq ▸ ht'⟩

/-- Insertions around, at the ends of and inside of a replaced range, a removed character of two bytes
next to it, and an empty range that is replaced. -/
def crowdedEdits : List Edit :=
  [.insertRight 5 "lost".toList, .overwrite 4 7 "qux".toList, .insertRight 4 "<".toList,
    .insertLeft 7 ">".toList, .insertLeft 6 "lost".toList, .remove 7 9, .overwrite 0 0 "1".toList,
    .insertRight 0 "2".toList, .insertLeft 9 "3".toList, .insertLeft 0 "4".toList]

theorem slice_crowdedEdits :
    ∃ b, (EditBuffer.ofText "foo baré".toList).recordEdits crowdedEdits = .ok b ∧
      OnBoundaries "foo baré".toList crowdedEdits ∧
      isBoundary "foo baré".toList 0 = true ∧ isBoundary "foo baré".toList 9 = true ∧
      ¬ Covered crowdedEdits 0 ∧ ¬ Covered crowdedEdits 9 ∧
      b.slice 0 9 = .ok "12foo <qux>3".toList ∧
      encode "12foo <qux>3".toList = editedBytes "foo baré".toList crowdedEdits 0 9 := by
  have hrecorded : ((EditBuffer.ofText "foo baré".toList).recordEdits crowdedEdits).toOption.isSome :=
    by decide
  obtain ⟨b, hb⟩ := Option.isSome_iff_exists.1 hrecorded
  have hb := toOption_eq_some_iff.1 hb
  have hboundaries : OnBoundaries "foo baré".toList crowdedEdits := by
    unfold OnBoundaries
    decide
  have hstart : ¬ Covered crowdedEdits 0 := by decide
  have hstop : ¬ Covered crowdedEdits 9 := by decide
  obtain ⟨t, ht, hbytes, -⟩ :=
    slice_eq_editedBytes hb hboundaries (Nat.zero_le 9) (by decide) (by decide) hstart hstop
  have heq : t = "12foo <qux>3".toList := by
    apply encode_injective
    rw [hbytes]
    decide
  rw [heq] at ht hbytes
  exact ⟨b, hb, hboundaries, by decide, by decide, hstart, hstop, ht, hbytes⟩

end TemplateCompiler
