import TemplateCompiler.Proofs.Edit.Meaning

/-!
# Reading piece by piece

A range may be cut at any offset that is not strictly inside of a replaced range: its text is that of
the first piece followed by that of the second one. And a piece is read with the edits that show in it,
whatever else the history has. So the text of a long range is found by looking at short pieces with few
edits each.

## What this module delivers

* `editedBytes_append`: a range is read piece by piece.
* `Edit.touches`, `editedBytes_touches`: the edits that show in a piece.
* `editedBytes_rewritten`: a piece whose front is replaced, and which is followed by insertions.
* `Recorded.slice_eq_ok`: from the bytes of a range to its text.
-/

set_option autoImplicit false

namespace TemplateCompiler

open Text

variable {source : Text} {edits : List Edit}

/-! ## Cutting a range -/

theorem editedBytes_self (p : Nat) : editedBytes source edits p p = [] := by
  simp [editedBytes, bytesAt]

/-- A range is read piece by piece. -/
theorem editedBytes_append {start mid stop : Nat} (hstart : start ≤ mid) (hstop : mid ≤ stop)
    (hmid : ¬ Covered edits mid) :
    editedBytes source edits start stop =
      editedBytes source edits start mid ++ editedBytes source edits mid stop := by
  have hbefore : ∀ p ∈ List.range' start (mid - start), bytesAt source edits start stop p =
      bytesAt source edits start mid p := by
    intro p hp
    have hp := List.mem_range'_1.1 hp
    have hlt : p < mid := by omega
    simp only [bytesAt, hlt, Nat.lt_of_lt_of_le hlt hstop]
  have hafter : ∀ p ∈ List.range' (mid + 1) (stop - mid), bytesAt source edits start stop p =
      bytesAt source edits mid stop p := by
    intro p hp
    have hp := List.mem_range'_1.1 hp
    have hlt : mid < p := by omega
    simp only [bytesAt, hlt, Nat.lt_of_le_of_lt hstart hlt]
  -- What the cut itself adds: what stands to its left goes to the first piece.
  have hcut : bytesAt source edits start stop mid =
      bytesAt source edits start mid mid ++ bytesAt source edits mid stop mid := by
    simp [bytesAt, hmid]
  rw [editedBytes, flatMap_range'_split _ hstart hstop, editedBytes,
    flatMap_range'_split _ hstart (Nat.le_refl mid), editedBytes, Nat.sub_self, List.range'_one,
    List.flatMap_singleton, List.range'_succ, List.flatMap_cons, List.flatMap_cons, hcut,
    List.flatMap_congr hbefore, List.flatMap_congr hafter]
  simp only [List.append_assoc]

/-! ## The edits of a piece -/

/-- Whether an edit shows when a span is read. -/
def Edit.touches (s : Span) : Edit → Bool
  | .insertLeft offset _ => EditBuffer.showsLeft s offset
  | .insertRight offset _ => EditBuffer.showsRight s offset
  | .overwrite start _ _ | .remove start _ => EditBuffer.showsRight s start

theorem Edit.start_of_replacement? {e : Edit} {o : Overwrite} (h : e.replacement? = some o)
    (s : Span) : e.touches s = EditBuffer.showsRight s o.start := by
  cases e with
  | insertRight | insertLeft => cases h
  | overwrite start stop text | remove start stop =>
    rw [Edit.replacement?] at h
    split at h
    · cases h
    · cases h
      rfl

theorem mem_replacements_touches {s : Span} {o : Overwrite} :
    o ∈ replacements (edits.filter (Edit.touches s)) ↔
      o ∈ replacements edits ∧ EditBuffer.showsRight s o.start = true := by
  simp only [replacements, List.mem_filterMap, List.mem_filter]
  constructor
  · rintro ⟨e, ⟨he, htouches⟩, ho⟩
    exact ⟨⟨e, he, ho⟩, e.start_of_replacement? ho s ▸ htouches⟩
  · rintro ⟨⟨e, he, ho⟩, hshows⟩
    exact ⟨e, ⟨he, (e.start_of_replacement? ho s).trans hshows⟩, ho⟩

theorem find?_replacements_touches {s : Span} {p : Nat} (hp : EditBuffer.showsRight s p = true) :
    (replacements (edits.filter (Edit.touches s))).find? (fun o => o.start == p) =
      (replacements edits).find? (fun o => o.start == p) := by
  induction edits with
  | nil => rfl
  | cons e rest ih =>
    cases ho : e.replacement? with
    | none =>
      cases htouches : e.touches s
      · rw [List.filter_cons_of_neg (by simp [htouches])]
        simpa only [replacements, List.filterMap_cons, ho] using ih
      · rw [List.filter_cons_of_pos htouches]
        simpa only [replacements, List.filterMap_cons, ho] using ih
    | some o =>
      have htouches := e.start_of_replacement? ho s
      by_cases hstart : o.start = p
      · rw [hstart, hp] at htouches
        rw [List.filter_cons_of_pos htouches]
        simp [replacements, ho, hstart]
      · have hne : (o.start == p) = false := by simpa using hstart
        cases hshows : e.touches s
        · rw [List.filter_cons_of_neg (by simp [hshows])]
          simpa only [replacements, List.filterMap_cons, ho, List.find?_cons, hne] using ih
        · rw [List.filter_cons_of_pos hshows]
          simpa only [replacements, List.filterMap_cons, ho, List.find?_cons, hne] using ih

/-- A piece that does not start inside of a replaced range is read with the edits that show in it. -/
theorem editedBytes_touches {s : Span} (hs : ¬ Covered edits s.start) :
    editedBytes source edits s.start s.stop =
      editedBytes source (edits.filter (Edit.touches s)) s.start s.stop := by
  refine List.flatMap_congr fun p hp => ?_
  have hp := List.mem_range'_1.1 hp
  rcases Nat.lt_or_ge s.stop s.start with hlt | hle
  · -- There is nothing to read.
    have hright : ¬ p < s.stop := by omega
    have hleft : ¬ s.start < p := by omega
    simp [bytesAt, hleft, hright]
  have hcovered : Covered (edits.filter (Edit.touches s)) p ↔ Covered edits p := by
    constructor
    · rintro ⟨o, ho, hstart, hstop⟩
      exact ⟨o, (mem_replacements_touches.1 ho).1, hstart, hstop⟩
    · rintro ⟨o, ho, hstart, hstop⟩
      -- A range from before the piece would have to end before it.
      have hge : s.start ≤ o.start := by
        rcases Nat.lt_or_ge o.start s.start with hlt | hge
        · exact absurd ⟨o, ho, hlt, by omega⟩ hs
        · exact hge
      refine ⟨o, mem_replacements_touches.2 ⟨ho, ?_⟩, hstart, hstop⟩
      simp only [EditBuffer.showsRight, decide_eq_true_eq]
      omega
  have hleft : s.start < p → leftText edits p = leftText (edits.filter (Edit.touches s)) p := by
    intro hlt
    refine (flatMap_filter_of_nil fun e he => ?_).symm
    cases e with
    | insertLeft offset text =>
      refine if_neg fun heq => ?_
      simp only [Edit.touches, EditBuffer.showsLeft, decide_eq_false_iff_not] at he
      omega
    | insertRight | overwrite | remove => rfl
  have hright : p < s.stop → rightText edits p = rightText (edits.filter (Edit.touches s)) p := by
    intro hlt
    refine (flatMap_filter_of_nil fun e he => ?_).symm
    cases e with
    | insertRight offset text =>
      refine if_neg fun heq => ?_
      simp only [Edit.touches, EditBuffer.showsRight, decide_eq_false_iff_not] at he
      omega
    | overwrite start stop text =>
      refine if_neg fun heq => ?_
      simp only [Edit.touches, EditBuffer.showsRight, decide_eq_false_iff_not] at he
      omega
    | insertLeft | remove => rfl
  have hcontent : p < s.stop →
      contentAt source edits p = contentAt source (edits.filter (Edit.touches s)) p := by
    intro hlt
    have hshows : EditBuffer.showsRight s p = true := by
      simp only [EditBuffer.showsRight, decide_eq_true_eq]
      omega
    rw [contentAt, contentAt, find?_replacements_touches hshows]
  unfold bytesAt
  split
  · rename_i h
    rw [if_pos (hcovered.2 h)]
  · rename_i h
    rw [if_neg (mt hcovered.1 h)]
    congr 1
    · split
      · rename_i hlt
        rw [hleft hlt]
      · rfl
    · split
      · rename_i hlt
        rw [hright hlt, hcontent hlt]
      · rfl

/-! ## A rewritten piece -/

/-- The text between two offsets of a source. -/
def textBetween (source : Text) (start stop : Nat) : Text := (slice? start stop source).getD []

theorem encode_textBetween {start stop : Nat} (hstart : isBoundary source start = true)
    (hstop : isBoundary source stop = true) (hle : start ≤ stop) :
    encode (textBetween source start stop) = ((encode source).drop start).take (stop - start) := by
  obtain ⟨t, ht⟩ := exists_slice?_of_isBoundary hstart hstop hle
  rw [textBetween, ht, Option.getD_some, encode_slice? ht]

/-- What a history says of a piece whose front, up to `mid`, is replaced, and which is followed by
insertions. Where nothing is replaced, the front is empty. -/
structure RewritesPiece (edits : List Edit) (start mid stop : Nat) (front back : Text) : Prop where
  replaced : replacements edits = if start = mid then [] else [⟨start, mid, front⟩]
  right : ∀ p, rightText edits p = if start = mid ∧ start = p then front else []
  left : ∀ p, leftText edits p = if p = stop then back else []

theorem replacements_insertLeft (stop : Nat) (back : List Text) :
    replacements (back.map (.insertLeft stop)) = [] := by
  simp [replacements, Edit.replacement?]

theorem rightText_insertLeft (stop : Nat) (back : List Text) (p : Nat) :
    rightText (back.map (.insertLeft stop)) p = [] := by
  simp [rightText, Edit.rightAt]

theorem leftText_insertLeft (stop : Nat) (back : List Text) (p : Nat) :
    leftText (back.map (.insertLeft stop)) p = if p = stop then back.flatten else [] := by
  by_cases hp : p = stop
  · simp [leftText, hp, Edit.leftAt, List.flatMap_map, List.flatMap_id']
  · simp [leftText, hp, Ne.symm hp, Edit.leftAt]

theorem rewritesPiece_insertLeft (start stop : Nat) (back : List Text) :
    RewritesPiece (back.map (.insertLeft stop)) start start stop [] back.flatten where
  replaced := by rw [replacements_insertLeft, if_pos rfl]
  right p := by rw [rightText_insertLeft, ite_self]
  left := leftText_insertLeft stop back

theorem rewritesPiece_overwrite (start mid stop : Nat) (front : Text) (back : List Text) :
    RewritesPiece (.overwrite start mid front :: back.map (.insertLeft stop)) start mid stop front
      back.flatten where
  replaced := by
    have hrest := replacements_insertLeft stop back
    rw [replacements] at hrest ⊢
    by_cases h : start = mid <;> simp [h, Edit.replacement?, hrest]
  right p := by
    have hrest := rightText_insertLeft stop back p
    rw [rightText] at hrest ⊢
    rw [List.flatMap_cons, hrest, List.append_nil, Edit.rightAt]
  left p := leftText_insertLeft stop back p

section

variable {start mid stop : Nat} {front back : Text}

theorem RewritesPiece.covered_iff (h : RewritesPiece edits start mid stop front back) {p : Nat} :
    Covered edits p ↔ start < p ∧ p < mid := by
  rw [Covered, h.replaced]
  split
  · simp
    omega
  · simp

theorem RewritesPiece.contentAt_eq (h : RewritesPiece edits start mid stop front back)
    (hmid : start ≤ mid) (p : Nat) :
    contentAt source edits p = if start < mid ∧ p = start then encode front else byteAt source p := by
  rw [contentAt, h.replaced]
  by_cases heq : start = mid
  · simp [heq]
  · have hlt : start < mid := by omega
    by_cases hp : p = start
    · simp [heq, hlt, hp]
    · simp [heq, hp, Ne.symm hp]

/-- The bytes of the source that such a piece keeps at an offset. -/
def keptFrom (source : Text) (mid p : Nat) : List UInt8 := if mid ≤ p then byteAt source p else []

theorem flatMap_keptFrom (source : Text) (hmid : start ≤ mid) (hstop : mid ≤ stop) :
    (List.range' start (stop - start)).flatMap (keptFrom source mid) =
      ((encode source).drop mid).take (stop - mid) := by
  have hlen : stop - start = mid - start + (stop - mid) := by omega
  have hmid' : start + (mid - start) = mid := by omega
  have hfront : (List.range' start (mid - start)).flatMap (keptFrom source mid) = [] := by
    refine List.flatMap_eq_nil_iff.2 fun p hp => if_neg ?_
    have := List.mem_range'_1.1 hp
    omega
  rw [hlen, ← List.range'_append_1, hmid', List.flatMap_append, hfront, List.nil_append,
    ← flatMap_byteAt]
  exact List.flatMap_congr fun p hp => if_pos (List.mem_range'_1.1 hp).1

/-- The new front is read at the start, wherever the front that it replaces ends. -/
theorem RewritesPiece.bytesAt_start (h : RewritesPiece edits start mid stop front back)
    (hmid : start ≤ mid) (hlt : start < stop) :
    bytesAt source edits start stop start = encode front ++ keptFrom source mid start := by
  have hno : ¬ Covered edits start := by
    rw [h.covered_iff]
    omega
  rw [bytesAt_of_lt hno hlt, if_neg (Nat.lt_irrefl _), List.nil_append, h.contentAt_eq hmid, h.right,
    keptFrom]
  rcases Nat.eq_or_lt_of_le hmid with rfl | hlt
  · simp
  · simp [hlt, Nat.ne_of_lt hlt, Nat.not_le.2 hlt]

theorem RewritesPiece.bytesAt_inside (h : RewritesPiece edits start mid stop front back)
    (hmid : start ≤ mid) {p : Nat} (hp : start < p) (hp' : p < stop) :
    bytesAt source edits start stop p = keptFrom source mid p := by
  rw [keptFrom]
  split
  · rename_i hle
    have hno : ¬ Covered edits p := by
      rw [h.covered_iff]
      omega
    have hne : p ≠ start := Nat.ne_of_gt hp
    simp [bytesAt_of_lt hno hp', h.left, h.right, h.contentAt_eq hmid, Nat.ne_of_lt hp', hne, hne.symm]
  · exact bytesAt_of_covered (h.covered_iff.2 ⟨hp, by omega⟩)

theorem RewritesPiece.bytesAt_stop (h : RewritesPiece edits start mid stop front back)
    (hstop : mid ≤ stop) (hlt : start < stop) : bytesAt source edits start stop stop = encode back := by
  have hno : ¬ Covered edits stop := by
    rw [h.covered_iff]
    omega
  rw [bytesAt, if_neg hno, if_pos hlt, if_neg (Nat.lt_irrefl _), List.append_nil, h.left, if_pos rfl]

/-- A piece is read as the new front, the rest of its text, and what was inserted at its end. -/
theorem RewritesPiece.bytes_eq (h : RewritesPiece edits start mid stop front back)
    (hmid : start ≤ mid) (hstop : mid ≤ stop) (hlt : start < stop) :
    editedBytes source edits start stop =
      encode front ++ ((encode source).drop mid).take (stop - mid) ++ encode back := by
  have hlen : stop - start = stop - start - 1 + 1 := by omega
  have hinside : (List.range' (start + 1) (stop - start - 1)).flatMap
      (bytesAt source edits start stop) =
        (List.range' (start + 1) (stop - start - 1)).flatMap (keptFrom source mid) := by
    refine List.flatMap_congr fun p hp => ?_
    have := List.mem_range'_1.1 hp
    exact h.bytesAt_inside hmid (by omega) (by omega)
  have hfront : (List.range' start (stop - start)).flatMap (bytesAt source edits start stop) =
      encode front ++ (List.range' start (stop - start)).flatMap (keptFrom source mid) := by
    rw [hlen, List.range'_succ, List.flatMap_cons, List.flatMap_cons, h.bytesAt_start hmid hlt,
      hinside, List.append_assoc]
  rw [editedBytes, flatMap_range'_split _ (Nat.le_of_lt hlt) (Nat.le_refl stop), Nat.sub_self,
    List.range'_one, List.flatMap_singleton, hfront, flatMap_keptFrom source hmid hstop,
    h.bytesAt_stop hstop hlt]

/-- Where nothing was edited, the source is read. -/
theorem editedBytes_nil (hle : start ≤ stop) :
    editedBytes source [] start stop = ((encode source).drop start).take (stop - start) := by
  rcases Nat.eq_or_lt_of_le hle with heq | hlt
  · rw [heq, editedBytes_self, Nat.sub_self, List.take_zero]
  · have hpiece : RewritesPiece [] start start stop [] [] := rewritesPiece_insertLeft start stop []
    rw [hpiece.bytes_eq (Nat.le_refl _) hle hlt, encode_nil, List.nil_append, List.append_nil]

end

/-! ## From bytes to texts -/

/-- A range is read as the text whose bytes its history says. -/
theorem Recorded.slice_eq_ok {b : EditBuffer} (h : Recorded source edits b)
    (hedits : OnBoundaries source edits) {start stop : Nat} (hle : start ≤ stop)
    (hstart : isBoundary source start = true) (hstop : isBoundary source stop = true)
    (hstart' : ¬ Covered edits start) (hstop' : ¬ Covered edits stop) {t : Text}
    (ht : encode t = editedBytes source edits start stop) : b.slice start stop = .ok t := by
  have hrange : start ≤ stop ∧ stop ≤ b.length := by
    rw [EditBuffer.length, h.source]
    exact ⟨hle, le_byteLength_of_isBoundary hstop⟩
  obtain ⟨t', ht', hbytes⟩ :=
    h.sliceFrom_bytes hedits hstop hstop' _ hstart hle hstart' (Nat.lt_succ_self _)
  have heq : t' = t := encode_injective (hbytes.trans ht.symm)
  rw [EditBuffer.slice, if_pos hrange, ht', heq]

end TemplateCompiler
