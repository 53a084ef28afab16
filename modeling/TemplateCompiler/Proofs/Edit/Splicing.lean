import TemplateCompiler.Proofs.Edit.Commutation

/-!
# Insertions into an edited text

A buffer that gets more insertions is read in smaller chunks than before, but nothing of what was
read is lost or changed: the text of a range is the old one, with the new texts put in. They stand
in the order of their offsets, and only those are missing that lie inside of a replaced range.

## What this module delivers

* `Spliced`: a text with other texts put in.
* `EditBuffer.Reads`: what is read from an offset on, as a relation.
* `EditBuffer.insertAll`, `slice_insertAll`: reading a range after more insertions.
-/

set_option autoImplicit false

namespace TemplateCompiler

open Text

variable {items : List (Nat × Text)}

/-! ## Texts with other texts put in -/

/-- The second text is the first one with the given texts put in, in order. -/
inductive Spliced : List Text → Text → Text → Prop where
  | nil : Spliced [] [] []
  | keep {us : List Text} {t t' : Text} (c : Char) (h : Spliced us t t') :
      Spliced us (c :: t) (c :: t')
  | put {us : List Text} {t t' : Text} (u : Text) (h : Spliced us t t') :
      Spliced (u :: us) t (u ++ t')

namespace Spliced

variable {us vs : List Text} {s s' t t' : Text}

theorem append (h : Spliced us s s') (h' : Spliced vs t t') :
    Spliced (us ++ vs) (s ++ t) (s' ++ t') := by
  induction h with
  | nil => exact h'
  | keep c _ ih => exact ih.keep c
  | put u _ ih =>
    rw [List.append_assoc]
    exact ih.put u

protected theorem refl (t : Text) : Spliced [] t t := by
  induction t with
  | nil => exact .nil
  | cons c t ih => exact ih.keep c

theorem append_left (s : Text) (h : Spliced us t t') : Spliced us (s ++ t) (s ++ t') :=
  (Spliced.refl s).append h

/-- All texts put in at one place. -/
theorem flatten (us : List Text) : Spliced us [] us.flatten := by
  induction us with
  | nil => exact .nil
  | cons u us ih => exact ih.put u

end Spliced

/-! ## Reading on from an offset -/

/-- A part of a text may be cut into two. -/
theorem Text.slice?_cut {start mid stop : Nat} {t m : Text} (h : slice? start stop t = some m)
    (hstart : start ≤ mid) (hstop : mid ≤ stop) (hmid : isBoundary t mid = true) :
    ∃ a b, slice? start mid t = some a ∧ slice? mid stop t = some b ∧ m = a ++ b := by
  obtain ⟨before, after, rfl, rfl, hlen⟩ := slice?_eq_some_iff.1 h
  obtain ⟨x, y, hcut, rfl⟩ := isBoundary_iff.1 hmid
  obtain ⟨a, rfl, ha⟩ := append_eq_append_of_byteLength_le
    (show before ++ (m ++ after) = x ++ y by rw [← hcut, List.append_assoc]) hstart
  obtain ⟨b, rfl, hb⟩ := append_eq_append_of_byteLength_le ha.symm (by
    rw [byteLength_append] at hstop
    omega)
  simp only [byteLength_append] at hlen
  refine ⟨a, b, slice?_eq_some_iff.2 ⟨before, b ++ after, ?_, rfl, (byteLength_append ..).symm⟩,
    slice?_eq_some_iff.2 ⟨before ++ a, after, ?_, rfl, ?_⟩, rfl⟩
  · simp only [List.append_assoc]
  · simp only [List.append_assoc]
  · rw [byteLength_append]
    omega

namespace EditBuffer

/-- What was inserted at an offset, as a part of a range that starts at `start`. -/
def insertedAt (b : EditBuffer) (start pos : Nat) : Text :=
  (if start < pos then b.left.textAt pos else []) ++ b.right.textAt pos

/-- What is read from an offset on of the range from `start` up to `stop`. -/
inductive Reads (b : EditBuffer) (start stop : Nat) : Nat → Text → Prop where
  | done {pos : Nat} (h : stop ≤ pos) :
      Reads b start stop pos (if start < pos then b.left.textAt pos else [])
  | replaced {pos : Nat} {o : Overwrite} {rest : Text} (h : pos < stop)
      (ho : Overwrite.startingAt? pos b.overwrites = some o)
      (hrest : Reads b start stop (min o.stop stop) rest) :
      Reads b start stop pos (b.insertedAt start pos ++ (o.text ++ rest))
  | kept {pos : Nat} {kept rest : Text} (h : pos < stop)
      (ho : Overwrite.startingAt? pos b.overwrites = none)
      (hkept : slice? pos (min (b.nextEditAfter pos) stop) b.source = some kept)
      (hrest : Reads b start stop (min (b.nextEditAfter pos) stop) rest) :
      Reads b start stop pos (b.insertedAt start pos ++ (kept ++ rest))

variable {b : EditBuffer} {start stop pos : Nat} {t : Text}

/-- Looking for the next edit inside of the source moves on. -/
theorem lt_nextEditAfter (h : pos < stop) (hstop : stop ≤ b.length) :
    pos < b.nextEditAfter pos := by
  rcases b.nextEditAfter_eq_or pos with heq | hlt <;> omega

theorem lt_stop_of_startingAt? (hb : b.Orderly) {o : Overwrite}
    (ho : Overwrite.startingAt? pos b.overwrites = some o) : pos < o.stop := by
  have hproper := hb.proper o (Overwrite.mem_of_startingAt? ho)
  rwa [Overwrite.start_of_startingAt? ho] at hproper

theorem reads_of_sliceFrom (hb : b.Orderly) (hstop : stop ≤ b.length) {steps : Nat}
    (hsteps : stop - pos < steps) (h : b.sliceFrom start stop steps pos = .ok t) :
    b.Reads start stop pos t := by
  induction steps generalizing pos t with
  | zero => omega
  | succ steps ih =>
    rw [sliceFrom] at h
    by_cases hend : stop ≤ pos
    · simp only [if_pos hend] at h
      cases h
      exact .done hend
    · have hlt := Nat.lt_of_not_le hend
      simp only [if_neg hend] at h
      split at h
      · rename_i o ho
        have hmove := lt_stop_of_startingAt? hb ho
        obtain ⟨rest, hrest, h⟩ := bind_eq_ok_iff.1 h
        cases h
        have := Reads.replaced hlt ho (ih (by omega) hrest)
        simpa only [insertedAt, List.append_assoc] using this
      · rename_i ho
        have hmove := lt_nextEditAfter hlt hstop
        split at h
        · cases h
        · rename_i kept hkept
          obtain ⟨rest, hrest, h⟩ := bind_eq_ok_iff.1 h
          cases h
          have := Reads.kept hlt ho hkept (ih (by omega) hrest)
          simpa only [insertedAt, List.append_assoc] using this

theorem Reads.sliceFrom_eq (hb : b.Orderly) (hstop : stop ≤ b.length)
    (h : b.Reads start stop pos t) {steps : Nat} (hsteps : stop - pos < steps) :
    b.sliceFrom start stop steps pos = .ok t := by
  induction h generalizing steps with
  | @done pos h =>
    obtain ⟨n, rfl⟩ : ∃ n, steps = n + 1 := ⟨steps - 1, by omega⟩
    rw [sliceFrom]
    exact if_pos h
  | @replaced pos o rest h ho _ ih =>
    obtain ⟨n, rfl⟩ : ∃ n, steps = n + 1 := ⟨steps - 1, by omega⟩
    have hmove := lt_stop_of_startingAt? hb ho
    simp only [sliceFrom, if_neg (Nat.not_le.2 h), ho, ih (show _ < n by omega)]
    simp only [insertedAt, List.append_assoc]
    rfl
  | @kept pos kept rest h ho hkept _ ih =>
    obtain ⟨n, rfl⟩ : ∃ n, steps = n + 1 := ⟨steps - 1, by omega⟩
    have hmove := lt_nextEditAfter h hstop
    simp only [sliceFrom, if_neg (Nat.not_le.2 h), ho, hkept, ih (show _ < n by omega)]
    simp only [insertedAt, List.append_assoc]
    rfl

/-- A range that can be read is the one that starts where reading does. -/
theorem slice_eq_ok_iff (hb : b.Orderly) :
    b.slice start stop = .ok t ↔
      (start ≤ stop ∧ stop ≤ b.length) ∧ b.Reads start stop start t := by
  rw [slice]
  split
  · rename_i hrange
    simp only [hrange, true_and]
    exact ⟨reads_of_sliceFrom hb hrange.2 (Nat.lt_succ_self _),
      fun h => h.sliceFrom_eq hb hrange.2 (Nat.lt_succ_self _)⟩
  · rename_i hrange
    simp [hrange]

/-! ## A chunk in two parts -/

theorem nextEditAfter_le_length (b : EditBuffer) (pos : Nat) : b.nextEditAfter pos ≤ b.length :=
  foldl_min_le (.inl (Nat.le_refl _))

/-- Something is anchored at an offset. -/
def AnchorsAt (b : EditBuffer) (k : Nat) : Prop :=
  (∃ q ∈ b.left, q.1 = k) ∨ (∃ q ∈ b.right, q.1 = k) ∨ ∃ o ∈ b.overwrites, o.start = k

/-- From inside of a chunk the next edit is the same as from its start. -/
theorem nextEditAfter_eq_of_lt (hb : b.Orderly) {mid : Nat} (hpos : pos < mid)
    (hmid : mid < b.nextEditAfter pos) : b.nextEditAfter mid = b.nextEditAfter pos := by
  have hlen := b.nextEditAfter_le_length pos
  have hlen' := b.nextEditAfter_le_length mid
  have hle : b.nextEditAfter pos ≤ b.nextEditAfter mid := by
    rcases b.nextEditAfter_eq_or mid with heq | ⟨hlt, hk⟩
    · omega
    · exact hb.nextEditAfter_le hk (by omega)
  have hge : b.nextEditAfter mid ≤ b.nextEditAfter pos := by
    rcases b.nextEditAfter_eq_or pos with heq | ⟨-, hk⟩
    · omega
    · exact hb.nextEditAfter_le hk hmid
  omega

theorem insertedAt_eq_nil (h : ¬ b.AnchorsAt pos) : b.insertedAt start pos = [] := by
  have hleft : b.left.textAt pos = [] :=
    Insertions.textAt_eq_nil fun q hq heq => h (.inl ⟨q, hq, heq⟩)
  have hright : b.right.textAt pos = [] :=
    Insertions.textAt_eq_nil fun q hq heq => h (.inr (.inl ⟨q, hq, heq⟩))
  rw [insertedAt, hleft, hright, ite_self, List.append_nil]

/-- A chunk of the source may be read in two parts. -/
theorem Reads.cut (hb : b.Orderly) (h : b.Reads start stop pos t) (hlt : pos < stop)
    (ho : Overwrite.startingAt? pos b.overwrites = none) (mid : Nat) (hpos : pos < mid)
    (hmid : mid ≤ min (b.nextEditAfter pos) stop)
    (hboundary : mid < min (b.nextEditAfter pos) stop → isBoundary b.source mid = true) :
    ∃ kept rest, slice? pos mid b.source = some kept ∧ b.Reads start stop mid rest ∧
      t = b.insertedAt start pos ++ (kept ++ rest) := by
  cases h with
  | done hend => omega
  | replaced _ ho' => simp [ho] at ho'
  | @kept _ kept rest _ _ hkept hrest =>
    rcases Nat.eq_or_lt_of_le hmid with rfl | hinside
    · exact ⟨kept, rest, hkept, hrest, rfl⟩
    have hquiet : ¬ b.AnchorsAt mid := by
      intro hk
      have := hb.nextEditAfter_le hk hpos
      omega
    have hnone : Overwrite.startingAt? mid b.overwrites = none :=
      Overwrite.startingAt?_eq_none.2 fun o ho heq => hquiet (.inr (.inr ⟨o, ho, heq⟩))
    have hnext := nextEditAfter_eq_of_lt hb hpos (by omega)
    obtain ⟨first, second, hfirst, hsecond, rfl⟩ :=
      slice?_cut hkept (Nat.le_of_lt hpos) hmid (hboundary hinside)
    have hread : b.Reads start stop mid (b.insertedAt start mid ++ (second ++ rest)) := by
      refine .kept (by omega) hnone ?_ ?_
      · rwa [hnext]
      · rwa [hnext]
    rw [insertedAt_eq_nil hquiet, List.nil_append] at hread
    exact ⟨first, second ++ rest, hfirst, hread, by rw [List.append_assoc]⟩

/-! ## More insertions -/

/-- A buffer with more insertions, each as a part of the chunk that starts at its offset. -/
def insertAll (b : EditBuffer) (items : List (Nat × Text)) : EditBuffer :=
  { b with right := b.right.addAll items }

/-- The texts that are inserted at an offset. -/
def textsAt (items : List (Nat × Text)) (p : Nat) : List Text :=
  (items.filter fun item => item.1 = p).map Prod.snd

/-- An offset that is not read of a range that starts at `start`: a replaced range, which starts no
earlier, has the offset inside of it. -/
def Skipped (b : EditBuffer) (start p : Nat) : Prop :=
  ∃ o ∈ b.overwrites, start ≤ o.start ∧ o.start < p ∧ p < o.stop

instance (b : EditBuffer) (start p : Nat) : Decidable (b.Skipped start p) :=
  inferInstanceAs (Decidable (∃ o ∈ b.overwrites, _))

/-- The texts among some insertions that show from an offset on. -/
def shownFrom (b : EditBuffer) (items : List (Nat × Text)) (start stop pos : Nat) : List Text :=
  (List.range' pos (stop - pos)).flatMap fun p => if b.Skipped start p then [] else textsAt items p

/-- The texts among some insertions that show when a range is read, by offset. -/
def shownTexts (b : EditBuffer) (items : List (Nat × Text)) (start stop : Nat) : List Text :=
  b.shownFrom items start stop start

theorem textAt_addAll {l : Insertions} (h : l.Sorted) (items : List (Nat × Text)) (p : Nat) :
    (l.addAll items).textAt p = l.textAt p ++ (textsAt items p).flatten := by
  induction items generalizing l with
  | nil => exact (List.append_nil _).symm
  | cons item items ih =>
    have hstep : l.addAll (item :: items) = (l.add item.1 item.2).addAll items := rfl
    rw [hstep, ih (h.add ..), h.textAt_add, textsAt, textsAt, List.filter_cons]
    by_cases hp : item.1 = p <;> simp [hp]

theorem mem_keys_addAll {l : Insertions} {items : List (Nat × Text)} {k : Nat} :
    k ∈ (l.addAll items).map Prod.fst ↔ k ∈ items.map Prod.fst ∨ k ∈ l.map Prod.fst := by
  induction items generalizing l with
  | nil => simp [Insertions.addAll]
  | cons item items ih =>
    have hstep : l.addAll (item :: items) = (l.add item.1 item.2).addAll items := rfl
    rw [hstep, ih, Insertions.mem_keys_add, List.map_cons, List.mem_cons, or_left_comm, or_assoc]

theorem Orderly.insertAll (hb : b.Orderly) (items : List (Nat × Text)) :
    (b.insertAll items).Orderly :=
  ⟨hb.left, hb.right.addAll items, hb.overwrites, hb.proper⟩

theorem insertedAt_insertAll (hb : b.Orderly) (items : List (Nat × Text)) :
    (b.insertAll items).insertedAt start pos =
      b.insertedAt start pos ++ (textsAt items pos).flatten := by
  rw [insertedAt, insertedAt, insertAll, textAt_addAll hb.right, List.append_assoc]

theorem anchorsAt_insertAll {k : Nat} :
    (b.insertAll items).AnchorsAt k ↔ k ∈ items.map Prod.fst ∨ b.AnchorsAt k := by
  have hkeys : (∃ q ∈ b.right.addAll items, q.1 = k) ↔
      k ∈ items.map Prod.fst ∨ ∃ q ∈ b.right, q.1 = k := by
    simpa only [List.mem_map] using @mem_keys_addAll b.right items k
  simp only [AnchorsAt, insertAll, hkeys]
  rw [or_assoc, or_left_comm]

theorem textsAt_eq_nil {p : Nat} (h : p ∉ items.map Prod.fst) :
    textsAt items p = [] := by
  have hnone : items.filter (fun item => item.1 = p) = [] := by
    refine List.filter_eq_nil_iff.2 fun item hitem heq => ?_
    exact h (List.mem_map.2 ⟨item, hitem, by simpa using heq⟩)
  rw [textsAt, hnone, List.map_nil]

/-- What shows from an offset on that is read, if nothing shows up to a later one. -/
theorem shownFrom_eq {mid : Nat} (hpos : pos < mid) (hmid : mid ≤ stop)
    (hread : ¬ b.Skipped start pos)
    (hquiet : ∀ p, pos < p → p < mid → b.Skipped start p ∨ p ∉ items.map Prod.fst) :
    b.shownFrom items start stop pos = textsAt items pos ++ b.shownFrom items start stop mid := by
  have hlen : stop - pos = 1 + (mid - pos - 1) + (stop - mid) := by omega
  have hsplit : List.range' pos (stop - pos) =
      pos :: List.range' (pos + 1) (mid - pos - 1) ++ List.range' mid (stop - mid) := by
    rw [hlen, ← List.range'_append_1, Nat.add_comm 1, List.range'_succ]
    congr 2
    omega
  have hnone : (List.range' (pos + 1) (mid - pos - 1)).flatMap
      (fun p => if b.Skipped start p then [] else textsAt items p) = [] := by
    refine List.flatMap_eq_nil_iff.2 fun p hp => ?_
    have hp := List.mem_range'_1.1 hp
    rcases hquiet p (by omega) (by omega) with hskip | hfree
    · rw [if_pos hskip]
    · rw [textsAt_eq_nil hfree, ite_self]
  rw [shownFrom, hsplit, List.flatMap_append, List.flatMap_cons, hnone, if_neg hread,
    List.append_nil, shownFrom]

/-- The next edit of a buffer with more insertions comes no later, and if it comes earlier it is one
of them. -/
theorem nextEditAfter_insertAll (hb : b.Orderly) (items : List (Nat × Text)) (pos : Nat) :
    (b.insertAll items).nextEditAfter pos ≤ b.nextEditAfter pos ∧
      ((b.insertAll items).nextEditAfter pos < b.nextEditAfter pos →
        (b.insertAll items).nextEditAfter pos ∈ items.map Prod.fst) := by
  have hle := (b.insertAll items).nextEditAfter_le_length pos
  have hlen : (b.insertAll items).length = b.length := rfl
  constructor
  · rcases b.nextEditAfter_eq_or pos with heq | ⟨hlt, hk⟩
    · omega
    · exact (hb.insertAll items).nextEditAfter_le (anchorsAt_insertAll.2 (.inr hk)) hlt
  · intro hearlier
    have hle' := b.nextEditAfter_le_length pos
    rcases (b.insertAll items).nextEditAfter_eq_or pos with heq | ⟨hlt, hk⟩
    · omega
    · rcases anchorsAt_insertAll.1 hk with hnew | hold
      · exact hnew
      · have := hb.nextEditAfter_le hold hlt
        omega

/-- The new texts at an offset that is read stand behind the old ones, and in front of what is read
next. -/
theorem spliced_shownFrom (hb : b.Orderly) {mid : Nat} {s u u' : Text}
    (hpos : pos < mid) (hmid : mid ≤ stop) (hread : ¬ b.Skipped start pos)
    (hquiet : ∀ p, pos < p → p < mid → b.Skipped start p ∨ p ∉ items.map Prod.fst)
    (h : Spliced (b.shownFrom items start stop mid) u u') :
    Spliced (b.shownFrom items start stop pos) (b.insertedAt start pos ++ (s ++ u))
      ((b.insertAll items).insertedAt start pos ++ (s ++ u')) := by
  rw [shownFrom_eq hpos hmid hread hquiet, insertedAt_insertAll hb, List.append_assoc]
  exact ((Spliced.flatten _).append (h.append_left s)).append_left _

/-- Reading on after more insertions. The chunk that is read next may be shorter than before, and
the invariant is that the offset reached is not skipped. -/
theorem Reads.insertAll (hb : b.Orderly) (hapart : Overwrite.Apart b.overwrites)
    (hstop : stop ≤ b.length)
    (hitems : ∀ item ∈ items, isBoundary b.source item.1 = true)
    (hstart : start ≤ pos) (hread : pos < stop → ¬ b.Skipped start pos)
    (h : b.Reads start stop pos t) :
    ∃ t', (b.insertAll items).Reads start stop pos t' ∧
      Spliced (b.shownFrom items start stop pos) t t' := by
  induction hn : stop - pos using Nat.strong_induction_on generalizing pos t with
  | _ n ih =>
    rcases Nat.lt_or_ge pos stop with hlt | hge
    · have hread := hread hlt
      cases ho : Overwrite.startingAt? pos b.overwrites with
      | some o =>
        have hmem := Overwrite.mem_of_startingAt? ho
        have hostart := Overwrite.start_of_startingAt? ho
        have hmove := lt_stop_of_startingAt? hb ho
        cases h with
        | done hend => omega
        | kept _ ho' => simp [ho] at ho'
        | @replaced _ o' rest _ ho' hrest =>
          obtain rfl : o = o' := Option.some.inj (ho.symm.trans ho')
          have hread' : min o.stop stop < stop → ¬ b.Skipped start (min o.stop stop) := by
            rintro hmid ⟨p, hp, -, hpstart, hpstop⟩
            rcases hapart.eq_or hp hmem with rfl | hle <;> omega
          obtain ⟨t', ht', hspliced⟩ := ih _ (by omega) (by omega) hread' hrest rfl
          refine ⟨_, .replaced hlt ho ht',
            spliced_shownFrom hb (by omega) (Nat.min_le_right ..) hread ?_ hspliced⟩
          intro p hp hp'
          exact .inl ⟨o, hmem, by omega, by omega, by omega⟩
      | none =>
        obtain ⟨hle, hnew⟩ := nextEditAfter_insertAll hb items pos
        have hmove : pos < (b.insertAll items).nextEditAfter pos := lt_nextEditAfter hlt hstop
        have hboundary : min ((b.insertAll items).nextEditAfter pos) stop <
            min (b.nextEditAfter pos) stop →
              isBoundary b.source (min ((b.insertAll items).nextEditAfter pos) stop) = true := by
          intro hearlier
          obtain ⟨item, hitem, hk⟩ := List.mem_map.1 (hnew (by omega))
          rw [Nat.min_eq_left (by omega), ← hk]
          exact hitems item hitem
        obtain ⟨kept, rest, hkept, hrest, rfl⟩ :=
          h.cut hb hlt ho _ (by omega) (by omega) hboundary
        have hread' : min ((b.insertAll items).nextEditAfter pos) stop < stop →
            ¬ b.Skipped start (min ((b.insertAll items).nextEditAfter pos) stop) := by
          rintro - ⟨o, hmem, hostart, hbefore, hbehind⟩
          rcases Nat.lt_trichotomy pos o.start with hafter | heq | hearlier
          · have := hb.nextEditAfter_le (.inr (.inr ⟨o, hmem, rfl⟩)) hafter
            omega
          · exact Overwrite.startingAt?_eq_none.1 ho o hmem heq.symm
          · exact hread ⟨o, hmem, hostart, hearlier, by omega⟩
        obtain ⟨t', ht', hspliced⟩ := ih _ (by omega) (by omega) hread' hrest rfl
        refine ⟨_, .kept hlt ho hkept ht',
          spliced_shownFrom hb (by omega) (Nat.min_le_right ..) hread ?_ hspliced⟩
        intro p hp hp'
        refine .inr fun hmem => ?_
        have := (hb.insertAll items).nextEditAfter_le (anchorsAt_insertAll.2 (.inl hmem)) hp
        omega
    · cases h with
      | done hend =>
        refine ⟨_, .done hend, ?_⟩
        have hnil : b.shownFrom items start stop pos = [] := by
          rw [shownFrom, Nat.sub_eq_zero_of_le hge, List.range'_zero, List.flatMap_nil]
        rw [hnil]
        exact .refl _
      | replaced hlt | kept hlt => omega

/-- A range is read after more insertions as it was before, with the new texts put in that show. -/
theorem slice_insertAll (hb : b.Orderly) (hapart : Overwrite.Apart b.overwrites)
    (hitems : ∀ item ∈ items, isBoundary b.source item.1 = true)
    (h : b.slice start stop = .ok t) :
    ∃ t', (b.insertAll items).slice start stop = .ok t' ∧
      Spliced (b.shownTexts items start stop) t t' := by
  obtain ⟨hrange, hreads⟩ := (slice_eq_ok_iff hb).1 h
  have hread : start < stop → ¬ b.Skipped start start := by
    rintro - ⟨o, -, hle, hlt, -⟩
    omega
  obtain ⟨t', ht', hspliced⟩ :=
    hreads.insertAll hb hapart hrange.2 hitems (Nat.le_refl start) hread
  exact ⟨t', (slice_eq_ok_iff (hb.insertAll items)).2 ⟨hrange, ht'⟩, hspliced⟩

/-- Insertions that do not show in a range make no difference to it. -/
theorem slice_insertAll_of_apart (hb : b.Orderly) {s : Span}
    (h : ∀ item ∈ items, item.1 < s.start ∨ s.stop ≤ item.1) :
    (b.insertAll items).slice s.start s.stop = b.slice s.start s.stop := by
  refine slice_eq_of_within_eq (hb.insertAll items) hb ?_
  have hnone : items.filter (fun item => showsRight s item.1) = [] := by
    refine List.filter_eq_nil_iff.2 fun item hitem => ?_
    have := h item hitem
    simp only [showsRight, decide_eq_true_eq]
    omega
  simp only [within, insertAll, Insertions.filter_addAll hb.right, hnone]
  rfl

end EditBuffer

end TemplateCompiler
