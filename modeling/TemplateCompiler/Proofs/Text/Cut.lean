import TemplateCompiler.Span
import TemplateCompiler.Text.Basic

/-!
# Cutting texts

A text can be cut at a byte offset exactly where some prefix of it has that length. The lemmas of
this module say so for each cutting function, and carry boundaries from a part of a text to the
whole of it.

## What this module delivers

* `splitAt?_eq_some_iff`, `slice?_eq_some_iff`: what a cut is.
* `isBoundary_iff`: boundaries as prefixes.
* `StandsAt`: a text that stands at a span of another one.
-/

set_option autoImplicit false

namespace TemplateCompiler.Text

theorem byteLength_pos_of_ne_nil {t : Text} (h : t ≠ []) : 0 < byteLength t := by
  cases t with
  | nil => exact absurd rfl h
  | cons c t =>
    have := Char.utf8Size_pos c
    rw [byteLength_cons]
    omega

theorem byteLength_reverse (t : Text) : byteLength t.reverse = byteLength t := by
  induction t with
  | nil => rfl
  | cons c t ih =>
    rw [List.reverse_cons, byteLength_append, ih, byteLength_cons, byteLength_cons, byteLength_nil]
    omega

/-! ## Cuts as prefixes -/

/-- A cut at an offset is a prefix with that many bytes, and what follows it. -/
theorem splitAt?_eq_some_iff {n : Nat} {t a b : Text} :
    splitAt? n t = some (a, b) ↔ t = a ++ b ∧ byteLength a = n := by
  induction t generalizing n a with
  | nil =>
    cases n with
    | zero =>
      constructor
      · intro h
        cases h
        exact ⟨rfl, rfl⟩
      · rintro ⟨h, -⟩
        obtain ⟨rfl, rfl⟩ := List.nil_eq_append_iff.1 h
        rfl
    | succ n =>
      simp only [splitAt?, reduceCtorEq, false_iff]
      rintro ⟨h, hlen⟩
      obtain ⟨rfl, rfl⟩ := List.nil_eq_append_iff.1 h
      simp at hlen
  | cons c t ih =>
    have hc := Char.utf8Size_pos c
    cases n with
    | zero =>
      constructor
      · intro h
        cases h
        exact ⟨rfl, rfl⟩
      · rintro ⟨h, hlen⟩
        cases a with
        | nil => simp_all [splitAt?]
        | cons d a =>
          simp only [List.cons_append, List.cons.injEq] at h
          rw [byteLength_cons, ← h.1] at hlen
          omega
    | succ n =>
      rw [splitAt?]
      split
      · rename_i hle
        simp only [Option.map_eq_some_iff, Prod.mk.injEq, Prod.exists]
        constructor
        · rintro ⟨x, y, hxy, rfl, rfl⟩
          obtain ⟨rfl, hlen⟩ := ih.1 hxy
          refine ⟨rfl, ?_⟩
          rw [byteLength_cons]
          omega
        · rintro ⟨h, hlen⟩
          cases a with
          | nil => simp at hlen
          | cons d a =>
            simp only [List.cons_append, List.cons.injEq] at h
            obtain ⟨rfl, rfl⟩ := h
            rw [byteLength_cons] at hlen
            exact ⟨a, b, ih.2 ⟨rfl, by omega⟩, rfl, rfl⟩
      · rename_i hle
        simp only [reduceCtorEq, false_iff]
        rintro ⟨h, hlen⟩
        cases a with
        | nil => simp at hlen
        | cons d a =>
          simp only [List.cons_append, List.cons.injEq] at h
          rw [byteLength_cons, ← h.1] at hlen
          omega

/-- Two prefixes of a text with equally many bytes are equal. -/
theorem append_inj_of_byteLength {a b a' b' : Text} (h : a ++ b = a' ++ b')
    (hlen : byteLength a = byteLength a') : a = a' ∧ b = b' := by
  have hcut : splitAt? (byteLength a) (a ++ b) = some (a, b) := splitAt?_eq_some_iff.2 ⟨rfl, rfl⟩
  have hcut' : splitAt? (byteLength a) (a ++ b) = some (a', b') :=
    splitAt?_eq_some_iff.2 ⟨h, hlen.symm⟩
  rw [hcut, Option.some.injEq, Prod.mk.injEq] at hcut'
  exact hcut'

/-- Of two prefixes of a text, the one with more bytes goes on where the other one ends. -/
theorem append_eq_append_of_byteLength_le {a b a' b' : Text} (h : a ++ b = a' ++ b')
    (hle : byteLength a ≤ byteLength a') : ∃ m, a' = a ++ m ∧ b = m ++ b' := by
  rcases List.append_eq_append_iff.1 h with ⟨m, ha, hb⟩ | ⟨m, ha, hb⟩
  · exact ⟨m, ha, hb⟩
  · cases m with
    | nil => exact ⟨[], by simpa using ha.symm, by simpa using hb.symm⟩
    | cons c m =>
      have := Char.utf8Size_pos c
      rw [ha, byteLength_append, byteLength_cons] at hle
      omega

theorem drop?_eq_some_iff {n : Nat} {t b : Text} :
    drop? n t = some b ↔ ∃ a, t = a ++ b ∧ byteLength a = n := by
  simp only [drop?, Option.map_eq_some_iff, Prod.exists, exists_eq_right, splitAt?_eq_some_iff]

theorem take?_eq_some_iff {n : Nat} {t a : Text} :
    take? n t = some a ↔ ∃ b, t = a ++ b ∧ byteLength a = n := by
  simp only [take?, Option.map_eq_some_iff, Prod.exists, exists_and_right, exists_eq_right,
    splitAt?_eq_some_iff]

/-- The bytes between two offsets are what stands between two prefixes. -/
theorem slice?_eq_some_iff {start stop : Nat} {t m : Text} :
    slice? start stop t = some m ↔
      ∃ a b, t = a ++ m ++ b ∧ byteLength a = start ∧ start + byteLength m = stop := by
  unfold slice?
  split
  · rename_i hle
    simp only [Option.bind_eq_some_iff, drop?_eq_some_iff, take?_eq_some_iff]
    constructor
    · rintro ⟨r, ⟨a, rfl, ha⟩, b, rfl, hm⟩
      exact ⟨a, b, (List.append_assoc a m b).symm, ha, by omega⟩
    · rintro ⟨a, b, rfl, ha, hm⟩
      exact ⟨m ++ b, ⟨a, List.append_assoc a m b, ha⟩, b, rfl, by omega⟩
  · simp only [reduceCtorEq, false_iff]
    rintro ⟨a, b, -, -, hm⟩
    omega

/-! ## Boundaries -/

theorem isBoundary_iff {t : Text} {n : Nat} :
    isBoundary t n = true ↔ ∃ a b, t = a ++ b ∧ byteLength a = n := by
  simp only [isBoundary, Option.isSome_iff_exists, Prod.exists, splitAt?_eq_some_iff]

/-- A character of two bytes has no boundary between them. -/
example : isBoundary "aü".toList 1 = true ∧ isBoundary "aü".toList 2 = false := by decide +kernel

@[simp] theorem isBoundary_byteLength (t : Text) : isBoundary t (byteLength t) = true :=
  isBoundary_iff.2 ⟨t, [], (List.append_nil t).symm, rfl⟩

theorem le_byteLength_of_isBoundary {t : Text} {n : Nat} (h : isBoundary t n = true) :
    n ≤ byteLength t := by
  obtain ⟨a, b, rfl, rfl⟩ := isBoundary_iff.1 h
  rw [byteLength_append]
  omega

/-- Between two boundaries there is a text to cut out. -/
theorem exists_slice?_of_isBoundary {t : Text} {start stop : Nat}
    (hstart : isBoundary t start = true) (hstop : isBoundary t stop = true) (hle : start ≤ stop) :
    ∃ m, slice? start stop t = some m := by
  obtain ⟨a, r, rfl, rfl⟩ := isBoundary_iff.1 hstart
  obtain ⟨a', b, h, rfl⟩ := isBoundary_iff.1 hstop
  obtain ⟨m, rfl, rfl⟩ := append_eq_append_of_byteLength_le h hle
  refine ⟨m, slice?_eq_some_iff.2 ⟨a, b, (List.append_assoc a m b).symm, rfl, ?_⟩⟩
  rw [byteLength_append]

/-! ## Texts at spans -/

/-- A text stands at a span of another text whose own start has the offset `pos`. -/
def StandsAt (text : Text) (pos : Nat) (span : Span) (body : Text) : Prop :=
  ∃ before after, text = before ++ body ++ after ∧ span.start = pos + byteLength before ∧
    span.stop = span.start + byteLength body

namespace StandsAt

variable {text : Text} {pos : Nat} {span : Span} {body : Text}

theorem pos_le_start (h : StandsAt text pos span body) : pos ≤ span.start := by
  obtain ⟨before, after, -, hstart, -⟩ := h
  omega

theorem start_le_stop (h : StandsAt text pos span body) : span.start ≤ span.stop := by
  obtain ⟨before, after, -, -, hstop⟩ := h
  omega

theorem start_lt_stop (h : StandsAt text pos span body) (hbody : body ≠ []) :
    span.start < span.stop := by
  obtain ⟨before, after, -, -, hstop⟩ := h
  have hpos := byteLength_pos_of_ne_nil hbody
  omega

theorem stop_le (h : StandsAt text pos span body) : span.stop ≤ pos + byteLength text := by
  obtain ⟨before, after, rfl, hstart, hstop⟩ := h
  simp only [byteLength_append]
  omega

/-- A text that stands in a part of a text stands in the whole. -/
theorem inner {before after : Text} (h : StandsAt text (pos + byteLength before) span body) :
    StandsAt (before ++ text ++ after) pos span body := by
  obtain ⟨b, a, rfl, hstart, hstop⟩ := h
  refine ⟨before ++ b, a ++ after, ?_, ?_, hstop⟩
  · simp only [List.append_assoc]
  · rw [byteLength_append, hstart, Nat.add_assoc]

theorem isBoundary_start (h : StandsAt text 0 span body) : isBoundary text span.start = true := by
  obtain ⟨before, after, rfl, hstart, -⟩ := h
  refine isBoundary_iff.2 ⟨before, body ++ after, List.append_assoc .., ?_⟩
  omega

theorem isBoundary_stop (h : StandsAt text 0 span body) : isBoundary text span.stop = true := by
  obtain ⟨before, after, rfl, hstart, hstop⟩ := h
  refine isBoundary_iff.2 ⟨before ++ body, after, rfl, ?_⟩
  rw [byteLength_append]
  omega

theorem slice?_eq (h : StandsAt text 0 span body) :
    slice? span.start span.stop text = some body := by
  obtain ⟨before, after, htext, hstart, hstop⟩ := h
  exact slice?_eq_some_iff.2 ⟨before, after, htext, by omega, hstop.symm⟩

end StandsAt

/-! ## Patterns at the start of a text -/

theorem stripStart?_append (pattern t : Text) : stripStart? (pattern ++ t) pattern = some t := by
  induction pattern with
  | nil => rw [List.nil_append, stripStart?]
  | cons p pattern ih => rw [List.cons_append, stripStart?, if_pos (beq_self_eq_true p), ih]

theorem stripStart?_eq_some {t pattern rest : Text} (h : stripStart? t pattern = some rest) :
    t = pattern ++ rest := by
  induction pattern generalizing t with
  | nil =>
    rw [stripStart?] at h
    cases h
    rfl
  | cons p pattern ih =>
    cases t with
    | nil => cases h
    | cons c t =>
      rw [stripStart?] at h
      split at h
      · rename_i hc
        rw [ih h, beq_iff_eq.1 hc]
        rfl
      · cases h

end TemplateCompiler.Text
