import TemplateCompiler.Proofs.Compilation
import TemplateCompiler.Proofs.Text.Lines

/-!
# Where code comes from

Composing goes over the fragments once and carries the offset and the position that it has reached.
What it carries is determined by the code made so far: its length, and the position behind it. From
that follows what a segment says of the finished code.

## What this module delivers

* `fragmentText`: the text of one fragment.
* `Segment.Exact`: a segment that tells the truth about some code.
* `ComposesTo`, `compose_exact`: the code of fragments, and its segments.
-/

set_option autoImplicit false

namespace TemplateCompiler

open Script Text

/-- The text of a fragment, a range of the source being read with all the edits. -/
def fragmentText (edits : EditBuffer) : Fragment → Except EditFault Text
  | .text t => .ok t
  | .slice range => edits.slice range.start range.stop

/-- The position of an offset of a text, counted from scratch. -/
def CountedAt (text : Text) (offset : Nat) (p : Position) : Prop :=
  ∃ before, take? offset text = some before ∧ p = Position.counted before

/-- A segment that tells the truth about some code: the edited text of its range of the source stands
at its range of the code, and its positions are those of the two starts. -/
structure Segment.Exact (edits : EditBuffer) (code : Text) (seg : Segment) : Prop where
  stands : ∃ t, edits.slice seg.source.start seg.source.stop = .ok t ∧
    StandsAt code 0 seg.generated t
  generatedPosition : CountedAt code seg.generated.start seg.generatedPosition
  sourcePosition : CountedAt edits.source seg.source.start seg.sourcePosition

theorem countedAt_length (before after : Text) :
    CountedAt (before ++ after) (byteLength before) (Position.counted before) :=
  ⟨before, take?_eq_some_iff.2 ⟨after, rfl, rfl⟩, rfl⟩

theorem countedAt_positionAt {text : Text} {offset : Nat} (h : isBoundary text offset = true) :
    CountedAt text offset (positionAt (lineStarts text) offset) := by
  obtain ⟨before, after, rfl, rfl⟩ := isBoundary_iff.1 h
  rw [positionAt_lineStarts]
  exact countedAt_length before after

theorem placed_of_isBoundary {text : Text} {span : Span} (hstart : isBoundary text span.start = true)
    (hstop : isBoundary text span.stop = true) (hle : span.start ≤ span.stop) :
    Placed text 0 span := by
  obtain ⟨body, hbody⟩ := exists_slice?_of_isBoundary hstart hstop hle
  obtain ⟨before, after, htext, hbefore, hlen⟩ := slice?_eq_some_iff.1 hbody
  exact ⟨body, before, after, htext, by omega, hlen.symm⟩

/-- What composing some fragments gives behind code that was made before. The offset and the position
that it starts from are those of the end of that code. -/
structure ComposesTo (b : EditBuffer) (before : Text) (fragments : List Fragment) (out : Composed)
    (texts : List Text) : Prop where
  composed : composeFrom b (lineStarts b.source) (byteLength before) (Position.counted before)
    fragments = .ok out
  read : fragments.mapM (fragmentText b) = .ok texts
  code : out.code = texts.flatten
  sources : out.segments.map Segment.source = spansOf fragments
  behind : ∀ seg ∈ out.segments, byteLength before ≤ seg.generated.start
  ordered : out.segments.Pairwise fun x y => x.generated.stop ≤ y.generated.start
  faithful : ∀ seg ∈ out.segments, seg.Exact b (before ++ out.code)

section

variable {b : EditBuffer} {before t : Text} {rest : List Fragment} {out : Composed}
  {texts : List Text}

theorem ComposesTo.nil : ComposesTo b before [] ⟨[], []⟩ [] :=
  ⟨rfl, rfl, rfl, rfl, nofun, .nil, nofun⟩

theorem mapM_fragmentText_cons {f : Fragment} (hf : fragmentText b f = .ok t)
    (h : rest.mapM (fragmentText b) = .ok texts) :
    (f :: rest).mapM (fragmentText b) = .ok (t :: texts) := by
  rw [List.mapM_cons]
  exact bind_eq_ok_iff.2 ⟨t, hf, bind_eq_ok_iff.2 ⟨texts, h, rfl⟩⟩

/-- A text in front moves the segments behind it. -/
theorem ComposesTo.text (h : ComposesTo b (before ++ t) rest out texts) :
    ComposesTo b before (.text t :: rest) ⟨t ++ out.code, out.segments⟩ (t :: texts) := by
  obtain ⟨hout, hread, hcode, hsources, hbehind, hordered, hexact⟩ := h
  rw [byteLength_append, ← Position.advance_counted] at hout
  rw [byteLength_append] at hbehind
  rw [List.append_assoc] at hexact
  refine ⟨?_, mapM_fragmentText_cons rfl hread, ?_, hsources, ?_, hordered, hexact⟩
  · exact bind_eq_ok_iff.2 ⟨out, hout, rfl⟩
  · rw [List.flatten_cons, hcode]
  · intro seg hseg
    exact Nat.le_trans (Nat.le_add_right ..) (hbehind seg hseg)

/-- A range in front gets a segment, between what was made before and what follows. -/
theorem ComposesTo.slice {range : Span} (hrange : Placed b.source 0 range)
    (ht : b.slice range.start range.stop = .ok t) (h : ComposesTo b (before ++ t) rest out texts) :
    ComposesTo b before (.slice range :: rest)
      ⟨t ++ out.code, ⟨⟨byteLength before, byteLength before + byteLength t⟩, range,
        Position.counted before, positionAt (lineStarts b.source) range.start⟩ :: out.segments⟩
      (t :: texts) := by
  obtain ⟨hout, hread, hcode, hsources, hbehind, hordered, hexact⟩ := h
  obtain ⟨body, hbody⟩ := hrange
  rw [byteLength_append, ← Position.advance_counted] at hout
  rw [byteLength_append] at hbehind
  rw [List.append_assoc] at hexact
  refine ⟨?_, mapM_fragmentText_cons ht hread, ?_, ?_, ?_, ?_, ?_⟩
  · exact bind_eq_ok_iff.2 ⟨t, ht, bind_eq_ok_iff.2 ⟨out, hout, rfl⟩⟩
  · rw [List.flatten_cons, hcode]
  · rw [List.map_cons, hsources]
    rfl
  · refine List.forall_mem_cons.2 ⟨Nat.le_refl _, fun seg hseg => ?_⟩
    exact Nat.le_trans (Nat.le_add_right ..) (hbehind seg hseg)
  · exact List.pairwise_cons.2 ⟨hbehind, hordered⟩
  · refine List.forall_mem_cons.2 ⟨⟨⟨t, ht, before, out.code, ?_, ?_, rfl⟩, ?_, ?_⟩, hexact⟩
    · exact (List.append_assoc ..).symm
    · exact (Nat.zero_add _).symm
    · exact countedAt_length before _
    · exact countedAt_positionAt hbody.isBoundary_start

end

/-- Fragments whose ranges lie on character boundaries are composed behind any code. -/
theorem exists_composesTo {b : EditBuffer} (hb : b.Anchored) (fragments : List Fragment)
    (hspans : ∀ s ∈ spansOf fragments, Placed b.source 0 s) (before : Text) :
    ∃ out texts, ComposesTo b before fragments out texts := by
  induction fragments generalizing before with
  | nil => exact ⟨_, _, .nil⟩
  | cons f rest ih =>
    cases f with
    | text t =>
      obtain ⟨out, texts, h⟩ := ih hspans (before ++ t)
      exact ⟨_, _, h.text⟩
    | slice range =>
      obtain ⟨hrange, hspans⟩ := List.forall_mem_cons.1 hspans
      obtain ⟨body, hbody⟩ := hrange
      obtain ⟨t, ht⟩ := hb.exists_slice hbody.isBoundary_start hbody.isBoundary_stop
        hbody.start_le_stop
      obtain ⟨out, texts, h⟩ := ih hspans (before ++ t)
      exact ⟨_, _, h.slice ⟨body, hbody⟩ ht⟩

/-- Provenance is exact. Where the edits and the ranges of the fragments lie on character boundaries,
composing succeeds, its code is the texts of the fragments one after the other, and there is one segment
for each range, in order. The segments lie one behind the other in the code and tell the truth about
it. -/
theorem compose_exact {b : EditBuffer} (hb : b.Anchored) {fragments : List Fragment}
    (hspans : ∀ s ∈ spansOf fragments, Placed b.source 0 s) :
    ∃ out texts, compose b fragments = .ok out ∧ fragments.mapM (fragmentText b) = .ok texts ∧
      out.code = texts.flatten ∧ out.segments.map Segment.source = spansOf fragments ∧
      out.segments.Pairwise (fun x y => x.generated.stop ≤ y.generated.start) ∧
      ∀ seg ∈ out.segments, seg.Exact b out.code := by
  obtain ⟨out, texts, h⟩ := exists_composesTo hb fragments hspans []
  exact ⟨out, texts, h.composed, h.read, h.code, h.sources, h.ordered, h.faithful⟩

/-- The two lines `a` and `é`. The first is overwritten by two others, and more is inserted before the
second on both sides. -/
def overwrittenLine : EditBuffer :=
  ⟨"a\né".toList, [(2, "!\n".toList)], [(2, "x".toList)], [⟨0, 1, "b\nc".toList⟩]⟩

/-- Text, a range that ends where another starts, an empty range, and a range that ends the source. -/
def neighbouringRanges : List Fragment :=
  [.ofString "<\n", .slice ⟨0, 2⟩, .slice ⟨2, 2⟩, .ofString "-", .slice ⟨2, 4⟩]

theorem compose_neighbouringRanges :
    overwrittenLine.Anchored ∧
      (∀ s ∈ spansOf neighbouringRanges, Placed overwrittenLine.source 0 s) ∧
      ∃ out, compose overwrittenLine neighbouringRanges = .ok out ∧
        out.code = "<\nb\nc\n!\n-xé".toList ∧ (∀ seg ∈ out.segments, seg.Exact overwrittenLine out.code) ∧
        out.segments.map (fun seg => (seg.generatedPosition, seg.sourcePosition)) =
          [(⟨1, 0⟩, ⟨0, 0⟩), (⟨4, 0⟩, ⟨1, 0⟩), (⟨4, 1⟩, ⟨1, 0⟩)] := by
  have hanchored : overwrittenLine.Anchored := by
    constructor <;> decide
  have hplaced : ∀ s ∈ spansOf neighbouringRanges, Placed overwrittenLine.source 0 s := by
    have hbounds : ∀ s ∈ spansOf neighbouringRanges,
        isBoundary overwrittenLine.source s.start = true ∧
          isBoundary overwrittenLine.source s.stop = true ∧ s.start ≤ s.stop := by
      decide
    intro s hs
    obtain ⟨hstart, hstop, hle⟩ := hbounds s hs
    exact placed_of_isBoundary hstart hstop hle
  obtain ⟨out, texts, hout, -, -, -, -, hexact⟩ := compose_exact hanchored hplaced
  have hvalue : (compose overwrittenLine neighbouringRanges).toOption.map (fun out =>
      (out.code, out.segments.map fun seg => (seg.generatedPosition, seg.sourcePosition))) =
        some ("<\nb\nc\n!\n-xé".toList,
          [(⟨1, 0⟩, ⟨0, 0⟩), (⟨4, 0⟩, ⟨1, 0⟩), (⟨4, 1⟩, ⟨1, 0⟩)]) := by
    decide
  rw [hout, Except.toOption, Option.map_some, Option.some.injEq, Prod.mk.injEq] at hvalue
  exact ⟨hanchored, hplaced, out, hout, hvalue.1, hexact, hvalue.2⟩

end TemplateCompiler
