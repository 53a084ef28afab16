import Mathlib.Data.List.TakeWhile
import TemplateCompiler.Proofs.Edit.Anchored
import TemplateCompiler.Proofs.Outcome
import TemplateCompiler.Proofs.Script.Placed

/-!
# Removing imports

The range that is removed for an import grows over the blanks around it. It never grows into another
item: the ends of items are no blanks. So the removed ranges are apart from each other and from
every other item, and no removal is refused.

## What this module delivers

* `TrimmedAt`: spans without blanks at their ends.
* `removalRange_eq_ok`: the range of an import, and what it stays apart from.
* `removeImportsFrom_eq_ok`: all the imports are removed, and every other item stays clear.
-/

set_option autoImplicit false

namespace TemplateCompiler

open Script

/-- A span of a source that has no blanks at its ends. -/
def TrimmedAt (source : Text) (span : Span) : Prop :=
  ∃ body, Text.StandsAt source 0 span body ∧ Trimmed body

/-! ## Blanks around an import -/

theorem isScriptBlank_of_isLineBlank {c : Char} (h : Text.isLineBlank c = true) :
    Text.isScriptBlank c = true := by
  simp only [Text.isLineBlank, Bool.or_eq_true, beq_iff_eq] at h
  rcases h with rfl | rfl <;> rfl

/-- The blanks at the end of a text, as a part of it. -/
theorem trailingBlanks_split (t : Text) :
    ∃ front blanks, t = front ++ blanks ∧ Text.byteLength blanks = trailingBlanks t ∧
      ∀ c ∈ blanks, Text.isLineBlank c = true := by
  refine ⟨(t.reverse.dropWhile Text.isLineBlank).reverse,
    (t.reverse.takeWhile Text.isLineBlank).reverse, ?_, Text.byteLength_reverse _, ?_⟩
  · rw [← List.reverse_append, List.takeWhile_append_dropWhile, List.reverse_reverse]
  · intro c hc
    exact List.mem_takeWhile_imp (List.mem_reverse.1 hc)

/-- The ends of a line, and none. -/
def lineEnds : List Text := [[], "\n".toList, "\r\n".toList]

/-- The blanks and the end of a line at the start of a text, as parts of it. -/
theorem leadingBlanks_split (t : Text) :
    ∃ blanks lineEnd rest, t = blanks ++ lineEnd ++ rest ∧
      Text.byteLength (blanks ++ lineEnd) = leadingBlanks t ∧
      (∀ c ∈ blanks, Text.isLineBlank c = true) ∧ lineEnd ∈ lineEnds := by
  have hsplit := List.takeWhile_append_dropWhile (p := Text.isLineBlank) (l := t)
  have hblank : ∀ c ∈ t.takeWhile Text.isLineBlank, Text.isLineBlank c = true :=
    fun c hc => List.mem_takeWhile_imp hc
  unfold leadingBlanks
  split
  · rename_i rest hrest
    refine ⟨t.takeWhile Text.isLineBlank, "\r\n".toList, rest, ?_, ?_, hblank, by decide⟩
    · rw [hrest] at hsplit
      rw [List.append_assoc]
      exact hsplit.symm
    · rw [Text.byteLength_append]
      rfl
  · rename_i rest hrest
    refine ⟨t.takeWhile Text.isLineBlank, "\n".toList, rest, ?_, ?_, hblank, by decide⟩
    · rw [hrest] at hsplit
      rw [List.append_assoc]
      exact hsplit.symm
    · rw [Text.byteLength_append]
      rfl
  · refine ⟨t.takeWhile Text.isLineBlank, [], t.dropWhile Text.isLineBlank, ?_, ?_, hblank, by decide⟩
    · rw [List.append_nil, hsplit]
    · rw [List.append_nil]

theorem isScriptBlank_of_mem_lineEnd {blanks lineEnd : Text}
    (hblanks : ∀ c ∈ blanks, Text.isLineBlank c = true) (hend : lineEnd ∈ lineEnds) :
    ∀ c ∈ blanks ++ lineEnd, Text.isScriptBlank c = true := by
  have hends : ∀ t ∈ lineEnds, ∀ c ∈ t, Text.isScriptBlank c = true := by decide
  intro c hc
  rcases List.mem_append.1 hc with hc | hc
  · exact isScriptBlank_of_isLineBlank (hblanks c hc)
  · exact hends _ hend c hc

/-! ## The removed range -/

/-- What is known of the range that is removed for an import at `span`, inside of the range from
`lower` to `upper`. Whatever has no blanks at its ends and is apart from the import is apart from the
range. -/
structure RemovesAround (source : Text) (span : Span) (lower upper : Nat) (range : Span) : Prop where
  isBoundary_start : Text.isBoundary source range.start = true
  isBoundary_stop : Text.isBoundary source range.stop = true
  lower_le : lower ≤ range.start
  start_le : range.start ≤ span.start
  le_stop : span.stop ≤ range.stop
  le_upper : range.stop ≤ upper
  before : ∀ t body, Text.StandsAt source 0 t body → Trimmed body →
    t.stop ≤ span.start → t.stop ≤ range.start
  after : ∀ t body, Text.StandsAt source 0 t body → Trimmed body →
    span.stop ≤ t.start → range.stop ≤ t.start

/-- A trimmed text that ends among blanks ends where they start. -/
theorem stop_le_of_blanks {front blanks rest : Text} {t : Span} {body : Text}
    (hblank : ∀ c ∈ blanks, Text.isScriptBlank c = true)
    (ht : Text.StandsAt (front ++ blanks ++ rest) 0 t body) (hbody : Trimmed body)
    (hle : t.stop ≤ Text.byteLength front + Text.byteLength blanks) :
    t.stop ≤ Text.byteLength front := by
  obtain ⟨before, after, h, hstart, hstop⟩ := ht
  rcases Nat.lt_or_ge (Text.byteLength front) t.stop with hlt | hge
  · have hprefix : front ++ (blanks ++ rest) = before ++ body ++ after := by
      rw [← h, List.append_assoc]
    obtain ⟨m, hm, hrest⟩ := Text.append_eq_append_of_byteLength_le hprefix
      (by rw [Text.byteLength_append]; omega)
    -- The last character of the body is the last one of `m`, which is a part of the blanks.
    have hmlen : Text.byteLength m ≤ Text.byteLength blanks := by
      have hlen := congrArg Text.byteLength hm
      simp only [Text.byteLength_append] at hlen
      omega
    obtain ⟨m', hblanks, -⟩ := Text.append_eq_append_of_byteLength_le hrest.symm hmlen
    have hm_ne : m ≠ [] := by
      rintro rfl
      have hlen := congrArg Text.byteLength hm
      simp only [Text.byteLength_append, Text.byteLength_nil] at hlen
      omega
    obtain ⟨c, hc⟩ : ∃ c, m.getLast? = some c := ⟨_, List.getLast?_eq_some_getLast hm_ne⟩
    have hlast : (before ++ body).getLast? = some c := by
      rw [hm, List.getLast?_append, hc]
      rfl
    have hbodyLast : body.getLast? = some c := by
      obtain ⟨d, hd⟩ : ∃ d, body.getLast? = some d :=
        ⟨_, List.getLast?_eq_some_getLast hbody.ne_nil⟩
      rw [List.getLast?_append, hd] at hlast
      rw [hd, ← hlast]
      rfl
    have hcblank : Text.isScriptBlank c = true := by
      apply hblank
      rw [hblanks]
      exact List.mem_append_left _ (List.mem_of_getLast? hc)
    rw [hbody.last c hbodyLast] at hcblank
    cases hcblank
  · exact hge

/-- A trimmed text that starts among blanks starts where they end. -/
theorem le_start_of_blanks {front blanks rest : Text} {t : Span} {body : Text}
    (hblank : ∀ c ∈ blanks, Text.isScriptBlank c = true)
    (ht : Text.StandsAt (front ++ blanks ++ rest) 0 t body) (hbody : Trimmed body)
    (hle : Text.byteLength front ≤ t.start) :
    Text.byteLength front + Text.byteLength blanks ≤ t.start := by
  obtain ⟨before, after, h, hstart, hstop⟩ := ht
  rcases Nat.lt_or_ge t.start (Text.byteLength front + Text.byteLength blanks) with hlt | hge
  · have hprefix : front ++ (blanks ++ rest) = before ++ (body ++ after) := by
      rw [← List.append_assoc, h, List.append_assoc]
    obtain ⟨m, hm, hrest⟩ := Text.append_eq_append_of_byteLength_le hprefix (by omega)
    have hmlen : Text.byteLength m ≤ Text.byteLength blanks := by
      have hlen := congrArg Text.byteLength hm
      simp only [Text.byteLength_append] at hlen
      omega
    obtain ⟨m', hblanks, hbodyrest⟩ := Text.append_eq_append_of_byteLength_le hrest.symm hmlen
    -- The first character of the body is the first one of `m'`, the rest of the blanks.
    cases body with
    | nil => exact absurd rfl hbody.ne_nil
    | cons c body =>
      cases m' with
      | nil =>
        have hlen := congrArg Text.byteLength hm
        rw [List.append_nil] at hblanks
        rw [Text.byteLength_append, ← hblanks] at hlen
        omega
      | cons d m' =>
        simp only [List.cons_append, List.cons.injEq] at hbodyrest
        have hcblank : Text.isScriptBlank c = true := by
          apply hblank
          rw [hblanks, hbodyrest.1]
          exact List.mem_append_right _ List.mem_cons_self
        rw [hbody.head c rfl] at hcblank
        cases hcblank
  · exact hge

/-- The range of an import grows over blanks only. -/
theorem removalRange_eq_ok {source : Text} {span : Span} {lower upper : Nat}
    (hspan : Placed source 0 span) (hlower : Text.isBoundary source lower = true)
    (hupper : Text.isBoundary source upper = true) (hle : lower ≤ span.start)
    (hge : span.stop ≤ upper) :
    ∃ range, removalRange source span lower upper = .ok range ∧
      RemovesAround source span lower upper range := by
  obtain ⟨body, hbody⟩ := hspan
  obtain ⟨gap, hgap⟩ := Text.exists_slice?_of_isBoundary hlower hbody.isBoundary_start hle
  obtain ⟨tail, htail⟩ := Text.exists_slice?_of_isBoundary hbody.isBoundary_stop hupper hge
  have hrange : removalRange source span lower upper =
      .ok ⟨span.start - trailingBlanks gap, span.stop + leadingBlanks tail⟩ := by
    simp only [removalRange, Nat.max_eq_left hle, hgap, htail]
  refine ⟨_, hrange, ?_⟩
  obtain ⟨a, b, hsource, ha, hgapLen⟩ := Text.slice?_eq_some_iff.1 hgap
  obtain ⟨front, blanks, rfl, hblanks, hline⟩ := trailingBlanks_split gap
  have hblank : ∀ c ∈ blanks, Text.isScriptBlank c = true :=
    fun c hc => isScriptBlank_of_isLineBlank (hline c hc)
  obtain ⟨a', b', hsource', ha', htailLen⟩ := Text.slice?_eq_some_iff.1 htail
  obtain ⟨inLine, lineEnd, rest, htailEq, hblanks', hline', hend⟩ := leadingBlanks_split tail
  have hblank' := isScriptBlank_of_mem_lineEnd hline' hend
  rw [← hblanks, ← hblanks']
  generalize inLine ++ lineEnd = blanks' at htailEq hblank'
  subst htailEq
  rw [Text.byteLength_append] at hgapLen htailLen
  have hfront : source = (a ++ front) ++ blanks ++ b := by
    rw [hsource]
    simp only [List.append_assoc]
  have hback : source = a' ++ blanks' ++ (rest ++ b') := by
    rw [hsource']
    simp only [List.append_assoc]
  have hfrontLen : Text.byteLength (a ++ front) = span.start - Text.byteLength blanks := by
    rw [Text.byteLength_append]
    omega
  constructor
  · refine Text.isBoundary_iff.2 ⟨a ++ front, blanks ++ b, ?_, hfrontLen⟩
    rw [hfront, List.append_assoc]
  · refine Text.isBoundary_iff.2 ⟨a' ++ blanks', rest ++ b', hback, ?_⟩
    rw [Text.byteLength_append, ha']
  · show lower ≤ span.start - Text.byteLength blanks
    omega
  · exact Nat.sub_le ..
  · exact Nat.le_add_right ..
  · show span.stop + Text.byteLength blanks' ≤ upper
    omega
  · intro t body' ht hbody' hle'
    rw [hfront] at ht
    have h := stop_le_of_blanks hblank ht hbody' (by omega)
    rwa [hfrontLen] at h
  · intro t body' ht hbody' hge'
    rw [hback] at ht
    have h := le_start_of_blanks hblank' ht hbody' (by omega)
    rwa [ha'] at h

/-! ## All the imports -/

/-- Every import among some items can be removed. Spans without blanks at their ends that are apart
from the imports stay clear. -/
theorem removeImportsFrom_eq_ok {upper : Nat} (items : List ModuleItem) (number : Nat)
    {lower : Nat} {b : EditBuffer} (hb : b.Anchored)
    (htrimmed : ∀ item ∈ items, TrimmedAt b.source (itemSpan item))
    (hordered : items.Pairwise fun x y => (itemSpan x).stop ≤ (itemSpan y).start)
    (hlower : Text.isBoundary b.source lower = true) (hupper : Text.isBoundary b.source upper = true)
    (hbounds : ∀ item ∈ items, lower ≤ (itemSpan item).start ∧ (itemSpan item).stop ≤ upper)
    (hclear : b.Clear ⟨lower, upper⟩) :
    ∃ records b', removeImportsFrom upper number lower items b = .ok (records, b') ∧
      b'.source = b.source ∧ b'.Anchored ∧
      ∀ t body, Text.StandsAt b.source 0 t body → Trimmed body → b.Clear t →
        (∀ item ∈ items, isImport item = true →
          (itemSpan item).stop ≤ t.start ∨ t.stop ≤ (itemSpan item).start) → b'.Clear t := by
  induction items generalizing number lower b with
  | nil => exact ⟨[], b, rfl, rfl, hb, fun t _ _ _ ht _ => ht⟩
  | cons item items ih =>
    obtain ⟨hfirst, hrest⟩ := List.pairwise_cons.1 hordered
    obtain ⟨hitem, htrimmed'⟩ := List.forall_mem_cons.1 htrimmed
    have hbounds' : ∀ x ∈ items, lower ≤ (itemSpan x).start ∧ (itemSpan x).stop ≤ upper :=
      fun x hx => hbounds x (List.mem_cons_of_mem _ hx)
    cases item with
    | imports span specifiers source =>
      obtain ⟨body, hbody, -⟩ := hitem
      obtain ⟨hle, hge⟩ := hbounds _ List.mem_cons_self
      obtain ⟨range, hrange, hr⟩ := removalRange_eq_ok ⟨body, hbody⟩ hlower hupper hle hge
      have hrangeLe : range.start ≤ range.stop :=
        (hr.start_le.trans hbody.start_le_stop).trans hr.le_stop
      obtain ⟨b₁, h₁, ho⟩ := hb.overwrite [] hr.isBoundary_start hr.isBoundary_stop hrangeLe
        (hclear.mono hr.lower_le hr.le_upper)
      have hclear₁ : b₁.Clear ⟨range.stop, upper⟩ :=
        ho.clear _ (hclear.mono (hr.lower_le.trans hrangeLe) (Nat.le_refl _))
          (Or.inl (Nat.le_refl _))
      have hbounds₁ : ∀ x ∈ items, range.stop ≤ (itemSpan x).start ∧ (itemSpan x).stop ≤ upper := by
        intro x hx
        obtain ⟨body', hbody', htrim⟩ := htrimmed' x hx
        exact ⟨hr.after _ body' hbody' htrim (hfirst x hx), (hbounds' x hx).2⟩
      obtain ⟨records, b₂, h₂, hsource, hb₂, hkeep⟩ := ih (number + 1) ho.anchored
        (by rw [ho.source]; exact htrimmed') hrest (by rw [ho.source]; exact hr.isBoundary_stop)
        (by rw [ho.source]; exact hupper) hbounds₁ hclear₁
      refine ⟨importRecord number specifiers source :: records, b₂, ?_, hsource.trans ho.source,
        hb₂, ?_⟩
      · rw [removeImportsFrom]
        exact bind_eq_ok_iff.2 ⟨range, hrange, bind_eq_ok_iff.2 ⟨b₁, h₁,
          bind_eq_ok_iff.2 ⟨(records, b₂), h₂, rfl⟩⟩⟩
      · intro t body' ht htrim hcl hapart
        have hapart₁ : range.stop ≤ t.start ∨ t.stop ≤ range.start := by
          rcases hapart _ List.mem_cons_self rfl with h | h
          · exact Or.inl (hr.after t body' ht htrim h)
          · exact Or.inr (hr.before t body' ht htrim h)
        refine hkeep t body' (by rw [ho.source]; exact ht) htrim (ho.clear t hcl hapart₁) ?_
        exact fun x hx => hapart x (List.mem_cons_of_mem _ hx)
    | exportDefault | exportDefaultDecl | exportDecl | exportNames | exportAll | statement =>
      obtain ⟨records, b', h, hsource, hb', hkeep⟩ :=
        ih number hb htrimmed' hrest hlower hupper hbounds' hclear
      refine ⟨records, b', h, hsource, hb', fun t body ht htrim hcl hapart => ?_⟩
      exact hkeep t body ht htrim hcl fun x hx => hapart x (List.mem_cons_of_mem _ hx)

end TemplateCompiler
