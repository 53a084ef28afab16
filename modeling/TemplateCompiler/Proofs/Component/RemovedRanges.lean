import TemplateCompiler.Proofs.Component.Rewriting

/-!
# What goes away with the imports

An import goes away with the rest of its line: the blanks on both sides of it, and the end of the line.
Each range is cut off where the one before it ended, so several imports may share a line, and whatever
else stands in the line stays.

## What this module delivers

* `Widens`, `removalRange_widens`: the range that goes away with an import.
* `removeImportsFrom_records`: the records of the imports, with their numbers.
* `removeImports_widens`: all the ranges, and what they leave alone.
-/

set_option autoImplicit false

namespace TemplateCompiler

open Script Text

/-! ## One import -/

/-- A range with nothing but an import in it, apart from spaces and tabs on both sides and at most one
end of a line behind these. -/
structure Widens (source : Text) (span range : Span) : Prop where
  start_le : range.start ≤ span.start
  le_stop : span.stop ≤ range.stop
  before : ∃ blanks, StandsAt source 0 ⟨range.start, span.start⟩ blanks ∧
    ∀ c ∈ blanks, c = ' ' ∨ c = '\t'
  after : ∃ blanks lineEnd, StandsAt source 0 ⟨span.stop, range.stop⟩ (blanks ++ lineEnd) ∧
    (∀ c ∈ blanks, c = ' ' ∨ c = '\t') ∧ lineEnd ∈ lineEnds

theorem isLineBlank_iff {c : Char} : isLineBlank c = true ↔ c = ' ' ∨ c = '\t' := by
  rw [isLineBlank, Bool.or_eq_true, beq_iff_eq, beq_iff_eq]

theorem removalRange_widens {source : Text} {span range : Span} {lower upper : Nat}
    (hle : lower ≤ span.start) (h : removalRange source span lower upper = .ok range) :
    Widens source span range := by
  simp only [removalRange, Nat.max_eq_left hle] at h
  split at h
  · rename_i gap tail hgap htail
    cases h
    obtain ⟨a, b, hsource, ha, hgapLen⟩ := slice?_eq_some_iff.1 hgap
    obtain ⟨front, blanks, rfl, hblanks, hline⟩ := trailingBlanks_split gap
    obtain ⟨a', b', hsource', ha', htailLen⟩ := slice?_eq_some_iff.1 htail
    obtain ⟨blanks', lineEnd, rest, rfl, hblanks', hline', hend⟩ := leadingBlanks_split tail
    rw [← hblanks, ← hblanks']
    rw [byteLength_append] at hgapLen
    refine ⟨Nat.sub_le _ _, Nat.le_add_right _ _, ⟨blanks, ?_, ?_⟩, ⟨blanks', lineEnd, ?_, ?_, hend⟩⟩
    · refine ⟨a ++ front, b, by rw [hsource]; simp only [List.append_assoc], ?_, ?_⟩
      · show span.start - byteLength blanks = 0 + byteLength (a ++ front)
        rw [byteLength_append]
        omega
      · show span.start = span.start - byteLength blanks + byteLength blanks
        omega
    · exact fun c hc => isLineBlank_iff.1 (hline c hc)
    · refine ⟨a', rest ++ b', by rw [hsource']; simp only [List.append_assoc], ?_, rfl⟩
      rw [ha', Nat.zero_add]
    · exact fun c hc => isLineBlank_iff.1 (hline' c hc)
  · cases h

/-! ## Records -/

/-- What an item imports, and from where. -/
def importOf? : ModuleItem → Option (List ImportSpecifier × Text)
  | .imports _ specifiers source => some (specifiers, source)
  | _ => none

/-- Every import has one record, and they are numbered in the order of the imports. -/
theorem removeImportsFrom_records (items : List ModuleItem) {upper number lower : Nat}
    {b b' : EditBuffer} {records : List ImportRecord}
    (h : removeImportsFrom upper number lower items b = .ok (records, b')) :
    records = (items.filterMap importOf?).mapIdx fun i p => importRecord (number + i) p.1 p.2 := by
  induction items generalizing number lower b records with
  | nil =>
    cases h
    rfl
  | cons item items ih =>
    cases item with
    | imports span specifiers module =>
      obtain ⟨range, -, h⟩ := bind_eq_ok_iff.1 h
      obtain ⟨b₁, -, h⟩ := bind_eq_ok_iff.1 h
      obtain ⟨⟨records', b₂⟩, h₂, h⟩ := bind_eq_ok_iff.1 h
      cases h
      have hfirst : importOf? (.imports span specifiers module) = some (specifiers, module) := rfl
      rw [ih h₂, List.filterMap_cons_some hfirst, List.mapIdx_cons]
      simp only [Nat.add_zero, Nat.add_assoc, Nat.add_comm 1]
    | exportDefault | exportDefaultDecl | exportDecl | exportNames | exportAll | statement => exact ih h

theorem foldl_add_moduleBinding (specifiers : List ImportSpecifier) (r : ImportRecord) :
    (specifiers.foldl ImportRecord.add r).moduleBinding = r.moduleBinding := by
  induction specifiers generalizing r with
  | nil => rfl
  | cons specifier specifiers ih =>
    rw [List.foldl_cons, ih]
    cases specifier <;> rfl

/-- The name of a record has its number. -/
theorem importRecord_moduleBinding (number : Nat) (specifiers : List ImportSpecifier)
    (source : Text) :
    (importRecord number specifiers source).moduleBinding = "__import".toList ++ ofNat number :=
  foldl_add_moduleBinding ..

/-! ## All the imports -/

section Parts

variable {source : Text} {upper lower : Nat} {items : List ModuleItem} {parts : List Part}

variable (source upper lower items) in
theorem map_item_partsFrom : (partsFrom source upper lower items).map Part.item = items := by
  have h := flatMap_partsFrom source upper lower items fun item => [item]
  rwa [List.flatMap_singleton', ← List.map_eq_flatMap] at h

/-- The removals are the ranges of the imports. -/
theorem flatMap_removals :
    parts.flatMap Part.removals =
      (parts.filter fun x => isImport x.item).map fun x =>
        .overwrite x.range.start x.range.stop [] := by
  induction parts with
  | nil => rfl
  | cons x parts ih =>
    rw [List.flatMap_cons, ih]
    cases himport : isImport x.item with
    | true => simp [Part.removals, himport]
    | false => simp [Part.removals, himport]

/-- The range of a part has its item. -/
theorem Ranged.span_within {s : Span} {x : Part}
    (h : Ranged source s (partsFrom source upper lower items))
    (hx : x ∈ partsFrom source upper lower items) :
    x.range.start ≤ (itemSpan x.item).start ∧ (itemSpan x.item).stop ≤ x.range.stop := by
  cases himport : isImport x.item with
  | true =>
    obtain ⟨lower', -, hr⟩ := h.removed x hx himport
    exact ⟨hr.start_le, hr.le_stop⟩
  | false =>
    rw [(mem_partsFrom hx).2.2 himport]
    exact ⟨Nat.le_refl _, Nat.le_refl _⟩

/-- The range of a part meets no other item. -/
theorem Ranged.apart {s : Span} {x : Part} {item : ModuleItem}
    (h : Ranged source s (partsFrom source upper lower items))
    (hx : x ∈ partsFrom source upper lower items) (hitem : item ∈ items) (hne : item ≠ x.item) :
    (itemSpan item).stop ≤ x.range.start ∨ x.range.stop ≤ (itemSpan item).start := by
  rw [← map_item_partsFrom source upper lower items] at hitem
  -- The other item has a range of its own, which has it and is apart from this one.
  obtain ⟨y, hy, rfl⟩ := List.mem_map.1 hitem
  obtain ⟨hstart, hstop⟩ := h.span_within hy
  have hapart : (partsFrom source upper lower items).Pairwise fun x y =>
      x.range.stop ≤ y.range.start ∨ y.range.stop ≤ x.range.start :=
    h.ordered.imp Or.inl
  have hsymm : Std.Symm fun x y : Part =>
      x.range.stop ≤ y.range.start ∨ y.range.stop ≤ x.range.start := ⟨fun _ _ => Or.symm⟩
  have hyx : y ≠ x := by
    rintro rfl
    exact hne rfl
  rcases hapart.forall hy hx hyx with hle | hle
  · exact .inl (hstop.trans hle)
  · exact .inr (hle.trans hstart)

end Parts

/-- The imports of a script go away, each with one range of the script, and nothing else does: the
ranges follow each other like the imports, have nothing but blanks around the imports, and meet no
other item. Every import has one record, with its number. -/
theorem removeImports_widens {m : Module} {bounds : Span} {b : EditBuffer} (hb : b.Anchored)
    (hclear : b.Clear bounds) (hspan : Placed b.source 0 bounds)
    (htrimmed : ∀ item ∈ m.items, TrimmedAt b.source (itemSpan item))
    (hordered : m.items.Pairwise fun x y => (itemSpan x).stop ≤ (itemSpan y).start)
    (hbounds : ∀ item ∈ m.items,
      bounds.start ≤ (itemSpan item).start ∧ (itemSpan item).stop ≤ bounds.stop) :
    ∃ removed : List (ModuleItem × Span), ∃ records b',
      removeImports m bounds b = .ok (records, b') ∧
      b.recordEdits (removed.map fun p => .overwrite p.2.start p.2.stop []) = .ok b' ∧
      removed.map Prod.fst = m.items.filter isImport ∧
      (removed.Pairwise fun p q => p.2.stop ≤ q.2.start) ∧
      (∀ p ∈ removed, bounds.start ≤ p.2.start ∧ p.2.stop ≤ bounds.stop ∧
        Widens b.source (itemSpan p.1) p.2 ∧
        ∀ item ∈ m.items, item ≠ p.1 →
          (itemSpan item).stop ≤ p.2.start ∨ p.2.stop ≤ (itemSpan item).start) ∧
      records = (m.items.filterMap importOf?).mapIdx (fun i p => importRecord i p.1 p.2) ∧
      ∀ i r, records[i]? = some r → r.moduleBinding = "__import".toList ++ ofNat i := by
  obtain ⟨body, hbody⟩ := hspan
  obtain ⟨records, b', h, -⟩ := removeImportsFrom_eq_ok m.items 0 hb htrimmed hordered
    hbody.isBoundary_start hbody.isBoundary_stop hbounds hclear
  -- The ranges are those of the parts that are imports.
  obtain ⟨hranged, -⟩ := partsFrom_ranged m.items htrimmed hordered hbody.isBoundary_start
    hbody.isBoundary_stop hbounds
  have hrecords := removeImportsFrom_records m.items h
  simp only [Nat.zero_add] at hrecords
  let parts := partsFrom b.source bounds.stop bounds.start m.items
  let imports := parts.filter fun x => isImport x.item
  refine ⟨imports.map fun x => (x.item, x.range), records, b', h, ?_, ?_, ?_, ?_, hrecords, ?_⟩
  · rw [List.map_map]
    exact flatMap_removals ▸ (removeImportsFrom_history m.items rfl h).1
  · have hitems : (parts.map Part.item).filter isImport = m.items.filter isImport :=
      congrArg _ (map_item_partsFrom _ _ _ _)
    rw [List.map_map, ← hitems, List.filter_map]
    rfl
  · exact List.pairwise_map.2 (hranged.ordered.filter _)
  · intro p hp
    obtain ⟨x, hx, rfl⟩ := List.mem_map.1 hp
    obtain ⟨hx, himport⟩ := List.mem_filter.1 hx
    obtain ⟨lower, hrange, hr⟩ := hranged.removed x hx himport
    exact ⟨(hranged.bounds x hx).1, (hranged.bounds x hx).2,
      removalRange_widens (hr.lower_le.trans hr.start_le) hrange,
      fun item hitem hne => hranged.apart hx hitem hne⟩
  · intro i r hr
    rw [hrecords, List.getElem?_mapIdx] at hr
    obtain ⟨p, -, rfl⟩ := Option.map_eq_some_iff.1 hr
    exact importRecord_moduleBinding ..

/-- Imports that share a line with each other, with an export, and with nothing. -/
def sharedLines : Text :=
  "import a from 'a'; import * as b from 'b' \r\n\texport var c; import 'd'\t\n import e from 'e'".toList

theorem removeImports_widens_sharedLines :
    ∃ block, wholeScript sharedLines = some block ∧
      ∃ removed : List (ModuleItem × Span), ∃ records b',
        removeImports block.content block.span (.ofText sharedLines) = .ok (records, b') ∧
        removed.map Prod.fst = block.content.items.filter isImport ∧
        (removed.Pairwise fun p q => p.2.stop ≤ q.2.start) ∧
        (∀ p ∈ removed, Widens sharedLines (itemSpan p.1) p.2) ∧
        records.map ImportRecord.moduleBinding =
          ["__import0".toList, "__import1".toList, "__import2".toList, "__import3".toList] := by
  have hchars : sharedLines = _ := Text.HasChars.literal
  have hchecked : ((wholeScript sharedLines).any fun block =>
      decide (((block.content.items.filterMap importOf?).mapIdx fun i p =>
          importRecord i p.1 p.2).map ImportRecord.moduleBinding =
        ["__import0".toList, "__import1".toList, "__import2".toList, "__import3".toList])) =
      true := by
    rw [hchars]
    decide +kernel
  obtain ⟨block, hblock, hchecked⟩ := (Option.any_eq_true _ _).1 hchecked
  have hbindings := of_decide_eq_true hchecked
  obtain ⟨hm, hspan, hbounds⟩ := wholeScript_placed hblock
  obtain ⟨removed, records, b', h, -, hitems, hordered, heach, hrecords, -⟩ :=
    removeImports_widens (m := block.content) (EditBuffer.anchored_ofText sharedLines)
      (EditBuffer.clear_ofText sharedLines block.span) hspan (fun x hx => (hm.items x hx).span)
      hm.ordered hbounds
  exact ⟨block, hblock, removed, records, b', h, hitems, hordered, fun p hp => (heach p hp).2.2.1,
    hrecords ▸ hbindings⟩

end TemplateCompiler
