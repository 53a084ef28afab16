import TemplateCompiler.Proofs.Component.LiteralSpans
import TemplateCompiler.Proofs.Grammar.Modules

/-!
# The grammar of scripts is sound

What is read from a text lies in it. So the grammar of scripts is one that the rest of the compiler can
rely on: the names that an expression refers to stand inside of it, the items of a module follow each
other, and whatever a failure is reported at is a part of the text.

## What this module delivers

* `Laid.outlineNames`: the names that resolution looks at stand in the source.
* `run_gives`: a reader that runs at the start of a text is ready for it.
* `Grammar.standard_sound`, `Grammar.standard_placesSpans`: the grammar of scripts.
-/

set_option autoImplicit false

/-! ## Names in outlines -/

namespace TemplateCompiler.Resolve

open Script

theorem outlineNames_append (os os' : List Outline) :
    outlineNames (os ++ os') = outlineNames os ++ outlineNames os' := by
  induction os with
  | nil => rfl
  | cons o os ih => rw [List.cons_append, outlineNames, outlineNames, ih, List.append_assoc]

theorem outlineNames_flatMap {α : Type} (f : α → List Outline) (as : List α) :
    outlineNames (as.flatMap f) = as.flatMap fun a => outlineNames (f a) := by
  induction as with
  | nil => rfl
  | cons a as ih => rw [List.flatMap_cons, List.flatMap_cons, outlineNames_append, ih]

/-- The root of a callee is one of its names. -/
theorem memberRoot?_subset (e : Expr) : (memberRoot? e).toList ⊆ outlineNames (exprOutline e) := by
  fun_induction memberRoot? e with
  | case1 id => simp [exprOutline, outlineNames, Outline.names]
  | case2 span object key ih =>
    rw [exprOutline, outlineNames_append]
    exact List.Subset.trans ih (List.subset_append_left _ _)
  | case3 => simp

namespace Snippet

/-- What the outline of a piece of code mentions is a name of its own, or the outline of one of its
pieces mentions it. -/
theorem outlineNames_step (s : Snippet) :
    outlineNames s.outline ⊆ s.ownIdents ++ s.pieces.flatMap fun p => outlineNames p.outline := by
  cases s with
  | expr e =>
    cases e with
    | call span callee args | chainCall span callee args =>
      -- The outline of a call mentions the root of its callee once more.
      have hroot : (memberRoot? callee).toList ⊆ outlineNames (exprOutline callee) ++
          args.flatMap fun e => outlineNames (exprOutline e) :=
        List.Subset.trans (memberRoot?_subset callee) (List.subset_append_left _ _)
      simpa [outline, pieces, ownIdents, exprOutline, exprPieces, Outline.names, outlineNames,
        exprsOutline_eq, outlineNames_flatMap, List.flatMap_map] using hroot
    | _ =>
      simp [outline, pieces, ownIdents, exprOutline, exprPieces, functionScope, blockScope,
        Outline.names, outlineNames, outlineNames_append, exprsOutline_eq, propsOutline_eq,
        patsOutline_eq, stmtsOutline_eq, membersOutline_eq, optionExprOutline_eq,
        outlineNames_flatMap, List.flatMap_map]
  | key k => cases k <;> simp [outline, pieces, ownIdents, keyOutline, keyPieces, outlineNames]
  | prop p =>
    cases p <;>
      simp [outline, pieces, ownIdents, propOutline, propPieces, functionScope, blockScope,
        Outline.names, outlineNames, outlineNames_append, patsOutline_eq, stmtsOutline_eq,
        outlineNames_flatMap, List.flatMap_map]
  | pat p =>
    cases p <;>
      simp [outline, pieces, ownIdents, patOutline, patPieces, outlineNames, outlineNames_append,
        patsOutline_eq, outlineNames_flatMap, List.flatMap_map]
  | stmt s =>
    cases s with
    | guarded body handler finalizer =>
      cases handler <;>
        simp [outline, pieces, ownIdents, stmtOutline, stmtPieces, handlerOutline, handlerPieces,
          blockScope, Outline.names, outlineNames, outlineNames_append, stmtsOutline_eq,
          optionStmtOutline_eq, outlineNames_flatMap, List.flatMap_map]
    | _ =>
      simp [outline, pieces, ownIdents, stmtOutline, stmtPieces, functionScope, blockScope,
        Outline.names, outlineNames, outlineNames_append, patsOutline_eq, stmtsOutline_eq,
        membersOutline_eq, optionExprOutline_eq, optionStmtOutline_eq, declaratorsOutline_eq,
        casesOutline_eq, headOutline_eq, outlineNames_flatMap, List.flatMap_map]
  | member m =>
    cases m <;>
      simp [outline, pieces, ownIdents, memberOutline, memberPieces, functionScope, blockScope,
        Outline.names, outlineNames, outlineNames_append, patsOutline_eq, stmtsOutline_eq,
        optionExprOutline_eq, outlineNames_flatMap, List.flatMap_map]

end Snippet

end TemplateCompiler.Resolve

namespace TemplateCompiler.Script

open Text Reader Resolve

namespace Excerpt

variable {x : Excerpt} {lo hi : Nat}

/-! ## Spans in their text -/

theorem Spans.placed {span : Span} (h : x.Spans lo hi span) : Placed x.text x.pos span :=
  h.start.placed h.stop h.le

/-- What lies between the start of a token and the end of another one has no white space at its
ends. -/
theorem Begins.trimmed {p q : Nat} (hp : x.Begins p) (hq : x.Ends q) (hlt : p < q) :
    ∃ body, StandsAt x.text x.pos ⟨p, q⟩ body ∧ Trimmed body := by
  obtain ⟨body, before, after, htext, hbefore, hbody⟩ := hp.mark.placed hq.mark (Nat.le_of_lt hlt)
  refine ⟨body, ⟨before, after, htext, hbefore, hbody⟩, ?_⟩
  have hbefore : p = x.pos + byteLength before := hbefore
  have hbody : q = p + byteLength body := hbody
  have hne : body ≠ [] := by
    rintro rfl
    exact Nat.ne_of_gt hlt hbody
  -- The text is cut at the same two offsets, so the ends are characters of tokens.
  refine ⟨hne, fun c hc => ?_, fun c hc => ?_⟩
  · obtain ⟨c', t, ⟨read, hread, hstart⟩, hc'⟩ := hp
    rw [List.append_assoc] at htext
    obtain ⟨-, hcut⟩ := append_inj_of_byteLength (htext.symm.trans hread) (by omega)
    obtain ⟨rest, rfl⟩ : ∃ rest, body = c :: rest := List.head?_eq_some_iff.1 hc
    cases hcut
    exact hc'
  · obtain ⟨read, t, hread, hstop, init, c', hsolid, hc'⟩ := hq
    obtain ⟨hcut, -⟩ := append_inj_of_byteLength (htext.symm.trans hread)
      (by rw [byteLength_append]; omega)
    have hlast : (before ++ body).getLast? = some c' := by
      rw [hcut, hsolid, List.getLast?_concat]
    rw [List.getLast?_append_of_ne_nil _ hne, hc] at hlast
    cases hlast
    exact hc'

/-- The names that resolution looks at in a row of code stand between its ends. -/
theorem Laid.outlineNames {ss : List Snippet} (h : x.Laid lo hi ss) :
    ∀ s ∈ ss, ∀ id ∈ outlineNames s.outline, x.Spans lo hi id.span := by
  induction h with
  | nil => exact List.forall_mem_nil _
  | ident spans lt rest ih =>
    refine List.forall_mem_cons.2 ⟨List.forall_mem_nil _, fun s hs id hid => ?_⟩
    exact (ih s hs id hid).mono (Nat.le_trans spans.lo_le spans.le) (Nat.le_refl _)
  | @cons _ _ _ _ s _ hle fits spans inner rest ihi ihr =>
    refine List.forall_mem_cons.2 ⟨fun id hid => ?_, fun s' hs' id hid => ?_⟩
    -- What a piece mentions is a name in its row, or something in its row mentions it.
    · rcases List.mem_append.1 (s.outlineNames_step hid) with hown | hpiece
      · have hname : .pat (.ident id) ∈ s.row := List.mem_append_left _ (List.mem_map_of_mem hown)
        exact (inner.mem hname).of_name.1.mono hle rest.le
      · obtain ⟨p, hp, hid⟩ := List.mem_flatMap.1 hpiece
        exact (ihi p (List.mem_append_right _ hp) id hid).mono hle rest.le
    · exact (ihr s' hs' id hid).mono (Nat.le_trans hle inner.le) (Nat.le_refl _)

theorem Laid.exprPlaced {e : Expr} (h : x.Laid lo hi [.expr e]) : ExprPlaced x.text x.pos e := by
  obtain ⟨hspans, htight⟩ := h.of_expr
  refine ⟨hspans.placed, fun id hid => ?_⟩
  have hname := htight.outlineNames (.expr e) (List.mem_singleton_self _) id hid
  exact ⟨hname.placed, hname.lo_le, hname.le_hi⟩

mutual

/-- The spans of an object literal lie where it does. -/
theorem Laid.literalSpans {lo hi : Nat} (e : Expr) (h : x.Laid lo hi [.expr e]) :
    ∀ span ∈ literalSpans e, x.Spans lo hi span := by
  have hspan := h.of_expr.1
  unfold Script.literalSpans
  split
  · rename_i span inner
    exact List.forall_mem_cons.2 ⟨hspan, Laid.literalSpans inner h.inner⟩
  · rename_i span props _
    exact List.forall_mem_cons.2 ⟨hspan, Laid.propertiesSpans props h.inner⟩
  · exact List.forall_mem_singleton.2 hspan
termination_by sizeOf e

theorem Laid.propertiesSpans {lo hi : Nat} (props : List Property)
    (h : x.Laid lo hi (props.map .prop)) : ∀ span ∈ propertiesSpans props, x.Spans lo hi span := by
  unfold Script.propertiesSpans
  split
  · exact List.forall_mem_nil _
  · rename_i p rest
    obtain ⟨mid, hp, hrest⟩ := h.of_cons
    refine List.forall_mem_append.2 ⟨fun span hspan => ?_, fun span hspan => ?_⟩
    · exact (Laid.propertySpans p hp span hspan).mono (Nat.le_refl _) hrest.le
    · exact (Laid.propertiesSpans rest hrest span hspan).mono hp.le (Nat.le_refl _)
termination_by sizeOf props

theorem Laid.propertySpans {lo hi : Nat} (p : Property) (h : x.Laid lo hi [.prop p]) :
    ∀ span ∈ propertySpans p, x.Spans lo hi span := by
  have hown := h.ownSpans
  unfold Script.propertySpans
  split
  -- A value and what is spread have spans of their own.
  case h_3 =>
    rename_i key value
    obtain ⟨mid, hkey, hvalue⟩ := Laid.of_cons h.inner
    have hvalue : x.Laid lo hi [.expr value] := hvalue.mono hkey.le (Nat.le_refl _)
    refine List.forall_mem_cons.2 ⟨hown _ (by simp [Snippet.ownSpans, Property.span]), ?_⟩
    exact List.forall_mem_cons.2 ⟨hown _ (by simp [Snippet.ownSpans]), Laid.literalSpans value hvalue⟩
  case h_7 =>
    refine List.forall_mem_cons.2 ⟨hown _ (by simp [Snippet.ownSpans, Property.span]), ?_⟩
    exact List.forall_mem_singleton.2 (Laid.of_expr h.inner).1
  all_goals exact hown
termination_by sizeOf p

end

/-- The items of a module stand in the text. -/
theorem ItemIn.itemPlaced {item : ModuleItem} (h : x.ItemIn lo hi item) (hlo : x.Begins lo)
    (hhi : x.Ends hi) (hlt : lo < hi) : itemSpan item = ⟨lo, hi⟩ ∧ ItemPlaced x.text x.pos item := by
  have hspan : itemSpan item = ⟨lo, hi⟩ := by
    cases item with
    | exportDecl | exportDefault => exact h.1
    | _ => exact h
  refine ⟨hspan, hspan ▸ hlo.trimmed hhi hlt, fun start hstart => ?_⟩
  rw [hspan]
  cases item with
  | exportDecl span declStart decl =>
    cases hstart
    obtain ⟨-, hmark, hle, hle'⟩ := h
    exact ⟨hmark.placed hhi.mark hle', hle⟩
  | exportDefault span value =>
    cases hstart
    have hvalue := h.2.of_expr.1
    exact ⟨hvalue.start.placed hhi.mark (Nat.le_trans hvalue.le hvalue.le_hi), hvalue.lo_le⟩
  | _ => cases hstart

/-- Items that follow each other are a module. -/
theorem Items.modulePlaced {items : List ModuleItem} (h : x.Items lo items) :
    (∀ item ∈ items, lo ≤ (itemSpan item).start ∧ ItemPlaced x.text x.pos item) ∧
      items.Pairwise fun a b => (itemSpan a).stop ≤ (itemSpan b).start := by
  induction items generalizing lo with
  | nil => exact ⟨List.forall_mem_nil _, .nil⟩
  | cons item items ih =>
    obtain ⟨start, stop, hle, hlt, hbegins, hends, hitem, hitems⟩ := h
    obtain ⟨hplaced, hordered⟩ := ih hitems
    obtain ⟨hspan, hitem⟩ := hitem.itemPlaced hbegins hends hlt
    refine ⟨List.forall_mem_cons.2 ⟨⟨by rw [hspan]; exact hle, hitem⟩, fun i hi => ?_⟩, ?_⟩
    · exact ⟨by have := (hplaced i hi).1; omega, (hplaced i hi).2⟩
    · refine List.pairwise_cons.2 ⟨fun i hi => ?_, hordered⟩
      rw [hspan]
      exact (hplaced i hi).1

/-- What a failure may be reported at in items that follow each other is a span of the text. -/
theorem Items.reportedSpans {items : List ModuleItem} (h : x.Items lo items) :
    ∀ span ∈ reportedSpans ⟨items⟩, Placed x.text x.pos span := by
  induction items generalizing lo with
  | nil => exact List.forall_mem_nil _
  | cons item items ih =>
    obtain ⟨start, stop, -, hlt, hbegins, hends, hitem, hitems⟩ := h
    refine List.forall_mem_append.2 ⟨?_, ih hitems⟩
    have hspan : Placed x.text x.pos (itemSpan item) := by
      obtain ⟨body, hbody, -⟩ := (hitem.itemPlaced hbegins hends hlt).2.span
      exact ⟨body, hbody⟩
    cases item with
    | exportDefault span value =>
      refine List.forall_mem_cons.2 ⟨hspan, fun span hspan => ?_⟩
      exact (Laid.literalSpans value hitem.2 span hspan).placed
    | _ => exact List.forall_mem_singleton.2 hspan

/-! ## Readers at the start of a text -/

/-- A reader that runs on what an excerpt still has is ready for it. -/
theorem run_gives {α : Type} {goal : Goal} {p : Nat} {t : Text} {r : Reader α} {Q : α → Prop}
    (ht : x.GoesOn p t) (h : ∀ s, x.Ready s → s.lastStop = p → Gives s r fun a _ => Q a) :
    ∀ a, run goal p t r = some a → Q a := by
  intro a ha
  obtain ⟨first, hfirst, ha⟩ := Option.bind_eq_some_iff.1 ha
  obtain ⟨⟨b, s'⟩, hb, heq⟩ := Option.bind_eq_some_iff.1 ha
  cases heq
  obtain ⟨hstands, hle⟩ := stands_of_scan ht hfirst
  exact h _ ⟨ht.mark, hle, hstands⟩ rfl a s' hb

theorem goesOn_text : x.GoesOn x.pos x.text := ⟨[], rfl, rfl⟩

/-- An expression that is read from an excerpt lies in it. -/
theorem laid_of_readExpression {e : Expr} (h : readExpression x.text x.pos = some e) :
    ∃ lo hi, x.Laid lo hi [.expr e] := by
  refine run_gives (Q := fun e => ∃ lo hi, x.Laid lo hi [.expr e]) goesOn_text (fun s hs _ => ?_) e h
  exact hs.along.read (expression_lays (level_laysOut _)) fun e s₁ h₁ => ⟨_, _, h₁.laid⟩

/-- The interpreter's line is a line of the text. -/
theorem skipInterpreterLine_suffix (t : Text) : skipInterpreterLine t <:+ t := by
  unfold skipInterpreterLine
  split
  · exact ((List.dropWhile_suffix _).trans (List.suffix_cons _ _)).trans (List.suffix_cons _ _)
  · exact List.suffix_refl _

/-- The items of a module that is read from an excerpt follow each other in it. -/
theorem items_of_readModule {m : Module} (h : readModule x.text x.pos = some m) :
    ∃ lo, x.Items lo m.items := by
  obtain ⟨items, hitems, heq⟩ := Option.bind_eq_some_iff.1 h
  cases heq
  -- The items start behind the interpreter's line, if there is one.
  obtain ⟨line, hline⟩ := skipInterpreterLine_suffix x.text
  have hon : x.GoesOn (x.pos + (byteLength x.text - byteLength (skipInterpreterLine x.text)))
      (skipInterpreterLine x.text) := by
    refine ⟨line, hline.symm, ?_⟩
    have := congrArg byteLength hline
    rw [byteLength_append] at this
    omega
  refine run_gives (Q := fun items => ∃ lo, x.Items lo items) hon (fun s hs _ => ?_) items hitems
  exact (moduleItems_gives (level_laysOut _) hs).mono fun items _ h => ⟨_, h⟩

end Excerpt

/-! ## The grammar of scripts -/

theorem Grammar.standard_sound : Grammar.standard.Sound := by
  constructor
  · intro text pos e he
    obtain ⟨lo, hi, hlaid⟩ := Excerpt.laid_of_readExpression (x := ⟨text, pos⟩) he
    exact hlaid.exprPlaced
  · intro text pos m hm
    obtain ⟨lo, hitems⟩ := Excerpt.items_of_readModule (x := ⟨text, pos⟩) hm
    obtain ⟨hitems, hordered⟩ := hitems.modulePlaced
    exact ⟨fun item hitem => (hitems item hitem).2, hordered⟩

theorem Grammar.standard_placesSpans : Grammar.standard.PlacesSpans := by
  constructor
  · intro text pos e he
    obtain ⟨lo, hi, hlaid⟩ := Excerpt.laid_of_readExpression (x := ⟨text, pos⟩) he
    exact hlaid.exprPlaced.span
  · intro text pos m hm
    obtain ⟨lo, hitems⟩ := Excerpt.items_of_readModule (x := ⟨text, pos⟩) hm
    exact hitems.reportedSpans

end TemplateCompiler.Script
