import TemplateCompiler.Proofs.Template.Expressions

/-!
# The script stands apart from the expressions

A script is read at the top level only, between two nodes, so each expression of the template is read
before the script or after it.

## What this module delivers

* `ReadsNodes.found_eq`: no script or style is found inside of an element or block.
* `ScriptApart`: a script with the expressions read before it and after it.
* `readTemplate_scriptApart`: the script of a template that is read stands apart.
-/

set_option autoImplicit false

namespace TemplateCompiler

open Script

variable {g : Grammar} {source : Text}

/-! ## Inside of elements and blocks -/

mutual

/-- Inside of an element or block no script or style is found. -/
theorem ReadsNodes.found_eq {depth : Nat} {found : Found} {c : Cursor} {r : Children} :
    ReadsNodes g depth found c r → depth ≠ 0 → r.found = found
  | .stop _, _ => rfl
  | .text _ hrest, hd | .tag _ hrest, hd | .single _ _ _ hrest, hd => hrest.found_eq hd
  | .opensIf _ hblock hrest, hd => (hrest.found_eq hd).trans hblock.found_eq
  | .opensEach _ hbody _ hrest, hd | .element _ _ _ hbody _ hrest, hd =>
    (hrest.found_eq hd).trans (hbody.found_eq (Nat.succ_ne_zero _))
  | .raw .., hd => absurd rfl hd

/-- Inside of a conditional block no script or style is found. -/
theorem ReadsIf.found_eq {depth start : Nat} {test : Expr} {found found' : Found}
    {c after : Cursor} {node : Node} :
    ReadsIf g depth test start found c node found' after → found' = found
  | .plain hbody _ => hbody.found_eq (Nat.succ_ne_zero _)
  | .alternative hbody _ hother _ =>
    (hother.found_eq (Nat.succ_ne_zero _)).trans (hbody.found_eq (Nat.succ_ne_zero _))
  | .alternativeIf hbody _ hnested => hnested.found_eq.trans (hbody.found_eq (Nat.succ_ne_zero _))

end

/-! ## At the top level -/

/-- Expressions read between two offsets, with a script between two of them. -/
structure ScriptApart (g : Grammar) (source : Text) (block : ScriptBlock) (lo hi : Nat)
    (es : List Expr) : Prop where
  split : ∃ pre post stop start, es = pre ++ post ∧ ExprsRead g source lo stop pre ∧
    stop ≤ block.span.start ∧ block.span.stop ≤ start ∧ ExprsRead g source start hi post

theorem ScriptApart.before {block : ScriptBlock} {lo mid hi : Nat} {es es' : List Expr}
    (h : ScriptApart g source block mid hi es') (hes : ExprsRead g source lo mid es) :
    ScriptApart g source block lo hi (es ++ es') := by
  obtain ⟨pre, post, stop, start, rfl, hpre, hstop, hstart, hpost⟩ := h.split
  exact ⟨es ++ pre, post, stop, start, (List.append_assoc ..).symm, hes.append hpre, hstop, hstart,
    hpost⟩

/-- The script that a raw block leaves is the one found before it, or is what it holds. -/
theorem rawBlock_span {name : Text} {start : Nat} {selfClosing : Bool} {found found' : Found}
    {c after : Cursor} (h : rawBlock g name start selfClosing found c = .ok (found', after))
    {block : ScriptBlock} (hblock : found'.script = some block) :
    found.script = some block ∨ c.pos ≤ block.span.start ∧ block.span.stop ≤ after.pos := by
  obtain ⟨⟨content, after'⟩, hcontent, h⟩ := bind_eq_ok_iff.1 h
  obtain ⟨closing, hlead⟩ := rawContent_leads hcontent
  dsimp only at h
  split at h
  · split at h
    · cases h
    · cases h
      exact Or.inl hblock
  · split at h
    · cases h
    · split at h
      · cases h
      · cases h
        cases hblock
        have hpos := hlead.2
        rw [Text.byteLength_append] at hpos
        exact Or.inr ⟨Nat.le_refl _, by simp only []; omega⟩

/-- A script that is found with the nodes at the top level stands between their expressions. -/
theorem ReadsNodes.scriptApart {depth : Nat} {found : Found} {c : Cursor} {r : Children}
    (scope : Scope) {block : ScriptBlock} :
    ReadsNodes g depth found c r → c.Within source → r.found.script = some block →
      found.script = some block ∨ ScriptApart g source block c.pos r.stopStart
        ((scopedExpressions scope r.nodes).map ScopedExpr.expr)
  | .stop _, _, hblock => Or.inl hblock
  | .text h hrest, hc, hblock => by
    obtain ⟨read, hread, -⟩ := nextPiece_leads h
    refine (hrest.scriptApart scope (hc.of_leads hread) hblock).imp_right fun hapart => ?_
    exact hapart.before (.nil hread.pos_le)
  | .tag h hrest, hc, hblock => by
    obtain ⟨read, hread, -⟩ := nextPiece_leads h
    refine (hrest.scriptApart scope (hc.of_leads hread) hblock).imp_right fun hapart => ?_
    exact hapart.before (nextPiece_exprs h hc)
  | .opensIf h hnode hrest, hc, hblock => by
    obtain ⟨read, hread, -⟩ := nextPiece_leads h
    have hheader := hc.of_leads hread
    obtain ⟨inner, hlead⟩ := hnode.leads
    have hexprs := hnode.exprs scope hheader (nextPiece_exprs h hc)
    rw [← hnode.found_eq, Children.cons, scopedExpressions, List.map_append]
    refine (hrest.scriptApart scope (hheader.of_leads hlead) hblock).imp_right fun hapart => ?_
    exact hapart.before hexprs
  | .opensEach h hbody _ hrest, hc, hblock => by
    rename_i item index _ _ _
    obtain ⟨read, hread, -⟩ := nextPiece_leads h
    have hheader := hc.of_leads hread
    obtain ⟨inner, hlead⟩ := hbody.leads
    have hitems := (hbody.exprs (scope.push (itemNames item index)) hheader).mono (Nat.le_refl _)
      hbody.stopStart_le
    rw [← hbody.found_eq (Nat.succ_ne_zero _), Children.cons, scopedExpressions, List.map_append]
    refine (hrest.scriptApart scope (hheader.of_leads hlead) hblock).imp_right fun hapart => ?_
    exact hapart.before ((nextPiece_exprs h hc).append hitems)
  | .raw h _ hraw hrest, hc, hblock => by
    obtain ⟨read, hread, -⟩ := nextPiece_leads h
    obtain ⟨inner, hlead⟩ := rawBlock_leads hraw
    have hafter := hc.of_leads (hread.trans hlead)
    rcases hrest.scriptApart scope hafter hblock with hfound | hapart
    · refine (rawBlock_span hraw hfound).imp_right fun hspan => ?_
      -- Nothing is read before the script, and the rest after it.
      exact ⟨[], _, _, _, rfl, .nil hread.pos_le, hspan.1, hspan.2, hrest.exprs scope hafter⟩
    · exact Or.inr (hapart.before (.nil (hread.trans hlead).pos_le))
  | .single h _ _ hrest, hc, hblock => by
    obtain ⟨read, hread, -⟩ := nextPiece_leads h
    rw [Children.cons, scopedExpressions, List.map_append, nodeExpressions, scopedExpressions,
      ite_self, List.append_nil, scopedExpr_mk_expr]
    refine (hrest.scriptApart scope (hc.of_leads hread) hblock).imp_right fun hapart => ?_
    exact hapart.before (nextPiece_exprs h hc)
  | .element h _ hsingle hbody _ hrest, hc, hblock => by
    obtain ⟨read, hread, -⟩ := nextPiece_leads h
    have htag := hc.of_leads hread
    obtain ⟨inner, hlead⟩ := hbody.leads
    have hvoid := (Bool.or_eq_false_iff.1 hsingle).2
    have hchildren := (hbody.exprs scope htag).mono (Nat.le_refl _) hbody.stopStart_le
    rw [← hbody.found_eq (Nat.succ_ne_zero _), Children.cons, scopedExpressions, List.map_append,
      nodeExpressions, hvoid, if_neg Bool.false_ne_true, List.map_append, scopedExpr_mk_expr]
    refine (hrest.scriptApart scope (htag.of_leads hlead) hblock).imp_right fun hapart => ?_
    exact hapart.before ((nextPiece_exprs h hc).append hchildren)

/-- The script of a template that is read stands between its expressions. -/
theorem readTemplate_scriptApart {t : Template} (h : readTemplate g source = .ok t)
    {block : ScriptBlock} (hblock : t.script = some block) (scope : Scope) :
    ∃ hi, ScriptApart g source block 0 hi
      ((scopedExpressions scope t.nodes).map ScopedExpr.expr) := by
  obtain ⟨r, hr, -, rfl⟩ := readTemplate_reads h
  rcases hr.scriptApart scope (Cursor.within_start source) hblock with hnone | hapart
  · cases hnone
  · exact ⟨_, hapart⟩

end TemplateCompiler
