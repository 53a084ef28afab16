import TemplateCompiler.Proofs.Outcome
import TemplateCompiler.Render.Block
import TemplateCompiler.Render.Reference

/-!
# The ranges of the source in generated code

The code of a node refers to the source for its expressions and for nothing else, and to each of them
once, in the order of the document.

## What this module delivers

* `spansOf`: the ranges that some fragments refer to.
* `nodeCode_spans`, `nodesCode_spans`: the ranges in the code of nodes.
* `renderBlocks_spans`: the ranges in the statements of the render function.
-/

set_option autoImplicit false

namespace TemplateCompiler

open Script

/-- The ranges of the source that some fragments refer to. -/
def spansOf (fragments : List Fragment) : List Span :=
  fragments.filterMap fun
    | .text _ => none
    | .slice range => some range

@[simp] theorem spansOf_nil : spansOf [] = [] := rfl

@[simp] theorem spansOf_text (t : Text) (rest : List Fragment) :
    spansOf (.text t :: rest) = spansOf rest := rfl

@[simp] theorem spansOf_slice (range : Span) (rest : List Fragment) :
    spansOf (.slice range :: rest) = range :: spansOf rest := rfl

@[simp] theorem spansOf_append (a b : List Fragment) :
    spansOf (a ++ b) = spansOf a ++ spansOf b :=
  List.filterMap_append

theorem spansOf_flatMap {α : Type} (f : α → List Fragment) (l : List α) :
    spansOf (l.flatMap f) = l.flatMap fun a => spansOf (f a) := by
  induction l with
  | nil => rfl
  | cons a l ih => rw [List.flatMap_cons, spansOf_append, ih, List.flatMap_cons]

/-! ## Expressions and attributes -/

@[simp] theorem spansOf_exprCode (e : Expr) : spansOf (exprCode e) = [e.span] := by
  unfold exprCode
  split
  · simp [inParens]
  · rfl

@[simp] theorem spansOf_iterableCode (e : Expr) : spansOf (iterableCode e) = [e.span] := by
  unfold iterableCode
  split
  · rfl
  · simp [inParens]

/-- The ranges of the expressions in the parts of a value. -/
def partSpans (parts : List AttributePart) : List Span :=
  parts.flatMap fun
    | .text _ => []
    | .expr e => [e.span]

theorem spansOf_partCode (escape : Text → Text) (parts : List AttributePart) :
    spansOf (parts.flatMap (partCode escape)) = partSpans parts := by
  rw [spansOf_flatMap, partSpans]
  congr 1
  funext part
  cases part with
  | text data => rfl
  | expr e => simp [partCode, hole]

theorem map_span_attributeExpressions (a : Attribute) :
    (attributeExpressions a).map Expr.span = partSpans (a.value.getD []) := by
  rw [attributeExpressions, partSpans]
  induction a.value.getD [] with
  | nil => rfl
  | cons part parts ih =>
    cases part with
    | text data => simpa using ih
    | expr e => simpa using ih

theorem spansOf_attributeCode (a : Attribute) :
    spansOf (attributeCode a) = (attributeExpressions a).map Expr.span := by
  rw [map_span_attributeExpressions, attributeCode]
  cases a.value with
  | none => rfl
  | some parts => simp [spansOf_partCode]

theorem spansOf_propValueCode (a : Attribute) :
    spansOf (propValueCode a.value) = (attributeExpressions a).map Expr.span := by
  rw [map_span_attributeExpressions]
  unfold propValueCode
  split
  · rename_i h
    rw [h]
    rfl
  · rename_i h
    rw [h]
    simp [partSpans]
  · rename_i h
    rw [h]
    simp [templateLiteral, spansOf_partCode]

theorem spansOf_propsCode (separator : Text) (attrs : List Attribute) :
    spansOf (propsCode separator attrs) = (attrs.flatMap attributeExpressions).map Expr.span := by
  induction attrs generalizing separator with
  | nil => rfl
  | cons a rest ih =>
    rw [propsCode, List.cons_append, spansOf_text, spansOf_append, spansOf_propValueCode, ih,
      List.flatMap_cons, List.map_append]

theorem spansOf_tagCode (name : Text) (attrs : List Attribute) :
    spansOf (tagCode name attrs) = (attrs.flatMap attributeExpressions).map Expr.span := by
  rw [tagCode, spansOf_text, spansOf_flatMap, List.map_flatMap]
  congr 1
  funext a
  exact spansOf_attributeCode a

theorem spansOf_componentCode (name : Text) (attrs : List Attribute) :
    spansOf (componentCode name attrs) = (attrs.flatMap attributeExpressions).map Expr.span := by
  cases attrs with
  | nil => rfl
  | cons a rest => simp [componentCode, propsObject, spansOf_propsCode]

/-! ## Nodes -/

/-- The range of an expression in its scope. -/
def ScopedExpr.span (e : ScopedExpr) : Span :=
  e.expr.span

@[simp] theorem map_span_scopedExpr_mk (scope : Scope) (es : List Expr) :
    (es.map (ScopedExpr.mk scope)).map ScopedExpr.span = es.map Expr.span := by
  rw [List.map_map]
  rfl

/-- The fragments of code. -/
def Code.fragments : Code → List Fragment
  | .expression fragments => fragments
  | .literal fragments => fragments

@[simp] theorem Code.fragments_expression (fragments : List Fragment) :
    (Code.expression fragments).fragments = fragments := rfl

@[simp] theorem Code.fragments_literal (fragments : List Fragment) :
    (Code.literal fragments).fragments = fragments := rfl

@[simp] theorem spansOf_inLiteral (code : Code) :
    spansOf code.inLiteral = spansOf code.fragments := by
  cases code with
  | expression fragments => simp [Code.inLiteral, hole]
  | literal fragments => rfl

@[simp] theorem spansOf_asExpression (code : Code) :
    spansOf code.asExpression = spansOf code.fragments := by
  cases code with
  | expression fragments => rfl
  | literal fragments => simp [Code.asExpression, templateLiteral]

mutual

/-- The code of a node refers to the expressions of the node, in order. -/
theorem nodeCode_spans {config : Config} {code : Code} (scope : Scope) :
    (n : Node) → nodeCode config n = .ok code →
      spansOf code.fragments = (nodeExpressions scope n).map ScopedExpr.span
  | .element name attrs children span, h => by
    unfold nodeCode at h
    rw [nodeExpressions, List.map_append, map_span_scopedExpr_mk]
    split at h
    · split at h
      · cases h
        rw [scopedExpressions, ite_self, List.map_nil, List.append_nil]
        exact spansOf_componentCode name attrs
      · cases h
    · split at h
      · rename_i hvoid
        cases h
        rw [if_pos hvoid, List.map_nil, List.append_nil]
        simp [spansOf_tagCode]
      · rename_i hvoid
        rw [if_neg hvoid]
        split at h
        · cases h
          simp [spansOf_tagCode, scopedExpressions]
        · rename_i child more
          obtain ⟨first, hfirst, h⟩ := bind_eq_ok_iff.1 h
          obtain ⟨rest, hrest, h⟩ := bind_eq_ok_iff.1 h
          cases h
          have hfirst := nodeCode_spans scope child hfirst
          have hrest := nodesCode_spans scope more hrest
          simp [spansOf_tagCode, scopedExpressions, hfirst, hrest]
  | .text data _, h => by
    rw [nodeCode] at h
    cases h
    rfl
  | .mustache e _, h => by
    rw [nodeCode] at h
    cases h
    exact spansOf_exprCode e
  | .ifBlock test children alternative _, h => by
    rw [nodeCode] at h
    obtain ⟨yes, hyes, h⟩ := bind_eq_ok_iff.1 h
    obtain ⟨no, hno, h⟩ := bind_eq_ok_iff.1 h
    cases h
    have hyes := nodesCode_spans scope children hyes
    have hno := alternativeCode_spans scope alternative hno
    simp [nodeExpressions, hyes, hno, ScopedExpr.span]
  | .eachBlock iterable item index children _, h => by
    rw [nodeCode] at h
    obtain ⟨body, hbody, h⟩ := bind_eq_ok_iff.1 h
    cases h
    have hbody := nodesCode_spans (scope.push (itemNames item index)) children hbody
    simp [nodeExpressions, hbody, ScopedExpr.span]

/-- The code of nodes refers to the expressions of the nodes, in order. -/
theorem nodesCode_spans {config : Config} {fragments : List Fragment} (scope : Scope) :
    (nodes : List Node) → nodesCode config nodes = .ok fragments →
      spansOf fragments = (scopedExpressions scope nodes).map ScopedExpr.span
  | [], h => by
    rw [nodesCode] at h
    cases h
    rfl
  | n :: rest, h => by
    rw [nodesCode] at h
    obtain ⟨code, hcode, h⟩ := bind_eq_ok_iff.1 h
    obtain ⟨more, hmore, h⟩ := bind_eq_ok_iff.1 h
    cases h
    rw [spansOf_append, spansOf_inLiteral, nodeCode_spans scope n hcode,
      nodesCode_spans scope rest hmore, scopedExpressions, List.map_append]

/-- The code of an alternative refers to the expressions of the alternative, in order. -/
theorem alternativeCode_spans {config : Config} {fragments : List Fragment} (scope : Scope) :
    (alternative : Option (List Node)) → alternativeCode config alternative = .ok fragments →
      spansOf fragments = (alternativeExpressions scope alternative).map ScopedExpr.span
  | none, h => by
    rw [alternativeCode] at h
    cases h
    rfl
  | some nodes, h => nodesCode_spans scope nodes h

end

/-- The statements of the render function refer to the expressions of the nodes, in order. -/
theorem renderBlocks_spans {config : Config} {nodes : List Node} {blocks : List (List Fragment)}
    (scope : Scope) (h : renderBlocks config nodes = .ok blocks) :
    blocks.flatMap spansOf = (scopedExpressions scope nodes).map ScopedExpr.span := by
  induction nodes generalizing blocks with
  | nil =>
    cases h
    rfl
  | cons n rest ih =>
    rw [renderBlocks, List.mapM_cons] at h
    obtain ⟨block, hblock, h⟩ := bind_eq_ok_iff.1 h
    obtain ⟨more, hmore, h⟩ := bind_eq_ok_iff.1 h
    obtain ⟨code, hcode, hblock⟩ := bind_eq_ok_iff.1 hblock
    cases h
    cases hblock
    rw [List.flatMap_cons, ih hmore, scopedExpressions, List.map_append,
      ← nodeCode_spans scope n hcode]
    simp

end TemplateCompiler
