import TemplateCompiler.Proofs.Render.Slices
import TemplateCompiler.Proofs.Template.Moved

/-!
# The code of moved nodes

The code of a node refers to the source by ranges, and takes everything else from the node itself.
Where the node stands further on, only the ranges in its code change, and so do the expressions that
are to be resolved for it.

## What this module delivers

* `Fragment.shift`, `Code.shift`, `ScopedExpr.shift`: code and expressions moved by some bytes.
* `nodeCode_shift`, `renderBlocks_shift`: the code of moved nodes.
* `nodeExpressions_shift`, `scopedExpressions_shift`: the expressions of moved nodes.
-/

set_option autoImplicit false

namespace TemplateCompiler

open Script

/-- A fragment whose range is moved by some bytes. -/
def Fragment.shift (k : Nat) : Fragment → Fragment
  | .text t => .text t
  | .slice range => .slice (range.shift k)

/-- Code whose ranges are moved by some bytes. -/
def Code.shift (k : Nat) : Code → Code
  | .expression fragments => .expression (fragments.map (Fragment.shift k))
  | .literal fragments => .literal (fragments.map (Fragment.shift k))

/-- An expression moved by some bytes, in its scope. -/
def ScopedExpr.shift (k : Nat) (e : ScopedExpr) : ScopedExpr := ⟨e.scope, e.expr.shift k⟩

section

variable (k : Nat)

@[simp] theorem Fragment.shift_text (t : Text) : (Fragment.text t).shift k = .text t := rfl

@[simp] theorem Fragment.shift_slice (range : Span) :
    (Fragment.slice range).shift k = .slice (range.shift k) := rfl

@[simp] theorem Code.shift_expression (fragments : List Fragment) :
    (Code.expression fragments).shift k = .expression (fragments.map (Fragment.shift k)) := rfl

@[simp] theorem Code.shift_literal (fragments : List Fragment) :
    (Code.literal fragments).shift k = .literal (fragments.map (Fragment.shift k)) := rfl

theorem hole_shift (fragments : List Fragment) :
    hole (fragments.map (Fragment.shift k)) = (hole fragments).map (Fragment.shift k) := by
  simp [hole]

theorem templateLiteral_shift (fragments : List Fragment) :
    templateLiteral (fragments.map (Fragment.shift k)) =
      (templateLiteral fragments).map (Fragment.shift k) := by
  simp [templateLiteral]

@[simp] theorem Code.inLiteral_shift (code : Code) :
    (code.shift k).inLiteral = code.inLiteral.map (Fragment.shift k) := by
  cases code with
  | expression fragments => exact hole_shift k fragments
  | literal fragments => rfl

@[simp] theorem Code.asExpression_shift (code : Code) :
    (code.shift k).asExpression = code.asExpression.map (Fragment.shift k) := by
  cases code with
  | expression fragments => rfl
  | literal fragments => exact templateLiteral_shift k fragments

/-! ## Expressions and attributes -/

theorem needsParens_shift (e : Expr) : needsParens (e.shift k) = needsParens e := by
  cases e <;> rfl

theorem isMemberSafe_shift (e : Expr) : isMemberSafe (e.shift k) = isMemberSafe e := by
  cases e <;> rfl

@[simp] theorem exprCode_shift (e : Expr) :
    exprCode (e.shift k) = (exprCode e).map (Fragment.shift k) := by
  rw [exprCode, exprCode, needsParens_shift, Expr.span_shift]
  split <;> rfl

@[simp] theorem iterableCode_shift (e : Expr) :
    iterableCode (e.shift k) = (iterableCode e).map (Fragment.shift k) := by
  rw [iterableCode, iterableCode, isMemberSafe_shift, Expr.span_shift]
  split <;> rfl

theorem partCode_carry (escape : Text → Text) (p : AttributePart) :
    partCode escape (p.carry (Expr.shift k)) = (partCode escape p).map (Fragment.shift k) := by
  cases p with
  | text data => rfl
  | expr e =>
    rw [AttributePart.carry, partCode, exprCode_shift, hole_shift]
    rfl

theorem flatMap_partCode_carry (escape : Text → Text) (parts : List AttributePart) :
    (parts.map (AttributePart.carry (Expr.shift k))).flatMap (partCode escape) =
      (parts.flatMap (partCode escape)).map (Fragment.shift k) := by
  rw [List.flatMap_map, List.map_flatMap]
  simp only [partCode_carry]

theorem attributeCode_carry (a : Attribute) :
    attributeCode (a.carry k (Expr.shift k)) = (attributeCode a).map (Fragment.shift k) := by
  unfold attributeCode Attribute.carry
  cases a.value with
  | none => rfl
  | some parts => simp [flatMap_partCode_carry]

theorem propValueCode_carry (value : Option (List AttributePart)) :
    propValueCode (value.map (List.map (AttributePart.carry (Expr.shift k)))) =
      (propValueCode value).map (Fragment.shift k) := by
  have htext : ∀ parts : List AttributePart,
      templateLiteral ((parts.map (AttributePart.carry (Expr.shift k))).flatMap
          (partCode escapeLiteral)) =
        (templateLiteral (parts.flatMap (partCode escapeLiteral))).map (Fragment.shift k) := by
    intro parts
    rw [flatMap_partCode_carry, templateLiteral_shift]
  -- Only a single expression is passed as it is.
  rcases value with - | (- | ⟨data | e, - | ⟨p, parts⟩⟩)
  · rfl
  · exact htext []
  · exact htext [.text data]
  · exact htext (.text data :: p :: parts)
  · exact exprCode_shift k e
  · exact htext (.expr e :: p :: parts)

theorem propsCode_carry (separator : Text) (attributes : List Attribute) :
    propsCode separator (attributes.map (Attribute.carry k (Expr.shift k))) =
      (propsCode separator attributes).map (Fragment.shift k) := by
  induction attributes generalizing separator with
  | nil => rfl
  | cons a rest ih => simp [propsCode, Attribute.carry, propValueCode_carry, ← ih]

theorem componentCode_carry (name : Text) (attributes : List Attribute) :
    componentCode name (attributes.map (Attribute.carry k (Expr.shift k))) =
      (componentCode name attributes).map (Fragment.shift k) := by
  cases attributes with
  | nil => rfl
  | cons a rest =>
    have hobject : propsObject ((a :: rest).map (Attribute.carry k (Expr.shift k))) =
        (propsObject (a :: rest)).map (Fragment.shift k) := by
      rw [propsObject, propsCode_carry]
      simp [propsObject]
    rw [componentCode, hobject]
    simp [componentCode]

theorem tagCode_carry (name : Text) (attributes : List Attribute) :
    tagCode name (attributes.map (Attribute.carry k (Expr.shift k))) =
      (tagCode name attributes).map (Fragment.shift k) := by
  rw [tagCode, tagCode, List.flatMap_map, List.map_cons, List.map_flatMap]
  simp only [attributeCode_carry, Fragment.shift_text]

theorem itemParams_shift (item : BlockBinding) (index : Option BlockBinding) :
    itemParams (item.shift k) (index.map (BlockBinding.shift k)) = itemParams item index := by
  cases index <;> rfl

theorem itemNames_shift (item : BlockBinding) (index : Option BlockBinding) :
    itemNames (item.shift k) (index.map (BlockBinding.shift k)) = itemNames item index := by
  cases index <;> rfl

/-! ## Nodes -/

variable {config : Config}

mutual

/-- The code of a moved node is the code of the node, with its ranges moved. -/
theorem nodeCode_shift {code : Code} : (n : Node) → nodeCode config n = .ok code →
    nodeCode config (n.shift k) = .ok (code.shift k)
  | .element name attributes children span, h => by
    rw [Node.shift, Node.carry]
    unfold nodeCode at h ⊢
    split at h
    · rename_i hcomponent
      rw [if_pos hcomponent]
      split at h
      · cases h
        simp only [nodesCarry, componentCode_carry]
        rfl
      · cases h
    · rename_i hcomponent
      rw [if_neg hcomponent]
      split at h
      · rename_i hvoid
        cases h
        rw [if_pos hvoid, tagCode_carry]
        simp
      · rename_i hvoid
        rw [if_neg hvoid]
        split at h
        · cases h
          simp [nodesCarry, tagCode_carry]
        · rename_i child more
          obtain ⟨first, hfirst, h⟩ := bind_eq_ok_iff.1 h
          obtain ⟨rest, hrest, h⟩ := bind_eq_ok_iff.1 h
          cases h
          simp only [nodesCarry]
          refine bind_eq_ok_iff.2 ⟨_, nodeCode_shift child hfirst,
            bind_eq_ok_iff.2 ⟨_, nodesCode_shift more hrest, ?_⟩⟩
          simp [tagCode_carry, pure, Except.pure]
  | .text data _, h => by
    rw [nodeCode] at h
    cases h
    rfl
  | .mustache e _, h => by
    rw [nodeCode] at h
    cases h
    rw [Node.shift, Node.carry, nodeCode, exprCode_shift]
    rfl
  | .ifBlock test children alternative _, h => by
    rw [nodeCode] at h
    obtain ⟨yes, hyes, h⟩ := bind_eq_ok_iff.1 h
    obtain ⟨no, hno, h⟩ := bind_eq_ok_iff.1 h
    cases h
    rw [Node.shift, Node.carry, nodeCode]
    refine bind_eq_ok_iff.2 ⟨_, nodesCode_shift children hyes,
      bind_eq_ok_iff.2 ⟨_, alternativeCode_shift alternative hno, ?_⟩⟩
    simp [Expr.span_shift, pure, Except.pure]
  | .eachBlock iterable item index children _, h => by
    rw [nodeCode] at h
    obtain ⟨body, hbody, h⟩ := bind_eq_ok_iff.1 h
    cases h
    rw [Node.shift, Node.carry, nodeCode, itemParams_shift]
    refine bind_eq_ok_iff.2 ⟨_, nodesCode_shift children hbody, ?_⟩
    simp [pure, Except.pure]

theorem nodesCode_shift {fragments : List Fragment} : (nodes : List Node) →
    nodesCode config nodes = .ok fragments →
      nodesCode config (nodesCarry k (Expr.shift k) nodes) =
        .ok (fragments.map (Fragment.shift k))
  | [], h => by
    rw [nodesCode] at h
    cases h
    rw [nodesCarry, nodesCode]
    rfl
  | n :: rest, h => by
    rw [nodesCode] at h
    obtain ⟨code, hcode, h⟩ := bind_eq_ok_iff.1 h
    obtain ⟨more, hmore, h⟩ := bind_eq_ok_iff.1 h
    cases h
    rw [nodesCarry, nodesCode]
    refine bind_eq_ok_iff.2 ⟨_, nodeCode_shift n hcode,
      bind_eq_ok_iff.2 ⟨_, nodesCode_shift rest hmore, ?_⟩⟩
    rw [Code.inLiteral_shift, List.map_append]
    rfl

theorem alternativeCode_shift {fragments : List Fragment} : (alternative : Option (List Node)) →
    alternativeCode config alternative = .ok fragments →
      alternativeCode config (alternativeCarry k (Expr.shift k) alternative) =
        .ok (fragments.map (Fragment.shift k))
  | none, h => by
    rw [alternativeCode] at h
    cases h
    rw [alternativeCarry, alternativeCode]
    rfl
  | some nodes, h => by
    rw [alternativeCarry, alternativeCode]
    exact nodesCode_shift nodes h

end

/-- The statements for moved nodes are those for the nodes, with their ranges moved. -/
theorem renderBlocks_shift {nodes : List Node} {blocks : List (List Fragment)}
    (h : renderBlocks config nodes = .ok blocks) :
    renderBlocks config (nodes.map (Node.shift k)) =
      .ok (blocks.map (List.map (Fragment.shift k))) := by
  induction nodes generalizing blocks with
  | nil =>
    cases h
    rfl
  | cons n rest ih =>
    rw [renderBlocks, List.mapM_cons] at h
    obtain ⟨block, hblock, h⟩ := bind_eq_ok_iff.1 h
    obtain ⟨more, hmore, h⟩ := bind_eq_ok_iff.1 h
    obtain ⟨code, hcode, hblock⟩ := bind_eq_ok_iff.1 hblock
    cases h
    cases hblock
    rw [List.map_cons, renderBlocks, List.mapM_cons]
    refine bind_eq_ok_iff.2 ⟨_, bind_eq_ok_iff.2 ⟨_, nodeCode_shift k n hcode, rfl⟩,
      bind_eq_ok_iff.2 ⟨_, ih hmore, ?_⟩⟩
    simp [pure, Except.pure]

/-! ## Expressions -/

theorem attributeExpressions_carry (a : Attribute) :
    attributeExpressions (a.carry k (Expr.shift k)) =
      (attributeExpressions a).map (Expr.shift k) := by
  unfold attributeExpressions Attribute.carry
  cases a.value with
  | none => rfl
  | some parts =>
    simp only [Option.map_some, Option.getD_some]
    induction parts with
    | nil => rfl
    | cons p parts ih => cases p <;> simp [AttributePart.carry, ih]

theorem flatMap_attributeExpressions_carry (scope : Scope) (attributes : List Attribute) :
    ((attributes.map (Attribute.carry k (Expr.shift k))).flatMap attributeExpressions).map
        (ScopedExpr.mk scope) =
      ((attributes.flatMap attributeExpressions).map (ScopedExpr.mk scope)).map
        (ScopedExpr.shift k) := by
  rw [List.flatMap_map, List.map_flatMap, List.map_map, List.map_flatMap]
  simp only [attributeExpressions_carry, List.map_map]
  rfl

mutual

/-- The expressions of a moved node are those of the node, moved. -/
theorem nodeExpressions_shift (scope : Scope) : (n : Node) →
    nodeExpressions scope (n.shift k) = (nodeExpressions scope n).map (ScopedExpr.shift k)
  | .element name attributes children span => by
    rw [Node.shift, Node.carry, nodeExpressions, nodeExpressions,
      flatMap_attributeExpressions_carry, nodesExpressions_shift scope children, List.map_append]
    split <;> rfl
  | .text _ _ => rfl
  | .mustache _ _ => rfl
  | .ifBlock test children alternative _ => by
    rw [Node.shift, Node.carry, nodeExpressions, nodeExpressions,
      nodesExpressions_shift scope children, alternativeExpressions_shift scope alternative]
    simp [ScopedExpr.shift]
  | .eachBlock iterable item index children _ => by
    rw [Node.shift, Node.carry, nodeExpressions, nodeExpressions, itemNames_shift,
      nodesExpressions_shift _ children]
    rfl

theorem nodesExpressions_shift (scope : Scope) : (nodes : List Node) →
    scopedExpressions scope (nodesCarry k (Expr.shift k) nodes) =
      (scopedExpressions scope nodes).map (ScopedExpr.shift k)
  | [] => by
    rw [nodesCarry, scopedExpressions]
    rfl
  | n :: rest => by
    have hn := nodeExpressions_shift scope n
    rw [Node.shift] at hn
    rw [nodesCarry, scopedExpressions, scopedExpressions, hn, nodesExpressions_shift scope rest,
      List.map_append]

theorem alternativeExpressions_shift (scope : Scope) : (alternative : Option (List Node)) →
    alternativeExpressions scope (alternativeCarry k (Expr.shift k) alternative) =
      (alternativeExpressions scope alternative).map (ScopedExpr.shift k)
  | none => by
    rw [alternativeCarry, alternativeExpressions]
    rfl
  | some nodes => by
    rw [alternativeCarry, alternativeExpressions, alternativeExpressions]
    exact nodesExpressions_shift scope nodes

end

theorem scopedExpressions_append (scope : Scope) (nodes more : List Node) :
    scopedExpressions scope (nodes ++ more) =
      scopedExpressions scope nodes ++ scopedExpressions scope more := by
  induction nodes with
  | nil => rfl
  | cons n rest ih =>
    rw [List.cons_append, scopedExpressions, scopedExpressions, ih, List.append_assoc]

/-- The expressions of nodes that are moved. -/
theorem scopedExpressions_shift (scope : Scope) (nodes : List Node) :
    scopedExpressions scope (nodes.map (Node.shift k)) =
      (scopedExpressions scope nodes).map (ScopedExpr.shift k) := by
  rw [← nodesExpressions_shift, nodesCarry_eq_map]
  rfl

end

end TemplateCompiler
