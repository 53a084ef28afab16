import Mathlib.Data.List.Forall2
import TemplateCompiler.Proofs.Component.Confinement
import TemplateCompiler.Proofs.Render.Provenance
import TemplateCompiler.Proofs.Resolve.Scoping
import TemplateCompiler.Proofs.Template.Apart
import TemplateCompiler.Proofs.Template.Formed

/-!
# Every expression is emitted once, in its own scope

All the expressions of a template are resolved in one buffer, which the script has edited before. What
is emitted for one of them is what it would be alone: its references are inserted inside of its span,
and those of the others, like the edits of the script, are not.

## What this module delivers

* `Node.parts`, `Node.occurrences`: the expressions of a tree in document order, with the names bound
  around them.
* `slice_eq_alone`: the text of an expression does not depend on the other edits.
* `compileWith_emits_occurrences`: the segments of compiled code.
-/

set_option autoImplicit false

namespace TemplateCompiler

open Script

/-! ## The expressions of a tree -/

/-- A part of a node: an expression, or nodes with the names that are bound in them. -/
inductive NodePart where
  | expr (e : Expr)
  | body (bound : List Text) (nodes : List Node)

/-- The parts of a node in document order. An each block binds its names in its body only. -/
def Node.parts : Node → List NodePart
  | .element _ attributes children _ =>
    (attributes.flatMap attributeExpressions).map .expr ++ [.body [] children]
  | .text _ _ => []
  | .mustache e _ => [.expr e]
  | .ifBlock test children alternative _ =>
    [.expr test, .body [] children, .body [] (alternative.getD [])]
  | .eachBlock iterable item index children _ =>
    [.expr iterable, .body (itemNames item index) children]

section Bodies

variable {bound : List Text} {inner children : List Node} {span : Span}

theorem body_mem_element {name : Text} {attributes : List Attribute} :
    .body bound inner ∈ (Node.element name attributes children span).parts ↔
      bound = [] ∧ inner = children := by
  simp only [Node.parts, List.mem_append, List.mem_map, List.mem_singleton, reduceCtorEq, and_false,
    exists_false, false_or, NodePart.body.injEq]

theorem body_mem_ifBlock {test : Expr} {alternative : Option (List Node)} :
    .body bound inner ∈ (Node.ifBlock test children alternative span).parts ↔
      bound = [] ∧ (inner = children ∨ inner = alternative.getD []) := by
  simp only [Node.parts, List.mem_cons, reduceCtorEq, NodePart.body.injEq, List.not_mem_nil,
    or_false, false_or, and_or_left]

theorem body_mem_eachBlock {iterable : Expr} {item : BlockBinding} {index : Option BlockBinding} :
    .body bound inner ∈ (Node.eachBlock iterable item index children span).parts ↔
      bound = itemNames item index ∧ inner = children := by
  simp only [Node.parts, List.mem_cons, reduceCtorEq, NodePart.body.injEq, List.not_mem_nil,
    or_false, false_or]

end Bodies

/-- An expression with the names that the each blocks around it bind. -/
structure NodeOccurrence where
  names : List Text
  expr : Expr

theorem Node.sizeOf_lt_of_body {n m : Node} {bound : List Text} {nodes : List Node}
    (hp : .body bound nodes ∈ n.parts) (hm : m ∈ nodes) : sizeOf m < sizeOf n := by
  have hlt := List.sizeOf_lt_of_mem hm
  cases n with
  | element name attributes children span =>
    obtain ⟨-, rfl⟩ := body_mem_element.1 hp
    simp only [Node.element.sizeOf_spec]
    omega
  | text data span => cases hp
  | mustache e span => simp [parts] at hp
  | ifBlock test children alternative span =>
    obtain ⟨-, rfl | rfl⟩ := body_mem_ifBlock.1 hp
    · simp only [Node.ifBlock.sizeOf_spec]
      omega
    · cases alternative with
      | none => cases hm
      | some nodes =>
        simp only [Node.ifBlock.sizeOf_spec, Option.some.sizeOf_spec]
        simp only [Option.getD_some] at hlt
        omega
  | eachBlock iterable item index children span =>
    obtain ⟨-, rfl⟩ := body_mem_eachBlock.1 hp
    simp only [Node.eachBlock.sizeOf_spec]
    omega

/-- The expressions of a node in document order, under the names bound around the node. -/
def Node.occurrences (names : List Text) (n : Node) : List NodeOccurrence :=
  n.parts.attach.flatMap fun
    | ⟨.expr e, _⟩ => [⟨names, e⟩]
    | ⟨.body bound nodes, _⟩ =>
      nodes.attach.flatMap fun ⟨m, _⟩ => m.occurrences (bound ++ names)
termination_by sizeOf n
decreasing_by exact Node.sizeOf_lt_of_body (by assumption) (by assumption)

/-- The expressions of some nodes in document order. -/
def occurrencesOf (names : List Text) (nodes : List Node) : List NodeOccurrence :=
  nodes.flatMap (Node.occurrences names)

/-- The expressions of a part of a node. -/
def NodePart.occurrences (names : List Text) : NodePart → List NodeOccurrence
  | .expr e => [⟨names, e⟩]
  | .body bound nodes => occurrencesOf (bound ++ names) nodes

theorem Node.occurrences_eq (names : List Text) (n : Node) :
    n.occurrences names = n.parts.flatMap (NodePart.occurrences names) := by
  rw [Node.occurrences]
  conv_rhs => rw [← List.attach_map_subtype_val n.parts]
  rw [List.flatMap_map]
  congr 1
  funext ⟨p, hp⟩
  cases p with
  | expr e => rfl
  | body bound nodes => simp [NodePart.occurrences, occurrencesOf]

/-! ## The scopes of expressions -/

/-- A scope that binds some names and no others. -/
def Scope.BindsExactly (scope : Scope) (names : List Text) : Prop :=
  ∀ x, scope.contains x = true ↔ x ∈ names

theorem Scope.bindsExactly_root : Scope.root.BindsExactly [] := by
  intro x
  simp

theorem Scope.BindsExactly.push {scope : Scope} {names : List Text} (h : scope.BindsExactly names)
    (bound : List Text) : (scope.push bound).BindsExactly (bound ++ names) := by
  intro x
  rw [Scope.contains_push, Bool.or_eq_true, h x, List.contains_iff_mem, List.mem_append]

/-- An expression in a scope is an occurrence whose names are those that the scope binds. -/
structure ScopedExpr.Fits (e : ScopedExpr) (o : NodeOccurrence) : Prop where
  expr : e.expr = o.expr
  scope : e.scope.BindsExactly o.names

theorem forall₂_fits_map {scope : Scope} {names : List Text} (h : scope.BindsExactly names)
    (es : List Expr) :
    List.Forall₂ ScopedExpr.Fits (es.map (ScopedExpr.mk scope))
      ((es.map NodePart.expr).flatMap (NodePart.occurrences names)) := by
  induction es with
  | nil => exact .nil
  | cons e es ih => exact .cons ⟨rfl, h⟩ ih

mutual

/-- The expressions that are resolved for a node are its expressions, in their scopes. -/
theorem nodeExpressions_fits : (n : Node) → NodeFormed n → {scope : Scope} → {names : List Text} →
    scope.BindsExactly names →
      List.Forall₂ ScopedExpr.Fits (nodeExpressions scope n) (n.occurrences names)
  | .element name attributes children _, hn, scope, names, h => by
    obtain ⟨-, -, hchildren, -, hvoid⟩ := hn
    have hbody : List.Forall₂ ScopedExpr.Fits
        (if isVoidElement name then [] else scopedExpressions scope children)
        (occurrencesOf names children) := by
      split
      · rename_i hname
        -- The children of a void element are left out; it has none.
        rw [hvoid hname]
        exact .nil
      · exact scopedExpressions_fits children hchildren h
    rw [Node.occurrences_eq, Node.parts, nodeExpressions, List.flatMap_append,
      List.flatMap_singleton]
    exact List.rel_append (forall₂_fits_map h _) hbody
  | .text _ _, _, _, _, _ => by
    rw [Node.occurrences_eq]
    exact .nil
  | .mustache _ _, _, _, _, h => by
    rw [Node.occurrences_eq]
    exact .cons ⟨rfl, h⟩ .nil
  | .ifBlock test children alternative _, hn, scope, names, h => by
    obtain ⟨hchildren, -, halternative⟩ := hn
    rw [Node.occurrences_eq, Node.parts, nodeExpressions, List.flatMap_cons, List.flatMap_cons,
      List.flatMap_singleton]
    exact .cons ⟨rfl, h⟩ (List.rel_append (scopedExpressions_fits children hchildren h)
      (alternativeExpressions_fits alternative halternative h))
  | .eachBlock iterable item index children _, hn, scope, names, h => by
    obtain ⟨-, -, hchildren, -⟩ := hn
    rw [Node.occurrences_eq, Node.parts, nodeExpressions, List.flatMap_cons,
      List.flatMap_singleton]
    exact .cons ⟨rfl, h⟩ (scopedExpressions_fits children hchildren (h.push _))

/-- The expressions that are resolved for some nodes are their expressions, in their scopes. -/
theorem scopedExpressions_fits : (nodes : List Node) → NodesFormed nodes → {scope : Scope} →
    {names : List Text} → scope.BindsExactly names →
      List.Forall₂ ScopedExpr.Fits (scopedExpressions scope nodes) (occurrencesOf names nodes)
  | [], _, _, _, _ => .nil
  | n :: rest, hnodes, _, _, h =>
    List.rel_append (nodeExpressions_fits n hnodes.1 h) (scopedExpressions_fits rest hnodes.2 h)

/-- The expressions that are resolved for an alternative are its expressions, in their scopes. -/
theorem alternativeExpressions_fits : (alternative : Option (List Node)) →
    AlternativeFormed alternative → {scope : Scope} → {names : List Text} →
    scope.BindsExactly names →
      List.Forall₂ ScopedExpr.Fits (alternativeExpressions scope alternative)
        (occurrencesOf names (alternative.getD []))
  | none, _, _, _, _ => .nil
  | some nodes, hnodes, _, _, h => scopedExpressions_fits nodes hnodes.1 h

end

/-! ## The order of expressions -/

/-- Expressions that are read one after the other lie apart, between the ends of what is read. -/
theorem ExprsRead.separated {g : Grammar} (hg : g.Sound) {source : Text} {lo hi : Nat}
    {es : List Expr} (h : ExprsRead g source lo hi es) :
    (∀ e ∈ es, lo ≤ e.span.start ∧ e.span.stop ≤ hi) ∧
      es.Pairwise fun a b => a.span.stop < b.span.start := by
  induction h with
  | nil => exact ⟨nofun, .nil⟩
  | @cons lo mid hi c e es hc hlo hmid he hes ih =>
    obtain ⟨hbounds, hpairs⟩ := ih
    obtain ⟨body, hbody⟩ := (hg.expression _ _ _ (expressionAt_eq_ok he)).span
    have hstart := hbody.pos_le_start
    have hstop : e.span.stop ≤ c.stop := hbody.stop_le
    have hle := hes.le
    have hpos : c.pos ≤ c.stop := Nat.le_add_right ..
    refine ⟨?_, List.pairwise_cons.2 ⟨fun b hb => ?_, hpairs⟩⟩
    · intro b hb
      rcases List.mem_cons.1 hb with rfl | hb
      · omega
      · have hb := hbounds b hb
        omega
    · have hb := (hbounds b hb).1
      omega

/-- Two spans that do not overlap. -/
def Span.Apart (s t : Span) : Prop :=
  t.stop ≤ s.start ∨ s.stop ≤ t.start

/-- An expression between which and another a script stands does not overlap the script. -/
theorem ScriptApart.apart {g : Grammar} (hg : g.Sound) {source : Text} {block : ScriptBlock}
    {lo hi : Nat} {es : List Expr} (h : ScriptApart g source block lo hi es) {e : Expr}
    (he : e ∈ es) : block.span.Apart e.span := by
  obtain ⟨pre, post, stop, start, rfl, hpre, hstop, hstart, hpost⟩ := h.split
  rcases List.mem_append.1 he with he | he
  · exact Or.inl (Nat.le_trans ((hpre.separated hg).1 e he).2 hstop)
  · exact Or.inr (Nat.le_trans hstart ((hpost.separated hg).1 e he).1)

/-! ## Expressions one by one -/

section Alone

open Resolve

variable {isHelper : Text → Bool} {source : Text} {b b' : EditBuffer}

/-- What an expression in a scope inserts. -/
def ScopedExpr.insertions (isHelper : Text → Bool) (e : ScopedExpr) : List Insertion :=
  insertionsOfAll isHelper e.scope (exprOutline e.expr)

theorem recordAll_eq_ok {items : List Insertion} (h : recordAll b items = .ok b') :
    b' = { b with right := b.right.addAll items } := by
  induction items generalizing b with
  | nil =>
    cases h
    rfl
  | cons p items ih =>
    rw [recordAll, List.foldlM_cons] at h
    obtain ⟨b₁, h₁, h⟩ := bind_eq_ok_iff.1 h
    rw [ih h, EditBuffer.insertRight_eq_ok h₁]
    rfl

/-- Resolving expressions one after the other records the insertions of all of them. -/
theorem foldlM_resolve_eq_ok {es : List ScopedExpr}
    (h : es.foldlM (fun b e => resolve isHelper e.scope e.expr b) b = .ok b') :
    b' = { b with right := b.right.addAll (es.flatMap (ScopedExpr.insertions isHelper)) } := by
  induction es generalizing b with
  | nil =>
    cases h
    rfl
  | cons e es ih =>
    rw [List.foldlM_cons] at h
    obtain ⟨b₁, h₁, h⟩ := bind_eq_ok_iff.1 h
    rw [ih h, recordAll_eq_ok h₁, List.flatMap_cons]
    simp only [Insertions.addAll, List.foldl_append]
    rfl

/-- An expression that stands in the source inserts between its ends. -/
theorem ScopedExpr.insertions_inside {e : ScopedExpr} (he : ExprPlaced source 0 e.expr)
    {p : Insertion} (hp : p ∈ e.insertions isHelper) :
    e.span.start ≤ p.1 ∧ p.1 ≤ e.span.stop := by
  obtain ⟨id, hid, hstart⟩ := mem_insertionsOfAll _ hp
  obtain ⟨⟨body, hbody⟩, hle, hge⟩ := he.names id hid
  have hid := hbody.start_le_stop
  rw [hstart]
  exact ⟨hle, Nat.le_trans hid hge⟩

/-- Of the insertions of expressions that lie apart, those of one show in its span. -/
theorem filter_insertions {es : List ScopedExpr}
    (hplaced : ∀ e ∈ es, ExprPlaced source 0 e.expr)
    (hordered : es.Pairwise fun a b => a.span.stop < b.span.start) {e : ScopedExpr} (he : e ∈ es) :
    (es.flatMap (ScopedExpr.insertions isHelper)).filter
        (fun p => EditBuffer.showsRight e.span p.1) =
      (e.insertions isHelper).filter fun p => EditBuffer.showsRight e.span p.1 := by
  obtain ⟨pre, post, rfl⟩ := List.append_of_mem he
  obtain ⟨-, hafter, hbefore⟩ := List.pairwise_append.1 hordered
  have hpost := (List.pairwise_cons.1 hafter).1
  -- An expression before this one ends before it, and one behind it starts behind it.
  have hhidden : ∀ x ∈ pre ++ post, ∀ p ∈ x.insertions isHelper,
      ¬EditBuffer.showsRight e.span p.1 = true := by
    intro x hx p hp
    have hmem : x ∈ pre ++ e :: post := by
      rcases List.mem_append.1 hx with hx | hx
      · exact List.mem_append_left _ hx
      · exact List.mem_append_right _ (List.mem_cons_of_mem _ hx)
    obtain ⟨hstart, hstop⟩ := ScopedExpr.insertions_inside (hplaced x hmem) hp
    simp only [EditBuffer.showsRight, decide_eq_true_eq]
    rcases List.mem_append.1 hx with hx | hx
    · have hlt := hbefore x hx e List.mem_cons_self
      omega
    · have hlt := hpost x hx
      omega
  have hnone : ∀ xs : List ScopedExpr, (∀ x ∈ xs, x ∈ pre ++ post) →
      (xs.flatMap (ScopedExpr.insertions isHelper)).filter
        (fun p => EditBuffer.showsRight e.span p.1) = [] := by
    intro xs hxs
    refine List.filter_eq_nil_iff.2 fun p hp => ?_
    obtain ⟨x, hx, hp⟩ := List.mem_flatMap.1 hp
    exact hhidden x (hxs x hx) p hp
  rw [List.flatMap_append, List.flatMap_cons, List.filter_append, List.filter_append,
    hnone pre fun x hx => List.mem_append_left _ hx,
    hnone post fun x hx => List.mem_append_right _ hx, List.append_nil, List.nil_append]

/-- The text of an expression does not depend on the edits before, if none of them shows in it, nor on
the other expressions. -/
theorem slice_eq_alone {es : List ScopedExpr} (hb : b.Orderly)
    (hplaced : ∀ e ∈ es, ExprPlaced source 0 e.expr)
    (hordered : es.Pairwise fun a b => a.span.stop < b.span.start)
    (h : es.foldlM (fun b e => resolve isHelper e.scope e.expr b) b = .ok b')
    {e : ScopedExpr} (he : e ∈ es) (hclean : b.within e.span = .ofText source)
    {alone : EditBuffer} (halone : resolve isHelper e.scope e.expr (.ofText source) = .ok alone) :
    b'.slice e.span.start e.span.stop = alone.slice e.span.start e.span.stop := by
  have hsource := EditBuffer.orderly_ofText source
  -- Both buffers are the source with insertions, and the same ones show in the span.
  have hwithin : ∀ {c : EditBuffer} (items : List Insertion), c.Orderly →
      c.within e.span = .ofText source →
      ({ c with right := c.right.addAll items } : EditBuffer).within e.span =
        { EditBuffer.ofText source with
          right := Insertions.addAll [] (items.filter fun p => EditBuffer.showsRight e.span p.1) } := by
    intro c items hc hclean
    obtain ⟨hsrc, hleft, hright, hover⟩ := EditBuffer.mk.inj hclean
    simp only [EditBuffer.within, Insertions.filter_addAll hc.right, hsrc, hleft, hright, hover]
    rfl
  have horderly : ∀ {c : EditBuffer} (items : List Insertion), c.Orderly →
      ({ c with right := c.right.addAll items } : EditBuffer).Orderly :=
    fun items hc => ⟨hc.left, hc.right.addAll items, hc.overwrites, hc.proper⟩
  rw [foldlM_resolve_eq_ok h, recordAll_eq_ok halone]
  refine EditBuffer.slice_eq_of_within_eq (horderly _ hb) (horderly _ hsource) ?_
  rw [hwithin _ hb hclean, hwithin _ hsource rfl, filter_insertions hplaced hordered he]
  rfl

end Alone

/-! ## Compiled code -/

/-- The edits of a linked script do not show in a span that does not overlap it, and the script that
is emitted is the one that was read. -/
theorem linkTemplateScript_clean {g : Grammar} (hg : g.Sound) {source : Text} {t : Template}
    {script : Option ComponentScript} {b : EditBuffer}
    (hscript : ∀ block, t.script = some block → ScriptRead g source block)
    (hb : b.source = source) (h : linkTemplateScript t (.ofText source) = .ok (script, b)) :
    b.Orderly ∧ script.map ComponentScript.body = t.script.map ScriptBlock.span ∧
      ∀ s : Span, (∀ block, t.script = some block → block.span.Apart s) →
        b.within s = .ofText source := by
  unfold linkTemplateScript at h
  cases ht : t.script with
  | none =>
    rw [ht] at h
    cases h
    exact ⟨EditBuffer.orderly_ofText source, rfl, fun s _ => rfl⟩
  | some block =>
    rw [ht] at h
    obtain ⟨⟨linked, b'⟩, hlink, h⟩ := bind_eq_ok_iff.1 h
    cases h
    obtain ⟨hmodule, hspan, hbounds⟩ := (hscript block ht).placed hg
    obtain ⟨htidy, hbody⟩ := linkScript_tidy hmodule hspan hbounds hlink
    refine ⟨htidy.orderly, by rw [Option.map_some, Option.map_some, hbody], fun s hs => ?_⟩
    rw [htidy.confined.within_eq_ofText (hs block rfl), hb]

/-- A segment of code that is what an expression of a source becomes if it alone is resolved, in any
scope that binds exactly its names. -/
structure EmittedAlone (source : Text) (isHelper : Text → Bool) (code : Text) (o : NodeOccurrence)
    (seg : Segment) : Prop where
  source_eq : seg.source = o.expr.span
  code_eq : ∀ scope : Scope, scope.BindsExactly o.names → ∃ alone text,
    Resolve.resolve isHelper scope o.expr (.ofText source) = .ok alone ∧
      alone.slice o.expr.span.start o.expr.span.stop = .ok text ∧
      Text.StandsAt code 0 seg.generated text

/-- An exact segment of an expression whose text is the same in both buffers. -/
theorem ScopedExpr.Fits.emittedAlone {e : ScopedExpr} {o : NodeOccurrence} (h : e.Fits o)
    {source code : Text} {isHelper : Text → Bool} {final : EditBuffer} {seg : Segment}
    (he : ExprPlaced source 0 e.expr) (hseg : seg.Exact final code) (hspan : seg.source = e.span)
    (hslice : ∀ alone, Resolve.resolve isHelper e.scope e.expr (.ofText source) = .ok alone →
      final.slice e.span.start e.span.stop = alone.slice e.span.start e.span.stop) :
    EmittedAlone source isHelper code o seg := by
  obtain ⟨scope', expr'⟩ := e
  obtain rfl : expr' = o.expr := h.expr
  refine ⟨hspan, fun scope hscope => ?_⟩
  obtain ⟨text, htext, hstands⟩ := hseg.stands
  obtain ⟨alone, halone, -⟩ :=
    Resolve.resolve_eq_ok (EditBuffer.anchored_ofText source) he isHelper scope'
  -- Scopes that bind the same names resolve alike.
  have hscopes : ∀ x, scope.contains x = scope'.contains x := by
    intro x
    rw [Bool.eq_iff_iff, hscope x, h.scope x]
  refine ⟨alone, text, ?_, ?_, hstands⟩
  · rw [Resolve.resolve, Resolve.insertionsOfAll_congr _ hscopes]
    exact halone
  · rw [← htext, hspan]
    exact (hslice alone halone).symm

theorem forall₂_of_fits {es : List ScopedExpr} {os : List NodeOccurrence} {segs : List Segment}
    {R : NodeOccurrence → Segment → Prop} (hfits : List.Forall₂ ScopedExpr.Fits es os)
    (hsegs : segs.map Segment.source = es.map ScopedExpr.span)
    (h : ∀ e ∈ es, ∀ o, e.Fits o → ∀ seg ∈ segs, seg.source = e.span → R o seg) :
    List.Forall₂ R os segs := by
  induction hfits generalizing segs with
  | nil =>
    rw [List.map_nil, List.map_eq_nil_iff] at hsegs
    rw [hsegs]
    exact .nil
  | @cons e o es os hfit _ ih =>
    cases segs with
    | nil => cases hsegs
    | cons seg segs =>
      rw [List.map_cons, List.map_cons, List.cons.injEq] at hsegs
      refine .cons (h e List.mem_cons_self o hfit seg List.mem_cons_self hsegs.1) (ih hsegs.2 ?_)
      intro e' he' o' ho' seg' hseg'
      exact h e' (List.mem_cons_of_mem _ he') o' ho' seg' (List.mem_cons_of_mem _ hseg')

theorem map_span_of_fits {es : List ScopedExpr} {os : List NodeOccurrence}
    (h : List.Forall₂ ScopedExpr.Fits es os) :
    os.map (fun o => o.expr.span) = es.map ScopedExpr.span := by
  induction h with
  | nil => rfl
  | cons hfit _ ih => rw [List.map_cons, List.map_cons, ih, ScopedExpr.span, hfit.expr]

/-- What a successful compilation went through. -/
theorem compileWith_eq_ok {g : Grammar} {source : Text} {out : Composed}
    (h : compileWith g source = .ok out) :
    ∃ t script edits blocks final, readTemplate g source = .ok t ∧
      linkTemplateScript t (.ofText source) = .ok (script, edits) ∧
      renderBlocks ((script.map ComponentScript.config).getD .empty) t.nodes = .ok blocks ∧
      resolveNodes ((script.map ComponentScript.config).getD .empty) t.nodes edits = .ok final ∧
      compose final (moduleFragments script blocks) = .ok out := by
  obtain ⟨t, ht, h⟩ := bind_eq_ok_iff.1 h
  obtain ⟨-, -, h⟩ := bind_eq_ok_iff.1 h
  obtain ⟨-, -, h⟩ := bind_eq_ok_iff.1 h
  obtain ⟨r, hr, hout⟩ := bind_eq_ok_iff.1 h
  obtain ⟨⟨script, edits⟩, hscript, hr⟩ := bind_eq_ok_iff.1 hr
  obtain ⟨blocks, hblocks, hr⟩ := bind_eq_ok_iff.1 hr
  obtain ⟨final, hfinal, hr⟩ := bind_eq_ok_iff.1 hr
  cases hr
  exact ⟨t, script, edits, blocks, final, ofTemplate_eq_ok ht, hscript, ofRender_eq_ok hblocks,
    ofEdit_eq_ok hfinal, ofEdit_eq_ok hout⟩

/-- The buffer that the script of a template is linked in, with the source in it as it was where an
expression stands. -/
structure Linked (source : Text) (t : Template) (script : Option ComponentScript)
    (b : EditBuffer) : Prop where
  source_eq : b.source = source
  anchored : b.Anchored
  orderly : b.Orderly
  body : script.map ComponentScript.body = t.script.map ScriptBlock.span
  clean : ∀ e ∈ scopedExpressions .root t.nodes, b.within e.span = .ofText source

section Compiled

variable {g : Grammar} (hg : g.Sound) {source : Text} {t : Template}
  (ht : readTemplate g source = .ok t)

include hg ht

theorem scopedExpressions_placed :
    ∀ e ∈ scopedExpressions .root t.nodes, ExprPlaced source 0 e.expr := by
  intro e he
  exact (readTemplate_exprs ht Scope.root).1.placed hg e.expr (List.mem_map_of_mem he)

/-- The expressions of a template stand one behind the other. -/
theorem scopedExpressions_ordered :
    (scopedExpressions .root t.nodes).Pairwise fun a b => a.span.stop < b.span.start :=
  List.pairwise_map.1 ((readTemplate_exprs ht Scope.root).1.separated hg).2

variable {script : Option ComponentScript} {edits : EditBuffer}

/-- The edits of the script do not show in the expressions of the template. -/
theorem linkTemplateScript_linked
    (hlink : linkTemplateScript t (.ofText source) = .ok (script, edits)) :
    Linked source t script edits := by
  have hscript := (readTemplate_exprs ht Scope.root).2
  have hsettled := linkTemplateScript_settles hg hscript
  rw [hlink] at hsettled
  obtain ⟨-, hsource, hanchored⟩ := hsettled
  obtain ⟨horderly, hbody, hclean⟩ := linkTemplateScript_clean hg hscript hsource hlink
  refine ⟨hsource, hanchored, horderly, hbody, fun e he => hclean e.span fun block hblock => ?_⟩
  obtain ⟨hi, hsplit⟩ := readTemplate_scriptApart ht hblock Scope.root
  exact hsplit.apart hg (List.mem_map_of_mem he)

variable {config : Config} {final : EditBuffer}

/-- The buffer that compiled code is read from is anchored in the source. -/
theorem Linked.resolved (h : Linked source t script edits)
    (hfinal : resolveNodes config t.nodes edits = .ok final) :
    final.Anchored ∧ final.source = source := by
  have hplaced := scopedExpressions_placed hg ht
  rw [← h.source_eq] at hplaced
  obtain ⟨final', hfinal', hinserted⟩ := resolveNodes_eq_ok h.anchored hplaced
  cases hfinal.symm.trans hfinal'
  exact ⟨hinserted.anchored, hinserted.source.trans h.source_eq⟩

/-- The text of an expression in that buffer is what it becomes if it alone is resolved. -/
theorem Linked.slice_eq (h : Linked source t script edits)
    (hfinal : resolveNodes config t.nodes edits = .ok final) {e : ScopedExpr}
    (he : e ∈ scopedExpressions .root t.nodes) {alone : EditBuffer}
    (halone : Resolve.resolve config.isHelper e.scope e.expr (.ofText source) = .ok alone) :
    final.slice e.span.start e.span.stop = alone.slice e.span.start e.span.stop :=
  slice_eq_alone h.orderly (scopedExpressions_placed hg ht) (scopedExpressions_ordered hg ht)
    hfinal he (h.clean e he) halone

omit hg ht in
/-- The ranges of the emitted module are the body of the script and the expressions. -/
theorem Linked.spansOf_eq (h : Linked source t script edits) {blocks : List (List Fragment)}
    (hblocks : renderBlocks config t.nodes = .ok blocks) :
    spansOf (moduleFragments script blocks) = (t.script.map ScriptBlock.span).toList ++
      (scopedExpressions .root t.nodes).map ScopedExpr.span := by
  rw [spansOf_moduleFragments, renderBlocks_spans Scope.root hblocks, h.body]

theorem Linked.spansOf_placed (h : Linked source t script edits) {blocks : List (List Fragment)}
    (hblocks : renderBlocks config t.nodes = .ok blocks) :
    ∀ s ∈ spansOf (moduleFragments script blocks), Placed source 0 s := by
  intro s hs
  rw [h.spansOf_eq hblocks] at hs
  rcases List.mem_append.1 hs with hs | hs
  · obtain ⟨block, hblock, rfl⟩ := Option.map_eq_some_iff.1 (Option.mem_toList.1 hs)
    exact (((readTemplate_exprs ht Scope.root).2 block hblock).placed hg).2.1
  · obtain ⟨e, he, rfl⟩ := List.mem_map.1 hs
    exact (scopedExpressions_placed hg ht e he).span

end Compiled

/-- Every expression of a template is emitted once, in document order, and resolved in its own scope:
the segments of compiled code are the body of the script and then the expressions of the tree, and the
code of each of these is what the expression becomes if it alone is resolved, with the helpers of the
script, where exactly the names of the each blocks around it are bound. -/
theorem compileWith_emits_occurrences {g : Grammar} (hg : g.Sound) {source : Text} {out : Composed}
    (h : compileWith g source = .ok out) :
    ∃ t script edits, readTemplate g source = .ok t ∧
      linkTemplateScript t (.ofText source) = .ok (script, edits) ∧
      out.segments.map Segment.source = (t.script.map ScriptBlock.span).toList ++
        (occurrencesOf [] t.nodes).map (fun o => o.expr.span) ∧
      List.Forall₂
        (EmittedAlone source ((script.map ComponentScript.config).getD .empty).isHelper out.code)
        (occurrencesOf [] t.nodes) (out.segments.drop t.script.toList.length) ∧
      (occurrencesOf [] t.nodes).Pairwise fun a b => a.expr.span.stop < b.expr.span.start := by
  obtain ⟨t, script, edits, blocks, final, ht, hlink, hblocks, hfinal, hout⟩ := compileWith_eq_ok h
  have hlinked := linkTemplateScript_linked hg ht hlink
  obtain ⟨hanchored, hsource⟩ := hlinked.resolved hg ht hfinal
  have hplaced := scopedExpressions_placed hg ht
  have hfits := scopedExpressions_fits t.nodes (readTemplate_formed ht) Scope.bindsExactly_root
  have hspan := map_span_of_fits hfits
  -- The segments tell the truth about the code, which is read from the resolved buffer.
  have hranges := hlinked.spansOf_placed hg ht hblocks
  rw [← hsource] at hranges
  obtain ⟨out', texts, hcomposes⟩ := exists_composesTo hanchored _ hranges []
  cases hout.symm.trans hcomposes.composed
  have hsources := hcomposes.sources
  rw [hlinked.spansOf_eq hblocks] at hsources
  refine ⟨t, script, edits, ht, hlink, hspan ▸ hsources, forall₂_of_fits hfits ?_ ?_, ?_⟩
  · rw [List.map_drop, hsources]
    exact List.drop_left' (by cases t.script <;> rfl)
  · intro e he o ho seg hseg hsegspan
    refine ho.emittedAlone (hplaced e he) (hcomposes.faithful seg (List.mem_of_mem_drop hseg))
      hsegspan ?_
    intro alone halone
    exact hlinked.slice_eq hg ht hfinal he halone
  · have hordered : ((scopedExpressions .root t.nodes).map ScopedExpr.span).Pairwise
        (fun a b => a.stop < b.start) :=
      List.pairwise_map.2 (scopedExpressions_ordered hg ht)
    rw [← hspan] at hordered
    exact List.pairwise_map.1 hordered

/-- The grammar in which an expression is a name made of letters, and a script is blank. -/
def Script.Grammar.names : Grammar where
  expression text pos :=
    let start := pos + Text.byteLength (text.takeWhile Text.isScriptBlank)
    let name := (text.dropWhile Text.isScriptBlank).takeWhile isAsciiLetter
    if name.isEmpty then none
    else some (.ident ⟨name, ⟨start, start + Text.byteLength name⟩⟩)
  module text _ := if text.all Text.isScriptBlank then some ⟨[]⟩ else none

theorem Script.Grammar.names_sound : Grammar.names.Sound := by
  constructor
  · intro text pos e h
    simp only [Grammar.names] at h
    split at h
    · cases h
    · cases h
      have hplaced : Placed text pos ⟨pos + Text.byteLength (text.takeWhile Text.isScriptBlank),
          pos + Text.byteLength (text.takeWhile Text.isScriptBlank) + Text.byteLength
            ((text.dropWhile Text.isScriptBlank).takeWhile isAsciiLetter)⟩ := by
        refine ⟨_, _, (text.dropWhile Text.isScriptBlank).dropWhile isAsciiLetter, ?_, rfl, rfl⟩
        rw [List.append_assoc, List.takeWhile_append_dropWhile, List.takeWhile_append_dropWhile]
      refine ⟨hplaced, fun id hid => ?_⟩
      obtain rfl := List.mem_singleton.1 hid
      exact ⟨hplaced, Nat.le_refl _, Nat.le_refl _⟩
  · intro text pos m h
    simp only [Grammar.names] at h
    split at h
    · cases h
      exact ⟨fun item hitem => (nomatch hitem), .nil⟩
    · cases h

/-- A script, an attribute, and each blocks one in the other. The name `k` is free in the attribute,
bound in the inner block, and free again behind it. -/
def nestedItems : Text :=
  ("<script> </script><ul id=\"\x7b\x7bk\x7d\x7d\">\x7b\x7b#each rows as row, i\x7d\x7d" ++
    "\x7b\x7b#each row as k\x7d\x7d\x7b\x7bk\x7d\x7d\x7b\x7b/each\x7d\x7d" ++
    "\x7b\x7bk\x7d\x7d\x7b\x7bi\x7d\x7d\x7b\x7b/each\x7d\x7d</ul>").toList

theorem compileWith_emits_nestedItems : Grammar.names.Sound ∧
    ∃ out, compileWith .names nestedItems = .ok out ∧
      out.segments.map (fun seg => Text.slice? seg.generated.start seg.generated.stop out.code) =
        [some " ".toList, some "data.k".toList, some "data.rows".toList, some "row".toList,
          some "k".toList, some "data.k".toList, some "i".toList] ∧
      ∃ t script edits, readTemplate .names nestedItems = .ok t ∧
        linkTemplateScript t (.ofText nestedItems) = .ok (script, edits) ∧
        out.segments.map Segment.source = (t.script.map ScriptBlock.span).toList ++
          (occurrencesOf [] t.nodes).map (fun o => o.expr.span) ∧
        List.Forall₂
          (EmittedAlone nestedItems ((script.map ComponentScript.config).getD .empty).isHelper
            out.code)
          (occurrencesOf [] t.nodes) (out.segments.drop t.script.toList.length) := by
  have hchars : nestedItems = _ := Text.HasChars.append (.append .literal .literal) .literal
  have hcompiled : (compileWith .names nestedItems).toOption.map (fun out =>
      out.segments.map fun seg => Text.slice? seg.generated.start seg.generated.stop out.code) =
        some [some " ".toList, some "data.k".toList, some "data.rows".toList, some "row".toList,
          some "k".toList, some "data.k".toList, some "i".toList] := by
    rw [hchars]
    decide +kernel
  obtain ⟨out, hout, hcode⟩ := Option.map_eq_some_iff.1 hcompiled
  have hout := toOption_eq_some_iff.1 hout
  obtain ⟨t, script, edits, ht, hlink, hsources, halone, -⟩ :=
    compileWith_emits_occurrences Grammar.names_sound hout
  exact ⟨Grammar.names_sound, out, hout, hcode, t, script, edits, ht, hlink, hsources, halone⟩

end TemplateCompiler
