import TemplateCompiler.Proofs.Render.Moved
import TemplateCompiler.Proofs.Render.Occurrences
import TemplateCompiler.Proofs.Template.Concatenation

/-!
# The statements of templates one behind the other

The statements of a render function are made node by node, and the text of each is made from the
edits inside of its expressions. So the statements of a template do not depend on what stands before
and behind it: those of two templates, one behind the other, are the statements of the first and
then those of the second.

## What this module delivers

* `statementTexts`: the texts of the statements of a source's render function.
* `Rendered.slice_inner`: the text of an expression where its source stands in a longer one.
* `readTemplate_concat`: the nodes and statements of two sources, one behind the other.
-/

set_option autoImplicit false

namespace TemplateCompiler

open Script Text

variable {g : Grammar}

/-- The texts of the statements of a render function. -/
def Rendering.texts (r : Rendering) : Except EditFault (List Text) :=
  r.blocks.mapM fun block => (compose r.edits block).map Composed.code

/-- The texts of the statements of a source's render function, scripts being read with a given
grammar. -/
def statementTexts (g : Grammar) (source : Text) : Except CompileError (List Text) := do
  let t ← ofTemplate (readTemplate g source)
  let r ← renderTemplate t source
  ofEdit r.texts

/-! ## Rendering without a script -/

section Total

variable {config : Config}

mutual

/-- Without components every node has its code: only the children of a component are refused. -/
theorem nodeCode_total (hconfig : ∀ name, config.isComponent name = false) : (n : Node) →
    ∃ code, nodeCode config n = .ok code
  | .element name attributes children span => by
    unfold nodeCode
    rw [hconfig name, if_neg Bool.false_ne_true]
    split
    · exact ⟨_, rfl⟩
    · cases children with
      | nil => exact ⟨_, rfl⟩
      | cons child more =>
        obtain ⟨first, hfirst⟩ := nodeCode_total hconfig child
        obtain ⟨rest, hrest⟩ := nodesCode_total hconfig more
        exact ⟨_, bind_eq_ok_iff.2 ⟨first, hfirst, bind_eq_ok_iff.2 ⟨rest, hrest, rfl⟩⟩⟩
  | .text data span => ⟨_, by rw [nodeCode]⟩
  | .mustache e span => ⟨_, by rw [nodeCode]⟩
  | .ifBlock test children alternative span => by
    obtain ⟨yes, hyes⟩ := nodesCode_total hconfig children
    obtain ⟨no, hno⟩ := alternativeCode_total hconfig alternative
    rw [nodeCode]
    exact ⟨_, bind_eq_ok_iff.2 ⟨yes, hyes, bind_eq_ok_iff.2 ⟨no, hno, rfl⟩⟩⟩
  | .eachBlock iterable item index children span => by
    obtain ⟨body, hbody⟩ := nodesCode_total hconfig children
    rw [nodeCode]
    exact ⟨_, bind_eq_ok_iff.2 ⟨body, hbody, rfl⟩⟩

theorem nodesCode_total (hconfig : ∀ name, config.isComponent name = false) :
    (nodes : List Node) → ∃ fragments, nodesCode config nodes = .ok fragments
  | [] => ⟨_, by rw [nodesCode]⟩
  | n :: rest => by
    obtain ⟨code, hcode⟩ := nodeCode_total hconfig n
    obtain ⟨more, hmore⟩ := nodesCode_total hconfig rest
    rw [nodesCode]
    exact ⟨_, bind_eq_ok_iff.2 ⟨code, hcode, bind_eq_ok_iff.2 ⟨more, hmore, rfl⟩⟩⟩

theorem alternativeCode_total (hconfig : ∀ name, config.isComponent name = false) :
    (alternative : Option (List Node)) →
      ∃ fragments, alternativeCode config alternative = .ok fragments
  | none => ⟨_, by rw [alternativeCode]⟩
  | some nodes => by
    rw [alternativeCode]
    exact nodesCode_total hconfig nodes

end

theorem renderBlocks_total (hconfig : ∀ name, config.isComponent name = false)
    (nodes : List Node) : ∃ blocks, renderBlocks config nodes = .ok blocks := by
  induction nodes with
  | nil => exact ⟨[], rfl⟩
  | cons n rest ih =>
    obtain ⟨code, hcode⟩ := nodeCode_total hconfig n
    obtain ⟨blocks, hblocks⟩ := ih
    rw [renderBlocks, List.mapM_cons]
    exact ⟨_, bind_eq_ok_iff.2 ⟨_, bind_eq_ok_iff.2 ⟨code, hcode, rfl⟩,
      bind_eq_ok_iff.2 ⟨blocks, hblocks, rfl⟩⟩⟩

end Total

/-- Statements whose ranges stand in the source are composed, each from the texts of its
fragments. -/
theorem mapM_compose_eq_ok {b : EditBuffer} (hb : b.Anchored) (blocks : List (List Fragment))
    (hspans : ∀ s ∈ blocks.flatMap spansOf, Placed b.source 0 s) :
    ∃ texts, blocks.mapM (List.mapM (fragmentText b)) = .ok texts ∧
      blocks.mapM (fun block => (compose b block).map Composed.code) =
        .ok (texts.map List.flatten) := by
  induction blocks with
  | nil => exact ⟨[], rfl, rfl⟩
  | cons block rest ih =>
    rw [List.flatMap_cons] at hspans
    obtain ⟨out, texts, hout⟩ := exists_composesTo hb block
      (fun s hs => hspans s (List.mem_append_left _ hs)) []
    obtain ⟨more, hmore, hcodes⟩ := ih fun s hs => hspans s (List.mem_append_right _ hs)
    have hcode : (compose b block).map Composed.code = .ok texts.flatten := by
      rw [← hout.code]
      exact congrArg (Except.map Composed.code) hout.composed
    refine ⟨texts :: more, ?_, ?_⟩
    · rw [List.mapM_cons]
      exact bind_eq_ok_iff.2 ⟨texts, hout.read, bind_eq_ok_iff.2 ⟨more, hmore, rfl⟩⟩
    · rw [List.mapM_cons]
      exact bind_eq_ok_iff.2 ⟨_, hcode, bind_eq_ok_iff.2 ⟨_, hcodes, rfl⟩⟩

/-- The statements of a template without a script and a style, and the edits that they rely on. -/
structure Rendered (g : Grammar) (source : Text) (nodes : List Node) (blocks : List (List Fragment))
    (final : EditBuffer) : Prop where
  read : readTemplate g source = .ok ⟨nodes, none, none⟩
  rendered : renderBlocks .empty nodes = .ok blocks
  resolved : resolveNodes .empty nodes (.ofText source) = .ok final

theorem exists_resolved (hg : g.Sound) {source : Text} {t : Template}
    (h : readTemplate g source = .ok t) (config : Config) :
    ∃ final, resolveNodes config t.nodes (.ofText source) = .ok final ∧
      EditBuffer.Inserted (.ofText source) final :=
  resolveNodes_eq_ok (EditBuffer.anchored_ofText source) (scopedExpressions_placed hg h)

theorem exists_rendered (hg : g.Sound) {source : Text} {nodes : List Node}
    (h : readTemplate g source = .ok ⟨nodes, none, none⟩) :
    ∃ blocks final, Rendered g source nodes blocks final := by
  have hconfig : ∀ name, Config.empty.isComponent name = false := fun _ => rfl
  obtain ⟨blocks, hblocks⟩ := renderBlocks_total hconfig nodes
  obtain ⟨final, hfinal, -⟩ := exists_resolved hg h .empty
  exact ⟨blocks, final, h, hblocks, hfinal⟩

namespace Rendered

variable {source : Text} {nodes : List Node} {blocks : List (List Fragment)} {final : EditBuffer}

/-- The statements of a template have texts, which are made from those of their fragments. -/
theorem exists_texts (hg : g.Sound) (h : Rendered g source nodes blocks final) :
    ∃ texts, blocks.mapM (List.mapM (fragmentText final)) = .ok texts ∧
      statementTexts g source = .ok (texts.map List.flatten) := by
  obtain ⟨final', hfinal, hinserted⟩ := exists_resolved hg h.read .empty
  cases h.resolved.symm.trans hfinal
  -- Every range in the statements is an expression of the source.
  have hplaced : ∀ s ∈ blocks.flatMap spansOf, Placed final.source 0 s := by
    intro s hs
    rw [renderBlocks_spans Scope.root h.rendered] at hs
    obtain ⟨e, he, rfl⟩ := List.mem_map.1 hs
    rw [hinserted.source]
    exact (scopedExpressions_placed hg h.read e he).span
  obtain ⟨texts, htexts, hcodes⟩ := mapM_compose_eq_ok hinserted.anchored blocks hplaced
  refine ⟨texts, htexts, ?_⟩
  have hrender : renderTemplate ⟨nodes, none, none⟩ source = .ok ⟨none, blocks, final⟩ := by
    refine bind_eq_ok_iff.2 ⟨(none, .ofText source), rfl, ?_⟩
    refine bind_eq_ok_iff.2 ⟨blocks, congrArg ofRender h.rendered, ?_⟩
    exact bind_eq_ok_iff.2 ⟨final, congrArg ofEdit h.resolved, rfl⟩
  exact bind_eq_ok_iff.2 ⟨_, congrArg ofTemplate h.read,
    bind_eq_ok_iff.2 ⟨_, hrender, congrArg ofEdit hcodes⟩⟩

/-- The text of an expression is the same where its source stands in a longer one. -/
theorem slice_inner (hg : g.Sound) (before after : Text) {nodes' : List Node}
    {blocks' : List (List Fragment)} {final' : EditBuffer}
    (h : Rendered g source nodes blocks final)
    (h' : Rendered g (before ++ source ++ after) nodes' blocks' final') {e e' : ScopedExpr}
    (he : e ∈ scopedExpressions .root nodes) (he' : e' ∈ scopedExpressions .root nodes')
    (hspan : e'.span = e.span.shift (byteLength before))
    (hinsertions : e'.insertions Config.empty.isHelper =
      Insertions.shift (byteLength before) (e.insertions Config.empty.isHelper)) {t : Text}
    (ht : final.slice e.span.start e.span.stop = .ok t) :
    final'.slice e'.span.start e'.span.stop = .ok t := by
  have hplaced := scopedExpressions_placed hg h.read
  have hplaced' := scopedExpressions_placed hg h'.read
  obtain ⟨alone, halone, -⟩ := Resolve.resolve_eq_ok (EditBuffer.anchored_ofText source)
    (hplaced e he) Config.empty.isHelper e.scope
  obtain ⟨alone', halone', -⟩ := Resolve.resolve_eq_ok (EditBuffer.anchored_ofText _)
    (hplaced' e' he') Config.empty.isHelper e'.scope
  -- Resolved alone, the expression makes the same edits in both sources, further on in the longer
  -- one.
  have hembedded : alone' = alone.embedded before after := by
    rw [recordAll_eq_ok halone', recordAll_eq_ok halone]
    have hright := Insertions.addAll_shift (byteLength before)
      (e.insertions Config.empty.isHelper) []
    rw [← hinsertions] at hright
    exact congrArg (EditBuffer.mk (before ++ source ++ after) [] · []) hright
  rw [slice_eq_alone (EditBuffer.orderly_ofText _) hplaced (scopedExpressions_ordered hg h.read)
    h.resolved he rfl halone] at ht
  rw [slice_eq_alone (EditBuffer.orderly_ofText _) hplaced' (scopedExpressions_ordered hg h'.read)
    h'.resolved he' rfl halone', hembedded, hspan]
  exact EditBuffer.slice_embedded before after ht

end Rendered

/-! ## Two sources -/

theorem mapM_fragmentText_map {b b' : EditBuffer} {φ : Fragment → Fragment}
    {fragments : List Fragment} {texts : List Text}
    (hφ : ∀ f ∈ fragments, ∀ t, fragmentText b f = .ok t → fragmentText b' (φ f) = .ok t)
    (h : fragments.mapM (fragmentText b) = .ok texts) :
    (fragments.map φ).mapM (fragmentText b') = .ok texts := by
  induction fragments generalizing texts with
  | nil => exact h
  | cons f rest ih =>
    obtain ⟨hf, hrest⟩ := List.forall_mem_cons.1 hφ
    rw [List.mapM_cons] at h
    obtain ⟨t, ht, h⟩ := bind_eq_ok_iff.1 h
    obtain ⟨more, hmore, h⟩ := bind_eq_ok_iff.1 h
    cases h
    exact mapM_fragmentText_cons (hf t ht) (ih hrest hmore)

/-- Statements whose fragments have the same texts in another buffer. -/
theorem mapM_mapM_fragmentText_map {b b' : EditBuffer} {φ : Fragment → Fragment}
    {blocks : List (List Fragment)} {texts : List (List Text)}
    (hφ : ∀ s ∈ blocks.flatMap spansOf, ∀ t, b.slice s.start s.stop = .ok t →
      fragmentText b' (φ (.slice s)) = .ok t)
    (htext : ∀ t, φ (.text t) = .text t)
    (h : blocks.mapM (List.mapM (fragmentText b)) = .ok texts) :
    (blocks.map (List.map φ)).mapM (List.mapM (fragmentText b')) = .ok texts := by
  induction blocks generalizing texts with
  | nil => exact h
  | cons block rest ih =>
    rw [List.flatMap_cons] at hφ
    rw [List.mapM_cons] at h
    obtain ⟨first, hfirst, h⟩ := bind_eq_ok_iff.1 h
    obtain ⟨more, hmore, h⟩ := bind_eq_ok_iff.1 h
    cases h
    rw [List.map_cons, List.mapM_cons]
    refine bind_eq_ok_iff.2 ⟨first, mapM_fragmentText_map ?_ hfirst, bind_eq_ok_iff.2
      ⟨more, ih (fun s hs => hφ s (List.mem_append_right _ hs)) hmore, rfl⟩⟩
    intro f hf t ht
    cases f with
    | text data =>
      rw [htext]
      exact ht
    | slice range =>
      have hrange : range ∈ spansOf block := List.mem_filterMap.2 ⟨_, hf, rfl⟩
      exact hφ range (List.mem_append_left _ hrange) t ht

theorem ScopedExpr.insertions_shift (isHelper : Text → Bool) (k : Nat) (e : ScopedExpr) :
    (e.shift k).insertions isHelper = Insertions.shift k (e.insertions isHelper) := by
  rw [insertions, ScopedExpr.shift, Resolve.exprOutline_shift, Resolve.insertionsOfAll_shift]
  rfl

theorem ScopedExpr.span_shift (k : Nat) (e : ScopedExpr) : (e.shift k).span = e.span.shift k :=
  Expr.span_shift k e.expr

theorem Insertions.shift_zero (l : Insertions) : l.shift 0 = l :=
  List.map_id' l

/-- The statements of a template behind which another one stands, and then those of the other. -/
theorem statementTexts_append (hg : g.Sound) {s₁ s₂ : Text} {nodes₁ nodes₂ : List Node}
    (h₁ : readTemplate g s₁ = .ok ⟨nodes₁, none, none⟩)
    (h₂ : readTemplate g s₂ = .ok ⟨nodes₂, none, none⟩)
    (h : readTemplate g (s₁ ++ s₂) =
      .ok ⟨nodes₁ ++ nodes₂.map (Node.shift (byteLength s₁)), none, none⟩) :
    ∃ texts₁ texts₂, statementTexts g s₁ = .ok texts₁ ∧ statementTexts g s₂ = .ok texts₂ ∧
      statementTexts g (s₁ ++ s₂) = .ok (texts₁ ++ texts₂) := by
  obtain ⟨blocks₁, final₁, hr₁⟩ := exists_rendered hg h₁
  obtain ⟨blocks₂, final₂, hr₂⟩ := exists_rendered hg h₂
  obtain ⟨blocks, final, hr⟩ := exists_rendered hg h
  obtain ⟨texts₁, htexts₁, hcodes₁⟩ := hr₁.exists_texts hg
  obtain ⟨texts₂, htexts₂, hcodes₂⟩ := hr₂.exists_texts hg
  obtain ⟨texts, htexts, hcodes⟩ := hr.exists_texts hg
  refine ⟨_, _, hcodes₁, hcodes₂, ?_⟩
  -- The statements of the whole are those of its parts.
  have hblocks : blocks = blocks₁ ++ blocks₂.map (List.map (Fragment.shift (byteLength s₁))) := by
    have happend := hr.rendered
    rw [renderBlocks, List.mapM_append] at happend
    obtain ⟨b₁, hb₁, happend⟩ := bind_eq_ok_iff.1 happend
    obtain ⟨b₂, hb₂, happend⟩ := bind_eq_ok_iff.1 happend
    cases happend
    cases hb₁.symm.trans hr₁.rendered
    cases hb₂.symm.trans (renderBlocks_shift (byteLength s₁) hr₂.rendered)
    rfl
  have hexprs : scopedExpressions .root (nodes₁ ++ nodes₂.map (Node.shift (byteLength s₁))) =
      scopedExpressions .root nodes₁ ++
        (scopedExpressions .root nodes₂).map (ScopedExpr.shift (byteLength s₁)) := by
    rw [scopedExpressions_append, scopedExpressions_shift]
  -- Of the first source nothing moves, and the whole goes on behind it.
  have hfirst : (blocks₁.map (List.map id)).mapM (List.mapM (fragmentText final)) =
      .ok texts₁ := by
    refine mapM_mapM_fragmentText_map ?_ (fun _ => rfl) htexts₁
    intro s hs t ht
    rw [renderBlocks_spans Scope.root hr₁.rendered] at hs
    obtain ⟨e, he, rfl⟩ := List.mem_map.1 hs
    have hmem :
        e ∈ scopedExpressions .root (nodes₁ ++ nodes₂.map (Node.shift (byteLength s₁))) := by
      rw [hexprs]
      exact List.mem_append_left _ he
    exact hr₁.slice_inner hg [] s₂ hr he hmem rfl (Insertions.shift_zero _).symm ht
  -- The second source stands behind the first.
  have hsecond : (blocks₂.map (List.map (Fragment.shift (byteLength s₁)))).mapM
      (List.mapM (fragmentText final)) = .ok texts₂ := by
    refine mapM_mapM_fragmentText_map ?_ (fun _ => rfl) htexts₂
    intro s hs t ht
    rw [renderBlocks_spans Scope.root hr₂.rendered] at hs
    obtain ⟨e, he, rfl⟩ := List.mem_map.1 hs
    have hmem : e.shift (byteLength s₁) ∈
        scopedExpressions .root (nodes₁ ++ nodes₂.map (Node.shift (byteLength s₁))) := by
      rw [hexprs]
      exact List.mem_append_right _ (List.mem_map_of_mem he)
    rw [← List.append_nil (s₁ ++ s₂)] at hr
    have hslice := hr₂.slice_inner hg s₁ [] hr he hmem (e.span_shift _) (e.insertions_shift _ _) ht
    rw [e.span_shift] at hslice
    exact hslice
  rw [List.map_id_fun, List.map_id] at hfirst
  have hall : blocks.mapM (List.mapM (fragmentText final)) = .ok (texts₁ ++ texts₂) := by
    rw [hblocks, List.mapM_append]
    exact bind_eq_ok_iff.2 ⟨_, hfirst, bind_eq_ok_iff.2 ⟨_, hsecond, rfl⟩⟩
  cases htexts.symm.trans hall
  rw [hcodes, List.map_append]

theorem Script.Grammar.names_shifts : Grammar.names.Shifts := by
  intro text pos k
  simp only [Grammar.names]
  split
  · rfl
  · simp only [Option.map_some, Expr.shift, Ident.shift, Span.shift, Nat.add_right_comm _ k]

/-- Two sources without scripts and styles, of which the first is empty or does not end with a plain
text, are read and rendered one by one: the nodes of the whole are those of the first and those of
the second, moved by the length of the first, and so are the texts of its statements. -/
theorem readTemplate_concat {s₁ s₂ : Text} {t₁ t₂ : Template} (hshifts : g.Shifts)
    (h₁ : readTemplate g s₁ = .ok t₁) (h₂ : readTemplate g s₂ = .ok t₂)
    (hbare₁ : t₁.script = none ∧ t₁.style = none) (hbare₂ : t₂.script = none ∧ t₂.style = none)
    (hlast : s₁ = [] ∨ ∀ n ∈ t₁.nodes.getLast?, n.isPlainText = false) :
    readTemplate g (s₁ ++ s₂) =
        .ok ⟨t₁.nodes ++ t₂.nodes.map (Node.shift (byteLength s₁)), none, none⟩ ∧
      (g.Sound → ∃ texts₁ texts₂, statementTexts g s₁ = .ok texts₁ ∧
        statementTexts g s₂ = .ok texts₂ ∧
        statementTexts g (s₁ ++ s₂) = .ok (texts₁ ++ texts₂)) := by
  obtain ⟨nodes₁, script₁, style₁⟩ := t₁
  obtain ⟨nodes₂, script₂, style₂⟩ := t₂
  obtain ⟨rfl, rfl⟩ := hbare₁
  obtain ⟨rfl, rfl⟩ := hbare₂
  have hclosed : EndsClosed nodes₁ := by
    rcases hlast with rfl | hlast
    · -- An empty source has no nodes.
      cases h₁
      exact nofun
    · exact hlast
  have hread := readTemplate_append hshifts h₁ h₂ hclosed
  exact ⟨hread, fun hg => statementTexts_append hg h₁ h₂ hread⟩

/-- A list whose items are rendered, and a comment at the end. -/
def listedRows : Text :=
  ("<ul id=\"é\x7b\x7bk\x7d\x7d\">\x7b\x7b#each rows as row\x7d\x7d" ++
    "\x7b\x7brow\x7d\x7d\x7b\x7bk\x7d\x7d\x7b\x7b/each\x7d\x7d</ul><!--a-->").toList

/-- A text, and a tag under a condition. -/
def totalBelow : Text :=
  ("b \x7b\x7b#if row\x7d\x7d<br>\x7b\x7b total \x7d\x7d\x7b\x7b/if\x7d\x7d").toList

theorem readTemplate_concat_listedRows : ∃ t₁ t₂, readTemplate .names listedRows = .ok t₁ ∧
    readTemplate .names totalBelow = .ok t₂ ∧ t₂.nodes.map Node.span = [⟨0, 2⟩, ⟨2, 35⟩] ∧
    readTemplate .names (listedRows ++ totalBelow) =
      .ok ⟨t₁.nodes ++ t₂.nodes.map (Node.shift (byteLength listedRows)), none, none⟩ ∧
    ∃ texts₁ texts₂, statementTexts .names listedRows = .ok texts₁ ∧
      statementTexts .names totalBelow = .ok texts₂ ∧
      statementTexts .names (listedRows ++ totalBelow) = .ok (texts₁ ++ texts₂) := by
  have hread₁ : (readTemplate .names listedRows).toOption.map (fun t => (t.script.isNone,
      t.style.isNone, t.nodes.getLast?.all fun n => !n.isPlainText)) = some (true, true, true) := by
    decide +kernel
  have hread₂ : (readTemplate .names totalBelow).toOption.map (fun t => (t.script.isNone,
      t.style.isNone, t.nodes.map Node.span)) = some (true, true, [⟨0, 2⟩, ⟨2, 35⟩]) := by
    decide +kernel
  obtain ⟨t₁, ht₁, hshape₁⟩ := Option.map_eq_some_iff.1 hread₁
  obtain ⟨t₂, ht₂, hshape₂⟩ := Option.map_eq_some_iff.1 hread₂
  simp only [Prod.mk.injEq, Option.isNone_iff_eq_none] at hshape₁ hshape₂
  obtain ⟨hscript₁, hstyle₁, hlast⟩ := hshape₁
  obtain ⟨hscript₂, hstyle₂, hspans⟩ := hshape₂
  have ht₁ := toOption_eq_some_iff.1 ht₁
  have ht₂ := toOption_eq_some_iff.1 ht₂
  have hclosed : ∀ n ∈ t₁.nodes.getLast?, n.isPlainText = false := by
    intro n hn
    rw [Option.mem_def.1 hn] at hlast
    simpa using hlast
  obtain ⟨hread, htexts⟩ := readTemplate_concat Grammar.names_shifts ht₁ ht₂
    ⟨hscript₁, hstyle₁⟩ ⟨hscript₂, hstyle₂⟩ (.inr hclosed)
  exact ⟨t₁, t₂, ht₁, ht₂, hspans, hread, htexts Grammar.names_sound⟩

end TemplateCompiler
