import TemplateCompiler.Compile
import TemplateCompiler.Proofs.Component.Linking
import TemplateCompiler.Proofs.Grammar.Soundness
import TemplateCompiler.Proofs.Render.Slices
import TemplateCompiler.Proofs.Template.Expressions
import TemplateCompiler.Proofs.Template.Pointing
import TemplateCompiler.Proofs.Template.Violations

/-!
# Compilation never fails by a mistake of its own

With a grammar whose trees stand in their text, every edit that a compilation makes is accepted and
every range that it reads is there: a source compiles, or it fails with a fault of its template, its
script or its constructs.

## What this module delivers

* `resolve_eq_ok`, `resolveNodes_eq_ok`: references are resolved without a refused edit.
* `compose_eq_ok`: fragments whose ranges lie on character boundaries are composed.
* `compileWith_settles`, `compile_settles`: no failure of a compilation is internal.
* `compileWith_ok_or_fault`: the outcome of a compilation.
-/

set_option autoImplicit false

namespace TemplateCompiler

open Script

/-! ## References -/

namespace Resolve

mutual

/-- Text is only inserted in front of names. -/
theorem mem_insertions {isHelper : Text → Bool} {scope : Scope} {p : Insertion} :
    (o : Outline) → p ∈ insertions isHelper scope o → ∃ id ∈ o.names, p.1 = id.span.start
  | .reference id, h => by
    rw [insertions, referenceInsertion] at h
    split at h
    · cases h
    · rw [List.mem_singleton] at h
      exact ⟨id, List.mem_singleton_self id, by rw [h]⟩
  | .shorthand id, h => by
    rw [insertions, shorthandInsertion] at h
    split at h
    · cases h
    · rw [List.mem_singleton] at h
      exact ⟨id, List.mem_singleton_self id, by rw [h]⟩
  | .call root callee args, h => by
    rw [insertions] at h
    rw [Outline.names]
    cases hroot : helperRoot? isHelper root with
    | some id =>
      rw [hroot] at h
      rcases List.mem_cons.1 h with rfl | h
      · have hid : root = some id := by
          unfold helperRoot? at hroot
          split at hroot
          · split at hroot
            · cases hroot
              rfl
            · cases hroot
          · cases hroot
        exact ⟨id, by simp [hid], rfl⟩
      · obtain ⟨id', hid', hp⟩ := mem_insertionsOfAll args h
        exact ⟨id', by simp [hid'], hp⟩
    | none =>
      rw [hroot] at h
      rcases List.mem_append.1 h with h | h
      · obtain ⟨id', hid', hp⟩ := mem_insertionsOfAll callee h
        exact ⟨id', by simp [hid'], hp⟩
      · obtain ⟨id', hid', hp⟩ := mem_insertionsOfAll args h
        exact ⟨id', by simp [hid'], hp⟩
  | .scope _ inner, h => by
    rw [insertions] at h
    exact mem_insertionsOfAll inner h

theorem mem_insertionsOfAll {isHelper : Text → Bool} {scope : Scope} {p : Insertion} :
    (os : List Outline) → p ∈ insertionsOfAll isHelper scope os →
      ∃ id ∈ outlineNames os, p.1 = id.span.start
  | [], h => nomatch h
  | o :: os, h => by
    rw [insertionsOfAll] at h
    rw [outlineNames]
    rcases List.mem_append.1 h with h | h
    · obtain ⟨id, hid, hp⟩ := mem_insertions o h
      exact ⟨id, List.mem_append_left _ hid, hp⟩
    · obtain ⟨id, hid, hp⟩ := mem_insertionsOfAll os h
      exact ⟨id, List.mem_append_right _ hid, hp⟩

end

/-- The references of an expression that stands in the source are resolved. -/
theorem resolve_eq_ok {b : EditBuffer} (hb : b.Anchored) {e : Expr} (he : ExprPlaced b.source 0 e)
    (isHelper : Text → Bool) (scope : Scope) :
    ∃ b', resolve isHelper scope e b = .ok b' ∧ EditBuffer.Inserted b b' := by
  have hstep : ∀ (b : EditBuffer) (p : Insertion), b.Anchored →
      Text.isBoundary b.source p.1 = true →
      ∃ b', b.insertRight p.1 p.2 = .ok b' ∧ EditBuffer.Inserted b b' :=
    fun b p hb hp => hb.insertRight p.2 hp
  refine EditBuffer.Anchored.foldlM_insert (fun source p => Text.isBoundary source p.1 = true)
    hstep _ hb ?_
  intro p hp
  obtain ⟨id, hid, hstart⟩ := mem_insertionsOfAll _ hp
  obtain ⟨body, hbody⟩ := (he.names id hid).1
  rw [hstart]
  exact hbody.isBoundary_start

end Resolve

/-- The references of nodes whose expressions stand in the source are resolved. -/
theorem resolveNodes_eq_ok {b : EditBuffer} (hb : b.Anchored) {config : Config} {nodes : List Node}
    (hnodes : ∀ e ∈ scopedExpressions Scope.root nodes, ExprPlaced b.source 0 e.expr) :
    ∃ b', resolveNodes config nodes b = .ok b' ∧ EditBuffer.Inserted b b' :=
  EditBuffer.Anchored.foldlM_insert (fun source (e : ScopedExpr) => ExprPlaced source 0 e.expr)
    (fun _ e hb he => Resolve.resolve_eq_ok hb he config.isHelper e.scope) _ hb hnodes

/-! ## Composition -/

/-- Fragments whose ranges lie on character boundaries are composed. -/
theorem composeFrom_eq_ok {b : EditBuffer} (hb : b.Anchored) (fragments : List Fragment)
    (hspans : ∀ s ∈ spansOf fragments, Placed b.source 0 s) {starts : Array Nat} (offset : Nat)
    (pos : Position) : ∃ out, composeFrom b starts offset pos fragments = .ok out := by
  induction fragments generalizing offset pos with
  | nil => exact ⟨_, rfl⟩
  | cons f rest ih =>
    cases f with
    | text t =>
      obtain ⟨out, hout⟩ := ih hspans (offset + Text.byteLength t) (pos.advance t)
      exact ⟨_, bind_eq_ok_iff.2 ⟨out, hout, rfl⟩⟩
    | slice range =>
      have hrest : ∀ s ∈ spansOf rest, Placed b.source 0 s :=
        fun s hs => hspans s (List.mem_cons_of_mem _ hs)
      obtain ⟨body, hbody⟩ := hspans range List.mem_cons_self
      obtain ⟨t, ht⟩ := hb.exists_slice hbody.isBoundary_start hbody.isBoundary_stop
        hbody.start_le_stop
      obtain ⟨out, hout⟩ := ih hrest (offset + Text.byteLength t) (pos.advance t)
      exact ⟨_, bind_eq_ok_iff.2 ⟨t, ht, bind_eq_ok_iff.2 ⟨out, hout, rfl⟩⟩⟩

theorem spansOf_renderFunction (hasData : Bool) (blocks : List (List Fragment)) :
    spansOf (renderFunction hasData blocks) = blocks.flatMap spansOf := by
  have hblock : ∀ block, spansOf (blockLines block) = spansOf block := by
    intro block
    simp [blockLines]
  cases hasData <;> simp [renderFunction, dataStatement, spansOf_flatMap, hblock]

theorem spansOf_hoistedFragments (statements : List Text) :
    spansOf (hoistedFragments statements) = [] := by
  rw [hoistedFragments, spansOf_append, spansOf_flatMap]
  cases statements with
  | nil => rfl
  | cons s rest => simp

/-- The generated module refers to the body of the script and to what its statements refer to. -/
theorem spansOf_moduleFragments (script : Option ComponentScript) (blocks : List (List Fragment)) :
    spansOf (moduleFragments script blocks) =
      (script.map ComponentScript.body).toList ++ blocks.flatMap spansOf := by
  cases script with
  | none => exact spansOf_renderFunction false blocks
  | some script =>
    rw [moduleFragments, spansOf_append, spansOf_renderFunction, scriptFragments]
    simp [spansOf_hoistedFragments]

/-! ## Compilation -/

theorem expressionAt_eq_ok {g : Grammar} {c : Cursor} {e : Expr} (h : expressionAt g c = .ok e) :
    g.expression c.rest c.pos = some e := by
  unfold expressionAt at h
  split at h
  · cases h
  · rename_i hread
    split at h
    · cases h
    · split at h
      · cases h
      · split at h
        · cases h
          exact hread
        · cases h

/-- Expressions that are read from a source stand in it. -/
theorem ExprsRead.placed {g : Grammar} (hg : g.Sound) {source : Text} {lo hi : Nat}
    {es : List Expr} (h : ExprsRead g source lo hi es) : ∀ e ∈ es, ExprPlaced source 0 e := by
  induction h with
  | nil => exact fun e he => nomatch he
  | @cons _ _ _ c e es hc _ _ he _ ih =>
    intro e' he'
    rcases List.mem_cons.1 he' with rfl | he'
    · obtain ⟨before, after, hsource, hpos⟩ := hc
      have hplaced := hg.expression _ _ _ (expressionAt_eq_ok he)
      rw [← hpos, ← Nat.zero_add (Text.byteLength before)] at hplaced
      rw [hsource]
      exact hplaced.inner
    · exact ih e' he'

theorem settles_ofTemplate {α : Type} {x : Except TemplateError α} (hx : NeverStray x) :
    Settles CompileError.IsInternal (fun a => x = .ok a) (ofTemplate x) := by
  cases x with
  | error e => exact hx
  | ok a => exact Settles.of_ok rfl rfl

theorem settles_ofScript {α : Type} (x : Except ScriptError α) :
    Settles CompileError.IsInternal (fun _ => True) (ofScript x) := by
  cases x with
  | error e => exact id
  | ok a => exact Settles.of_ok rfl trivial

theorem settles_ofRender {α : Type} (x : Except RenderError α) :
    Settles CompileError.IsInternal (fun a => x = .ok a) (ofRender x) := by
  cases x with
  | error e => exact id
  | ok a => exact Settles.of_ok rfl rfl

/-- A script that is read from a source stands in it, with its items one after the other. -/
theorem ScriptRead.placed {g : Grammar} (hg : g.Sound) {source : Text} {block : ScriptBlock}
    (h : ScriptRead g source block) :
    ModulePlaced source 0 block.content ∧ Placed source 0 block.span ∧
      ∀ item ∈ block.content.items,
        block.span.start ≤ (itemSpan item).start ∧ (itemSpan item).stop ≤ block.span.stop := by
  obtain ⟨content, hstands, hm⟩ := h
  have hplaced := hg.module _ _ _ hm
  refine ⟨⟨fun item hitem => ?_, hplaced.ordered⟩, ⟨content, hstands⟩, fun item hitem => ?_⟩
  · have hitem := hplaced.items item hitem
    obtain ⟨before, after, hsource, hstart, -⟩ := hstands
    rw [hstart] at hitem
    rw [hsource]
    exact hitem.inner
  · -- The items lie in the text of the script, which lies in the source.
    obtain ⟨body, hbody, -⟩ := (hplaced.items item hitem).span
    obtain ⟨_, _, -, -, hstop⟩ := hstands
    have hle := hbody.stop_le
    exact ⟨hbody.pos_le_start, by omega⟩

/-- The script of a template that is read is linked without a refused edit. -/
theorem linkTemplateScript_settles {g : Grammar} (hg : g.Sound) {source : Text} {t : Template}
    (hscript : ∀ b, t.script = some b → ScriptRead g source b) :
    Settles CompileError.IsInternal
      (fun r => (∀ s, r.1 = some s → Placed source 0 s.body) ∧ r.2.source = source ∧
        r.2.Anchored) (linkTemplateScript t (.ofText source)) := by
  have hb := EditBuffer.anchored_ofText source
  unfold linkTemplateScript
  cases ht : t.script with
  | none => exact Settles.of_ok rfl ⟨fun s hs => (nomatch hs), rfl, hb⟩
  | some block =>
    obtain ⟨hmodule, hspan, hbounds⟩ := (hscript block ht).placed hg
    refine (linkScript_settles hb (EditBuffer.clear_ofText source) hmodule hspan hbounds).bind ?_
    rintro ⟨script, edits⟩ ⟨hbody, hsource, hedits⟩
    refine ⟨?_, hsource, hedits⟩
    intro s hs
    cases hs
    rw [hbody]
    exact hspan

/-- A template that is read is rendered without a refused edit, to fragments whose ranges lie in the
source. -/
theorem renderTemplate_settles {g : Grammar} (hg : g.Sound) {source : Text} {t : Template}
    (ht : readTemplate g source = .ok t) :
    Settles CompileError.IsInternal
      (fun r => r.edits.Anchored ∧
        ∀ s ∈ spansOf (moduleFragments r.script r.blocks), Placed r.edits.source 0 s)
      (renderTemplate t source) := by
  obtain ⟨hexprs, hscript⟩ := readTemplate_exprs ht Scope.root
  have hplaced : ∀ e ∈ scopedExpressions Scope.root t.nodes, ExprPlaced source 0 e.expr :=
    fun e he => hexprs.placed hg e.expr (List.mem_map_of_mem he)
  refine (linkTemplateScript_settles hg hscript).bind ?_
  rintro ⟨script, edits⟩ ⟨hbody, hsource, hedits⟩
  refine (settles_ofRender _).bind fun blocks hblocks => ?_
  obtain ⟨edits', hresolve, hinserted⟩ := resolveNodes_eq_ok hedits (hsource.symm ▸ hplaced)
  refine (settles_ofEdit hresolve hinserted).bind fun edits'' hinserted => ?_
  have hsource'' : edits''.source = source := hinserted.source.trans hsource
  refine Settles.of_ok rfl ⟨hinserted.anchored, ?_⟩
  intro s hs
  rw [hsource'']
  rw [spansOf_moduleFragments, renderBlocks_spans Scope.root hblocks] at hs
  rcases List.mem_append.1 hs with hs | hs
  · cases script with
    | none => cases hs
    | some script =>
      rw [List.mem_singleton.1 hs]
      exact hbody script rfl
  · obtain ⟨e, he, rfl⟩ := List.mem_map.1 hs
    exact (hplaced e he).span

/-- A rule that is broken is no stray expression. -/
theorem validate_neverStray (t : Template) : NeverStray (validate t) := by
  cases h : validate t with
  | ok => trivial
  | error e =>
    intro hstray
    rcases (validate_reports t e).1 h with ⟨before, n, after, -, -, hn⟩ | ⟨-, _, _, -, -, rfl⟩
    · cases hn <;> cases hstray
    · cases hstray

/-- A source compiles, or it fails with a fault of its template, of its script or of its constructs:
no edit is refused, no range is read outside of the source or inside of a character, and no
expression lies outside of its text. -/
theorem compileWith_settles {g : Grammar} (hg : g.Sound) (source : Text) :
    Settles CompileError.IsInternal (fun _ => True) (compileWith g source) := by
  refine (settles_ofTemplate (readTemplate_neverStray hg source)).bind fun t ht => ?_
  refine (settles_ofTemplate (validate_neverStray t)).bind fun _ _ => ?_
  refine (settles_ofScript (rejectStyle t)).bind fun _ _ => ?_
  refine (renderTemplate_settles hg ht).bind fun r hr => ?_
  obtain ⟨out, hout⟩ := composeFrom_eq_ok hr.1 _ hr.2 0 ⟨0, 0⟩
  exact settles_ofEdit hout trivial

/-- With the grammar of scripts nothing is assumed. -/
theorem compile_settles (source : Text) :
    Settles CompileError.IsInternal (fun _ => True) (compile source) :=
  compileWith_settles Grammar.standard_sound source

/-- An import and exports that touch each other, and a helper in a block. -/
def touchingItems : Text :=
  ("<script>import b from 'b';export \x7b b as c \x7dexport default \x7b helpers: \x7b b \x7d \x7d" ++
    "</script>\x7b\x7b#each rows as row, i\x7d\x7d<p title=\"ü \x7b\x7bb(row)\x7d\x7d\">" ++
    "\x7b\x7bi\x7d\x7d</p>\x7b\x7b/each\x7d\x7d").toList

end TemplateCompiler
