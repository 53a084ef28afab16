import TemplateCompiler.Component.Exports
import TemplateCompiler.Proofs.Text.Cut
import TemplateCompiler.Resolve.Outline
import TemplateCompiler.Script.Grammar

/-!
# Trees that stand in their text

What the rest of the compiler relies on when it takes over a tree from the grammar of scripts: spans
lie inside of the text that was read and on character boundaries, names lie inside of the expression
they belong to, the items of a module follow each other, and the span of an item has no white space
at its ends.

## What this module delivers

* `Placed`, `Trimmed`: spans of a text, and texts without white space at their ends.
* `ExprPlaced`, `ItemPlaced`, `ModulePlaced`: trees that stand in their text.
* `Grammar.Sound`: a grammar that reads such trees only.
-/

set_option autoImplicit false

/-! ## Names in outlines -/

namespace TemplateCompiler.Resolve

open Script

mutual

/-- The names that an outline mentions. -/
def Outline.names : Outline → List Ident
  | .reference id => [id]
  | .shorthand id => [id]
  | .call root callee args => root.toList ++ outlineNames callee ++ outlineNames args
  | .scope _ inner => outlineNames inner

/-- The names that some outlines mention. -/
def outlineNames : List Outline → List Ident
  | [] => []
  | o :: os => o.names ++ outlineNames os

end

end TemplateCompiler.Resolve

namespace TemplateCompiler.Script

open Resolve

/-! ## Spans -/

/-- A span inside of a text that starts at an offset, with both ends on character boundaries. -/
def Placed (text : Text) (pos : Nat) (span : Span) : Prop :=
  ∃ body, Text.StandsAt text pos span body

/-- A text that is not empty and has no white space at its ends. -/
structure Trimmed (t : Text) : Prop where
  ne_nil : t ≠ []
  head : ∀ c, t.head? = some c → Text.isScriptBlank c = false
  last : ∀ c, t.getLast? = some c → Text.isScriptBlank c = false

theorem Placed.inner {before text after : Text} {pos : Nat} {span : Span}
    (h : Placed text (pos + Text.byteLength before) span) :
    Placed (before ++ text ++ after) pos span := by
  obtain ⟨body, hbody⟩ := h
  exact ⟨body, hbody.inner⟩

/-! ## Expressions -/

/-- An expression that stands in a text, with the names it refers to inside of it. -/
structure ExprPlaced (text : Text) (pos : Nat) (e : Expr) : Prop where
  span : Placed text pos e.span
  names : ∀ id ∈ outlineNames (exprOutline e),
    Placed text pos id.span ∧ e.span.start ≤ id.span.start ∧ id.span.stop ≤ e.span.stop

theorem ExprPlaced.inner {before text after : Text} {pos : Nat} {e : Expr}
    (h : ExprPlaced text (pos + Text.byteLength before) e) :
    ExprPlaced (before ++ text ++ after) pos e :=
  ⟨h.span.inner, fun id hid => ⟨(h.names id hid).1.inner, (h.names id hid).2⟩⟩

/-! ## Modules -/

/-- Where the declaration or the value that an item exports starts. -/
def exportedStart? : ModuleItem → Option Nat
  | .exportDecl _ declStart _ => some declStart
  | .exportDefault _ value => some value.span.start
  | _ => none

/-- An item that stands in a text, with what it exports inside of it. -/
structure ItemPlaced (text : Text) (pos : Nat) (item : ModuleItem) : Prop where
  span : ∃ body, Text.StandsAt text pos (itemSpan item) body ∧ Trimmed body
  exported : ∀ start, exportedStart? item = some start →
    Placed text pos ⟨start, (itemSpan item).stop⟩ ∧ (itemSpan item).start ≤ start

theorem ItemPlaced.inner {before text after : Text} {pos : Nat} {item : ModuleItem}
    (h : ItemPlaced text (pos + Text.byteLength before) item) :
    ItemPlaced (before ++ text ++ after) pos item := by
  obtain ⟨body, hbody, htrim⟩ := h.span
  exact ⟨⟨body, hbody.inner, htrim⟩,
    fun start hstart => ⟨(h.exported start hstart).1.inner, (h.exported start hstart).2⟩⟩

/-- A module whose items stand in a text one after the other. -/
structure ModulePlaced (text : Text) (pos : Nat) (m : Module) : Prop where
  items : ∀ item ∈ m.items, ItemPlaced text pos item
  ordered : m.items.Pairwise fun a b => (itemSpan a).stop ≤ (itemSpan b).start

/-! ## Grammars -/

/-- A grammar whose trees stand in the text they were read from. -/
structure Grammar.Sound (g : Grammar) : Prop where
  expression : ∀ text pos e, g.expression text pos = some e → ExprPlaced text pos e
  module : ∀ text pos m, g.module text pos = some m → ModulePlaced text pos m

end TemplateCompiler.Script
