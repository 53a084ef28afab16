import TemplateCompiler.Proofs.Component.Configuration
import TemplateCompiler.Proofs.Script.Placed

/-!
# Where a refused configuration is reported

A default export that is refused is reported at the span of some part of it: the whole expression, a
property, a key or what is spread, in the literal itself or in the literal that a property holds. So
if the grammar of scripts places all of these in the text that was read, every such report is there.

## What this module delivers

* `literalSpans`: the spans of the parts of an object literal.
* `Grammar.PlacesSpans`: a grammar whose spans lie in the text that was read.
* `Refused.mem_literalSpans`: why a default export is refused is told at one of its spans.
-/

set_option autoImplicit false

namespace TemplateCompiler.Script

/-! ## Spans -/

mutual

/-- The spans of an expression and, if it is an object literal, of the parts of it. The literal may
stand in parentheses. -/
def literalSpans : Expr → List Span
  | .paren span inner => span :: literalSpans inner
  | .object span props _ => span :: propertiesSpans props
  | e => [e.span]

/-- The spans of some properties and of the parts of them. -/
def propertiesSpans : List Property → List Span
  | [] => []
  | p :: rest => propertySpans p ++ propertiesSpans rest

/-- The spans of a property, of its key, and of its value or what is spread. -/
def propertySpans : Property → List Span
  | .shorthand id => [id.span]
  | .shorthandDefault id value => [⟨id.span.start, value.span.stop⟩]
  | .keyValue key value =>
    ⟨key.span.start, value.span.stop⟩ :: key.span :: literalSpans value
  | .method key span _ _ => [⟨key.span.start, span.stop⟩, key.span]
  | .getter key span _ => [⟨key.span.start, span.stop⟩, key.span]
  | .setter key span _ _ => [⟨key.span.start, span.stop⟩, key.span]
  | .spread span arg => [span, arg.span]

end

/-! ## Grammars that place their spans -/

/-- The spans of a module that a failure may be reported at: those of its items and of the parts of
its default export. -/
def reportedSpans (m : Module) : List Span :=
  m.items.flatMap fun
    | .exportDefault span value => span :: literalSpans value
    | item => [itemSpan item]

/-- A grammar whose spans lie in the text that was read, on character boundaries. -/
structure Grammar.PlacesSpans (g : Grammar) : Prop where
  expression : ∀ text pos e, g.expression text pos = some e → Placed text pos e.span
  module : ∀ text pos m, g.module text pos = some m → ∀ s ∈ reportedSpans m, Placed text pos s

/-! ## Reported spans -/

theorem itemSpan_mem_reportedSpans {m : Module} {item : ModuleItem} (h : item ∈ m.items) :
    itemSpan item ∈ reportedSpans m := by
  apply List.mem_flatMap.2 ⟨item, h, ?_⟩
  cases item with
  | exportDefault => exact List.mem_cons_self
  | imports | exportDefaultDecl | exportDecl | exportNames | exportAll | statement =>
    exact List.mem_singleton_self _

theorem literalSpans_subset_reportedSpans {m : Module} {span s : Span} {value : Expr}
    (h : .exportDefault span value ∈ m.items) (hs : s ∈ literalSpans value) : s ∈ reportedSpans m :=
  List.mem_flatMap.2 ⟨_, h, List.mem_cons_of_mem _ hs⟩

attribute [local simp] literalSpans propertiesSpans propertySpans

theorem span_mem_literalSpans (e : Expr) : e.span ∈ literalSpans e := by
  cases e <;> simp [Expr.span]

theorem span_mem_propertySpans (p : Property) : p.span ∈ propertySpans p := by
  cases p <;> simp [Property.span]

theorem mem_propertiesSpans {props : List Property} {p : Property} {s : Span} (hp : p ∈ props)
    (hs : s ∈ propertySpans p) : s ∈ propertiesSpans props := by
  induction props with
  | nil => cases hp
  | cons q rest ih =>
    rw [propertiesSpans]
    rcases List.mem_cons.1 hp with rfl | hp
    · exact List.mem_append_left _ hs
    · exact List.mem_append_right _ (ih hp)

end TemplateCompiler.Script

namespace TemplateCompiler

open Script

variable {e : Expr} {props : List Property} {p : Property} {span : Span}

/-- The spans of the properties of a literal are spans of it, also under parentheses. -/
theorem ObjectWith.mem_literalSpans (h : ObjectWith e props) (hp : p ∈ props)
    (hspan : span ∈ propertySpans p) : span ∈ literalSpans e := by
  induction h with
  | object =>
    rw [literalSpans]
    exact List.mem_cons_of_mem _ (mem_propertiesSpans hp hspan)
  | paren _ ih =>
    rw [literalSpans]
    exact List.mem_cons_of_mem _ (ih hp)

/-- A property without a name is reported at its key, or at what is spread. -/
theorem Unnamed.mem_propertySpans (h : Unnamed p span) : span ∈ propertySpans p := by
  cases h with
  | spread => simp [propertySpans]
  | computed hkey =>
    cases p with
    | keyValue | method | getter | setter =>
      cases hkey
      simp [propertySpans, Key.span]
    | shorthand | shorthandDefault | spread => cases hkey

theorem NoPlainObject.mem_literalSpans {otherwise err : ScriptError}
    (h : NoPlainObject e otherwise err) : err = otherwise ∨ err.span ∈ literalSpans e := by
  cases h with
  | noObject => exact .inl rfl
  | unnamed he hprops =>
    obtain ⟨before, p, after, rfl, -, hp⟩ := hprops
    exact .inr (he.mem_literalSpans (by simp) hp.mem_propertySpans)

/-- A value of a wrong shape is reported at its property, or at a part of the literal that it is. -/
theorem PropertyFault.mem_propertySpans {err : ScriptError} (h : PropertyFault p err) :
    err.span ∈ propertySpans p := by
  obtain ⟨name, value, hdefines, hvalue⟩ := h
  cases hvalue with
  | data => exact span_mem_propertySpans p
  | map hname hplain =>
    rcases hplain.mem_literalSpans with rfl | hspan
    · exact span_mem_propertySpans p
    · cases hdefines with
      | keyValue =>
        rw [propertySpans]
        exact List.mem_cons_of_mem _ (List.mem_cons_of_mem _ hspan)
      | shorthand | method =>
        -- A name or a function is no literal to look into.
        cases hplain with
        | noObject => exact span_mem_propertySpans _
        | unnamed hobject => cases hobject

/-- Why a default export is refused is told at one of its spans. -/
theorem Refused.mem_literalSpans {err : ScriptError} (h : Refused e err) :
    err.span ∈ literalSpans e := by
  cases h with
  | noPlainObject h =>
    rcases h.mem_literalSpans with rfl | hspan
    · exact span_mem_literalSpans e
    · exact hspan
  | misshapen he _ hprops =>
    obtain ⟨before, p, after, rfl, -, hp⟩ := hprops
    exact he.mem_literalSpans (by simp) hp.mem_propertySpans

end TemplateCompiler
