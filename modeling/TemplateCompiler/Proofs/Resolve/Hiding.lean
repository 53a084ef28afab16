import TemplateCompiler.Proofs.Resolve.Sites

/-!
# A scope only hides

Resolution takes a scope, the names that the blocks around an expression bind. Nothing else about
the scope matters than the names it holds, and all that it does is to leave sites alone: what is
inserted in a scope is what is inserted in the empty one, without the references and shorthands
whose names the scope holds. A helper that is called is never hidden.

## What this module delivers

* `Snippet.freeSites`: the sites that the code itself does not hide.
* `insertionsOfAll_eq_visible`: what a scope leaves of their insertions.
* `resolve_hides`: resolution in a scope, in two scopes of the same names, and in a larger scope.
-/

set_option autoImplicit false

namespace TemplateCompiler

/-- The names of all layers. -/
def Scope.names (s : Scope) : List Text := s.layers.flatten

theorem Scope.contains_eq_true_iff {s : Scope} {x : Text} : s.contains x = true ↔ x ∈ s.names := by
  simp [Scope.contains, Scope.names]

namespace Resolve

open Script

/-! ## What hides a site -/

namespace Site

/-- What a site gets where nothing hides it. -/
def insertion (s : Site) : Insertion :=
  (s.id.span.start, s.lead ++ s.accessor)

/-- A binder that resolution sees between the code and the site binds the name of the site. -/
def HiddenInside (s : Site) : Prop :=
  s.role ≠ .callee ∧ ∃ b ∈ s.seen, b.Binds s.id.name

/-- The scope of the whole code hides the site. -/
def HiddenBy (scope : Scope) (s : Site) : Prop :=
  s.role ≠ .callee ∧ s.id.name ∈ scope.names

instance (s : Site) : Decidable s.HiddenInside :=
  decidable_of_iff ((s.role != .callee && s.seen.any fun b => b.names.contains s.id.name) = true) <| by
    simp [HiddenInside, Binder.mem_names_iff]

instance (scope : Scope) (s : Site) : Decidable (s.HiddenBy scope) :=
  inferInstanceAs (Decidable (_ ∧ _))

/-- A site is hidden from inside or from outside, or it gets its insertion. -/
theorem insertion?_eq (scope : Scope) (s : Site) :
    s.insertion? scope =
      if s.HiddenInside ∨ s.HiddenBy scope then none else some s.insertion := by
  have hhidden : s.HiddenInside ∨ s.HiddenBy scope ↔
      s.role ≠ .callee ∧
        ((∃ b ∈ s.seen, b.Binds s.id.name) ∨ scope.contains s.id.name = true) := by
    rw [HiddenInside, HiddenBy, ← and_or_left, Scope.contains_eq_true_iff]
  simp only [insertion?, insertion, hhidden]

theorem HiddenBy.mono {scope scope' : Scope} {s : Site} (h : s.HiddenBy scope)
    (hnames : scope.names ⊆ scope'.names) : s.HiddenBy scope' :=
  ⟨h.1, hnames h.2⟩

theorem not_hiddenBy_root (s : Site) : ¬ s.HiddenBy .root := by
  rintro ⟨-, hmem⟩
  simp [Scope.names, Scope.root] at hmem

/-- A shorthand never gets the text of a helper, whatever its name is. -/
theorem insertion_eq_helpersAccessor_iff (s : Site) :
    s.insertion.2 = helpersAccessor ↔ s.role = .callee := by
  cases hrole : s.role with
  | reference =>
    have hdata : dataAccessor ≠ helpersAccessor := by decide
    simpa [insertion, lead, accessor, hrole] using hdata
  | callee => simp [insertion, lead, accessor, hrole]
  | shorthand =>
    -- the two texts end in different words
    have hends : s.id.name ++ ": ".toList ++ dataAccessor ≠ helpersAccessor := by
      intro h
      have hsplit : s.id.name ++ (": ".toList ++ dataAccessor) =
          "template.h".toList ++ "elpers.".toList := by rw [← List.append_assoc, h]; rfl
      exact absurd (List.append_inj_right' hsplit rfl) (by decide)
    simpa [insertion, lead, accessor, hrole] using hends

end Site

/-! ## The insertions of a scope -/

/-- The sites that the code itself does not hide. -/
def Snippet.freeSites (isHelper : Text → Bool) (s : Snippet) : List Site :=
  (s.sites isHelper).filter fun site => ¬ site.HiddenInside

/-- What a scope leaves of some sites. -/
def visible (scope : Scope) (sites : List Site) : List Site :=
  sites.filter fun site => ¬ site.HiddenBy scope

theorem visible_root (sites : List Site) : visible .root sites = sites := by
  rw [visible, List.filter_eq_self]
  intro site _
  simp [site.not_hiddenBy_root]

theorem visible_sublist {scope scope' : Scope} (hnames : scope.names ⊆ scope'.names)
    (sites : List Site) : (visible scope' sites).Sublist (visible scope sites) := by
  refine List.monotone_filter_right sites fun site hvisible => ?_
  simp only [decide_eq_true_eq] at hvisible ⊢
  exact fun hhidden => hvisible (hhidden.mono hnames)

theorem filterMap_insertion? (scope : Scope) (sites : List Site) :
    sites.filterMap (Site.insertion? scope) =
      (visible scope (sites.filter fun site => ¬ site.HiddenInside)).map Site.insertion := by
  induction sites with
  | nil => rfl
  | cons site sites ih =>
    rw [List.filterMap_cons, Site.insertion?_eq]
    by_cases hinside : site.HiddenInside
    · simpa [hinside] using ih
    · by_cases hby : site.HiddenBy scope
      · simpa [visible, hinside, hby] using ih
      · simpa [visible, hinside, hby] using ih

/-- In a scope an expression inserts what its free sites get, except for those that the scope
hides. -/
theorem insertionsOfAll_eq_visible (isHelper : Text → Bool) (scope : Scope) (e : Expr) :
    insertionsOfAll isHelper scope (exprOutline e) =
      (visible scope ((Snippet.expr e).freeSites isHelper)).map Site.insertion := by
  rw [Snippet.freeSites, ← filterMap_insertion?, ← Snippet.insertions_eq_sites]
  rfl

/-- The insertions for helpers are those of the called helpers. -/
theorem filter_helpers_visible (scope : Scope) (sites : List Site) :
    ((visible scope sites).map Site.insertion).filter (fun item => item.2 = helpersAccessor) =
      (sites.filter fun site => site.role = .callee).map Site.insertion := by
  rw [List.filter_map, visible, List.filter_filter]
  congr 1
  refine List.filter_congr fun site _ => ?_
  simp only [Function.comp_apply, Site.insertion_eq_helpersAccessor_iff, Site.HiddenBy]
  by_cases hrole : site.role = .callee <;> simp [hrole]

/-- A scope only hides. Under the empty scope resolution records what the free sites of the
expression get; under any other, that without the references and shorthands whose names the scope
holds. The insertions for helpers are the same under every scope. So scopes that hold the same names
have the same effect on every buffer, and a scope that holds more names adds no insertion. -/
theorem resolve_hides (isHelper : Text → Bool) (e : Expr) :
    (∀ edits, resolve isHelper .root e edits =
      recordAll edits (((Snippet.expr e).freeSites isHelper).map Site.insertion)) ∧
    (∀ scope edits, resolve isHelper scope e edits =
      recordAll edits ((visible scope ((Snippet.expr e).freeSites isHelper)).map Site.insertion)) ∧
    (∀ scope, (insertionsOfAll isHelper scope (exprOutline e)).filter
        (fun item => item.2 = helpersAccessor) =
      (((Snippet.expr e).freeSites isHelper).filter fun site => site.role = .callee).map
        Site.insertion) ∧
    (∀ scope scope' : Scope, (∀ x, x ∈ scope.names ↔ x ∈ scope'.names) →
      ∀ edits, resolve isHelper scope e edits = resolve isHelper scope' e edits) ∧
    (∀ scope scope' : Scope, scope.names ⊆ scope'.names →
      (insertionsOfAll isHelper scope' (exprOutline e)).Sublist
        (insertionsOfAll isHelper scope (exprOutline e))) := by
  refine ⟨?_, ?_, ?_, ?_, ?_⟩
  · intro edits
    rw [resolve, insertionsOfAll_eq_visible, visible_root]
  · intro scope edits
    rw [resolve, insertionsOfAll_eq_visible]
  · intro scope
    rw [insertionsOfAll_eq_visible, filter_helpers_visible]
  · intro scope scope' hsame edits
    have hcontains : ∀ x, scope.contains x = scope'.contains x := by
      intro x
      rw [Bool.eq_iff_iff, Scope.contains_eq_true_iff, Scope.contains_eq_true_iff, hsame]
    rw [resolve, resolve, insertionsOfAll_congr _ hcontains]
  · intro scope scope' hnames
    rw [insertionsOfAll_eq_visible, insertionsOfAll_eq_visible]
    exact (visible_sublist hnames _).map Site.insertion

/-- In `up(x => { var v = x; return { v, y, up }; })` a scope of two layers hides `y` and not the
shorthand `up`, and a larger one both; the call of the helper `up` is hidden by neither. -/
theorem resolve_hides_callWithBlock :
    (∀ edits, resolve (· == "up".toList) ⟨[["y".toList], ["x".toList]]⟩ callWithBlock edits =
      resolve (· == "up".toList) ⟨[["x".toList, "y".toList, "x".toList]]⟩ callWithBlock edits) ∧
    insertionsOfAll (· == "up".toList) ⟨[["y".toList], ["x".toList]]⟩ (exprOutline callWithBlock) =
      [(0, "template.helpers.".toList), (36, "up: data.".toList)] ∧
    insertionsOfAll (· == "up".toList) ⟨[["y".toList, "up".toList], ["x".toList]]⟩
      (exprOutline callWithBlock) = [(0, "template.helpers.".toList)] ∧
    (insertionsOfAll (· == "up".toList) ⟨[["y".toList, "up".toList], ["x".toList]]⟩
      (exprOutline callWithBlock)).Sublist
        (insertionsOfAll (· == "up".toList) ⟨[["y".toList], ["x".toList]]⟩
          (exprOutline callWithBlock)) := by
  obtain ⟨-, -, -, hsame, hlarger⟩ := resolve_hides (· == "up".toList) callWithBlock
  refine ⟨hsame _ _ fun x => ?_, by decide +kernel, by decide +kernel, hlarger _ _ ?_⟩
  · simp [Scope.names, or_comm]
  · simp [Scope.names]

end Resolve

end TemplateCompiler
