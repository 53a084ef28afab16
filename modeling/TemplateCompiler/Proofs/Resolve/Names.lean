import Mathlib.Data.List.Nodup
import Mathlib.Data.List.Perm.Basic
import TemplateCompiler.Proofs.Resolve.Sites

/-!
# The names in an expression

Most names in an expression are sites, where resolution may write. The others are left alone: the
names of functions and classes, labels, the names in patterns, and whatever stands in the keys of a
callee that leads to a helper. Each name is of one kind. So if all names stand at different offsets,
what resolution writes at an offset is told by the one name that stands there.

## What this module delivers

* `Snippet.idents`, `Snippet.quiet`: all names in a piece of code, and those that are left alone.
* `sites_append_quiet_perm`: the sites are the other ones.
* `NamesPlaced`: expressions whose names stand in them at different offsets.
* `mem_insertions_iff`, `not_mem_insertions_of_quiet`: what is inserted at the offset of a name.
-/

set_option autoImplicit false

namespace TemplateCompiler.Resolve

open Script Text

/-! ## Names -/

namespace Snippet

/-- The names that a piece of code has outside of its parts. -/
def ownIdents : Snippet → List Ident
  | .expr (.ident id) => [id]
  | .expr (.function _ name _ _) | .expr (.classExpr _ name _ _) => name.toList
  | .prop (.shorthand id) | .prop (.shorthandDefault id _) => [id]
  | .pat (.ident id) => [id]
  | .stmt (.function id _ _) | .stmt (.classDecl id _ _) | .stmt (.labeled id _) => [id]
  | .stmt (.jump label) => label.toList
  | _ => []

/-- All parts of a piece of code, the callees of helpers among them. -/
def allParts (s : Snippet) : List SnippetPart := s.parts fun _ => false

/-- All names in a piece of code. Keys and names of members are none. -/
def idents (s : Snippet) : List Ident :=
  s.ownIdents ++ s.allParts.attach.flatMap fun p => p.1.snippet.idents
termination_by sizeOf s
decreasing_by exact s.parts_smaller _ p.1 p.2

theorem idents_eq (s : Snippet) :
    s.idents = s.ownIdents ++ s.allParts.flatMap fun p => p.snippet.idents := by
  rw [idents]
  simp

end Snippet

/-! ## Names that are left alone -/

/-- The keys on the way from the root of a callee to its end. -/
def memberKeys : Expr → List Key
  | .member _ object key => memberKeys object ++ [key]
  | _ => []

namespace Snippet

/-- The names that a piece of code has outside of its parts and that are no sites: names of
functions and classes, labels, names in patterns and shorthands with a default. -/
def ownQuiet : Snippet → List Ident
  | .expr (.function _ name _ _) | .expr (.classExpr _ name _ _) => name.toList
  | .prop (.shorthandDefault id _) => [id]
  | .pat (.ident id) => [id]
  | .stmt (.function id _ _) | .stmt (.classDecl id _ _) | .stmt (.labeled id _) => [id]
  | .stmt (.jump label) => label.toList
  | _ => []

/-- The names that resolution passes over at a piece of code: those in the keys of the callee, if a
helper is called. -/
def passedOver (isHelper : Text → Bool) : Snippet → List Ident
  | .expr (.call _ callee _) | .expr (.chainCall _ callee _) =>
    match helperRoot? isHelper (memberRoot? callee) with
    | some _ => (memberKeys callee).flatMap fun k => (Snippet.key k).idents
    | none => []
  | _ => []

/-- The names in a piece of code that are no sites. -/
def quiet (isHelper : Text → Bool) (s : Snippet) : List Ident :=
  s.ownQuiet ++ s.passedOver isHelper ++
    (s.parts isHelper).attach.flatMap fun p => p.1.snippet.quiet isHelper
termination_by sizeOf s
decreasing_by exact s.parts_smaller isHelper p.1 p.2

theorem quiet_eq (isHelper : Text → Bool) (s : Snippet) :
    s.quiet isHelper = s.ownQuiet ++ s.passedOver isHelper ++
      (s.parts isHelper).flatMap fun p => p.snippet.quiet isHelper := by
  rw [quiet]
  simp

end Snippet

/-! ## Calls of helpers -/

theorem calleeSnippets_of_none {isHelper : Text → Bool} {callee : Expr}
    (h : helperRoot? isHelper (memberRoot? callee) = none) :
    calleeSnippets isHelper callee = [.expr callee] := by
  rw [calleeSnippets, h]

theorem helperRoot?_false (root : Option Ident) : helperRoot? (fun _ => false) root = none := by
  cases root <;> rfl

/-- What resolution makes of the call of a helper: the root of the callee is a site, the keys of the
callee are passed over, and the arguments are the only parts. -/
structure HelperCall (isHelper : Text → Bool) (s : Snippet) (id : Ident) (callee : Expr)
    (args : List Expr) : Prop where
  root : memberRoot? callee = some id
  leaf : s.leaf isHelper = [⟨id, .callee, [], []⟩]
  ownQuiet : s.ownQuiet = []
  ownIdents : s.ownIdents = []
  passedOver : s.passedOver isHelper = (memberKeys callee).flatMap fun k => (Snippet.key k).idents
  parts : s.parts isHelper = within [] (args.map .expr)
  allParts : s.allParts = ⟨[], [], .expr callee⟩ :: within [] (args.map .expr)

theorem helperCall_of_root {isHelper : Text → Bool} {id : Ident} {callee : Expr} {args : List Expr}
    (hroot : helperRoot? isHelper (memberRoot? callee) = some id) {s : Snippet} (span : Span)
    (hs : s = .expr (.call span callee args) ∨ s = .expr (.chainCall span callee args)) :
    HelperCall isHelper s id callee args := by
  refine ⟨(helperRoot?_eq_some_iff.1 hroot).1, ?_, ?_, ?_, ?_, ?_, ?_⟩
  all_goals
    rcases hs with rfl | rfl <;>
      simp [Snippet.leaf, Snippet.ownQuiet, Snippet.ownIdents, Snippet.passedOver, Snippet.parts,
        Snippet.allParts, exprSnippets, calleeSnippets, helperRoot?_false, hroot, within, between]

/-- A piece of code is the call of a helper, or resolution looks at all of it. -/
theorem Snippet.helperCall_or (isHelper : Text → Bool) (s : Snippet) :
    (∃ id callee args, HelperCall isHelper s id callee args) ∨
      s.parts isHelper = s.allParts ∧ s.passedOver isHelper = [] ∧
        (s.leaf isHelper).map Site.id ++ s.ownQuiet = s.ownIdents := by
  cases s with
  | expr e =>
    cases e with
    | call span callee args | chainCall span callee args =>
      cases hroot : helperRoot? isHelper (memberRoot? callee) with
      | some id => exact .inl ⟨id, callee, args, helperCall_of_root hroot span (by simp)⟩
      | none =>
        refine .inr ⟨?_, ?_, ?_⟩
        · rw [allParts, parts, parts, exprSnippets, exprSnippets, calleeSnippets_of_none hroot,
            calleeSnippets_of_none (helperRoot?_false _)]
        · simp [passedOver, hroot]
        · simp [leaf, ownQuiet, ownIdents, hroot]
    | _ => exact .inr ⟨rfl, rfl, by simp [leaf, ownQuiet, ownIdents]⟩
  | prop p => cases p <;> exact .inr ⟨rfl, rfl, by simp [leaf, ownQuiet, ownIdents]⟩
  | pat p => cases p <;> exact .inr ⟨rfl, rfl, by simp [leaf, ownQuiet, ownIdents]⟩
  | stmt s => cases s <;> exact .inr ⟨rfl, rfl, by simp [leaf, ownQuiet, ownIdents]⟩
  | _ => exact .inr ⟨rfl, rfl, by simp [leaf, ownQuiet, ownIdents]⟩

/-- The names in a callee are its root and those in its keys. -/
theorem idents_of_memberRoot? {id : Ident} : (callee : Expr) → memberRoot? callee = some id →
    (Snippet.expr callee).idents =
      id :: (memberKeys callee).flatMap fun k => (Snippet.key k).idents
  | .ident id', h => by
    rw [memberRoot?, Option.some.injEq] at h
    rw [Snippet.idents_eq, h]
    rfl
  | .member span object key, h => by
    have hobject := idents_of_memberRoot? object h
    have hparts : (Snippet.expr (.member span object key)).allParts =
        [⟨[], [], .expr object⟩, ⟨[], [], .key key⟩] := rfl
    rw [Snippet.idents_eq, hparts, memberKeys, List.flatMap_append]
    simp [Snippet.ownIdents, hobject]

/-! ## Sites and other names -/

/-- Every name in a piece of code is a site or left alone, and none is both. -/
theorem sites_append_quiet_perm (isHelper : Text → Bool) (s : Snippet) :
    ((s.sites isHelper).map Site.id ++ s.quiet isHelper).Perm s.idents := by
  -- the parts that are looked at, one by one
  have hparts : ∀ ps : List SnippetPart, (∀ p ∈ ps, sizeOf p.snippet < sizeOf s) →
      ((ps.flatMap fun p => (p.snippet.sites isHelper).map (Site.under p)).map Site.id ++
        ps.flatMap fun p => p.snippet.quiet isHelper).Perm
          (ps.flatMap fun p => p.snippet.idents) := by
    intro ps hsmaller
    rw [List.map_flatMap]
    refine (List.flatMap_append_perm ps _ _).trans (List.Perm.flatMap_left ps ?_)
    intro p hp
    have := hsmaller p hp
    rw [List.map_map]
    exact sites_append_quiet_perm isHelper p.snippet
  have hsmaller := s.parts_smaller isHelper
  rw [Snippet.sites_eq, Snippet.quiet_eq, Snippet.idents_eq, List.map_append]
  rcases s.helperCall_or isHelper with ⟨id, callee, args, h⟩ | ⟨hsame, hpassed, hown⟩
  · rw [h.parts] at hsmaller ⊢
    rw [h.leaf, h.ownQuiet, h.ownIdents, h.passedOver, h.allParts, List.flatMap_cons,
      idents_of_memberRoot? callee h.root]
    refine List.Perm.cons id ?_
    refine (List.perm_append_comm_assoc ..).trans ?_
    exact (hparts _ hsmaller).append_left _
  · rw [← hsame, hpassed, ← hown, List.append_nil]
    refine List.Perm.trans ?_ ((hparts _ hsmaller).append_left _)
    rw [List.append_assoc, List.append_assoc]
    exact (List.perm_append_comm_assoc ..).append_left _
termination_by sizeOf s

/-! ## What is inserted at a name -/

/-- An expression whose names stand inside of it, on character boundaries of a source and at
different offsets. -/
structure NamesPlaced (source : Text) (e : Expr) : Prop where
  inside : ∀ id ∈ (Snippet.expr e).idents, e.span.start ≤ id.span.start ∧
    id.span.start < id.span.stop ∧ id.span.stop ≤ e.span.stop
  boundary : ∀ id ∈ (Snippet.expr e).idents, isBoundary source id.span.start = true
  distinct : ((Snippet.expr e).idents.map fun id => id.span.start).Nodup

/-- The texts that resolution may write in front of a name. -/
def accessorTexts (id : Ident) : List Text :=
  [dataAccessor, helpersAccessor, id.name ++ ": ".toList ++ dataAccessor]

theorem Site.start_of_insertion? {scope : Scope} {site : Site} {item : Insertion}
    (h : site.insertion? scope = some item) :
    item.1 = site.id.span.start ∧ item.2 ∈ accessorTexts site.id := by
  rw [Site.insertion?] at h
  split at h
  · cases h
  · cases h
    refine ⟨rfl, ?_⟩
    cases hrole : site.role <;> simp [accessorTexts, Site.lead, Site.accessor, hrole]

section

variable (isHelper : Text → Bool) (scope : Scope) (e : Expr)

theorem insertionsOfAll_eq_filterMap :
    insertionsOfAll isHelper scope (exprOutline e) =
      ((Snippet.expr e).sites isHelper).filterMap (Site.insertion? scope) :=
  Snippet.insertions_eq_sites isHelper (.expr e) scope

/-- Every insertion stands in front of a name of the expression. -/
theorem exists_ident_of_mem_insertions {item : Insertion}
    (h : item ∈ insertionsOfAll isHelper scope (exprOutline e)) :
    ∃ id ∈ (Snippet.expr e).idents, item.1 = id.span.start ∧ item.2 ∈ accessorTexts id := by
  rw [insertionsOfAll_eq_filterMap] at h
  obtain ⟨site, hsite, hitem⟩ := List.mem_filterMap.1 h
  refine ⟨site.id, ?_, Site.start_of_insertion? hitem⟩
  apply (sites_append_quiet_perm isHelper (.expr e)).subset
  exact List.mem_append_left _ (List.mem_map_of_mem hsite)

/-- The offsets of the insertions are offsets of sites, in the same order. -/
theorem offsets_sublist_starts :
    ((insertionsOfAll isHelper scope (exprOutline e)).map Prod.fst).Sublist
      (((Snippet.expr e).sites isHelper).map fun site => site.id.span.start) := by
  rw [insertionsOfAll_eq_filterMap]
  generalize (Snippet.expr e).sites isHelper = sites
  induction sites with
  | nil => exact .slnil
  | cons site sites ih =>
    rw [List.filterMap_cons]
    cases hitem : site.insertion? scope with
    | none => exact ih.cons _
    | some item =>
      rw [List.map_cons, (Site.start_of_insertion? hitem).1]
      exact ih.cons_cons _

end

namespace NamesPlaced

variable {source : Text} {e : Expr} (he : NamesPlaced source e) {isHelper : Text → Bool}
  {scope : Scope}

include he

/-- Sites and other names stand at different offsets. -/
theorem starts_nodup (isHelper : Text → Bool) :
    ((((Snippet.expr e).sites isHelper).map fun site => site.id.span.start) ++
      ((Snippet.expr e).quiet isHelper).map fun id => id.span.start).Nodup := by
  have hperm := (sites_append_quiet_perm isHelper (.expr e)).map fun id : Ident => id.span.start
  rw [List.map_append, List.map_map] at hperm
  exact hperm.nodup_iff.2 he.distinct

/-- What is inserted at the offset of a site is what the site gets. -/
theorem mem_insertions_iff {site : Site} (hsite : site ∈ (Snippet.expr e).sites isHelper)
    {text : Text} :
    (site.id.span.start, text) ∈ insertionsOfAll isHelper scope (exprOutline e) ↔
      site.insertion? scope = some (site.id.span.start, text) := by
  rw [insertionsOfAll_eq_filterMap, List.mem_filterMap]
  constructor
  · rintro ⟨site', hsite', hitem⟩
    have hstart : site.id.span.start = site'.id.span.start := (Site.start_of_insertion? hitem).1
    have hnodup := (List.nodup_append.1 (he.starts_nodup isHelper)).1
    rw [hstart] at hitem
    rwa [List.inj_on_of_nodup_map hnodup hsite hsite' hstart]
  · intro hitem
    exact ⟨site, hsite, hitem⟩

/-- Nothing is inserted at a name that is left alone. -/
theorem not_mem_insertions_of_quiet {id : Ident} (hid : id ∈ (Snippet.expr e).quiet isHelper)
    (text : Text) :
    (id.span.start, text) ∉ insertionsOfAll isHelper scope (exprOutline e) := by
  intro hmem
  have hsite := (offsets_sublist_starts isHelper scope e).subset (List.mem_map_of_mem hmem)
  have hdisjoint := (List.nodup_append.1 (he.starts_nodup isHelper)).2.2
  exact hdisjoint _ hsite _ (List.mem_map_of_mem hid) rfl

end NamesPlaced

end TemplateCompiler.Resolve
