import TemplateCompiler.Proofs.Grammar.Patterns
import TemplateCompiler.Script.Grammar.Function

/-!
# Functions and classes in their text

The parameters of a function lie before its body, what a class extends before its members, and a key
before what it is the key of.

## What this module delivers

* `functionRest_lays`: the parameters and body of an ordinary function.
* `functionExpression_gives`, `arrowRest_gives`: functions that start at a token further left.
* `classMember_lays`, `classExpression_lays`, `classDeclaration_lays`: classes.
-/

set_option autoImplicit false

namespace TemplateCompiler.Script

open Text Reader Resolve

namespace Excerpt

variable {x : Excerpt} {s s₀ s' : ReaderState} {d : Deeper} {ctx : Context}

/-! ## Parameters and bodies -/

variable (hd : d.LaysOut x)

include hd

theorem formalParameters_lays (n : Nat) :
    x.Lays (formalParameters d ctx n) fun ps => ps.map .pat := by
  induction n with
  | zero => exact fun s hs => .fail
  | succ n ih =>
    intro s hs
    simp only [formalParameters, gives_bind, gives_ite, gives_pure]
    refine hs.accept (by simp) (fun s₁ h₁ => h₁) ?_
    refine hs.accept (by simp) (fun s₁ h₁ => h₁.read (hd.binding _) fun p s₂ h₂ => ?_) ?_
    · exact h₂.expect (by simp) fun s₃ h₃ => h₃.free rfl
    refine hs.read (bindingElement_lays hd) fun p s₁ h₁ => ?_
    refine h₁.accept (by simp) (fun s₂ h₂ => h₂) ?_
    exact h₁.expect (by simp) fun s₂ h₂ => h₂.read ih fun ps s₃ h₃ => h₃

theorem functionBody_lays (heedsDirective : Bool) (params : List Pat) :
    x.Lays (functionBody d ctx heedsDirective params) fun body => body.map .stmt := by
  intro s hs
  simp only [functionBody, gives_bind, gives_lexeme, gives_require]
  refine hs.expect (by simp) fun s₁ h₁ _ => ?_
  exact h₁.read ((hd.statement _ _).manyUntil (by simp) _).each fun body s₂ h₂ => h₂

theorem functionRest_lays (async generator : Bool) :
    x.Lays (functionRest d ctx async generator) fun f => f.1.map .pat ++ f.2.map .stmt := by
  intro s hs
  simp only [functionRest, gives_bind, gives_pure]
  refine hs.expect (by simp) fun s₁ h₁ => h₁.read (formalParameters_lays hd _) fun params s₂ h₂ => ?_
  exact h₂.read (functionBody_lays hd true params) fun body s₃ h₃ => h₃

/-- A function that starts at its word, or at a token before it. -/
theorem functionExpression_gives (async : Bool) (h : x.Along s₀ [] s) :
    Gives s (functionExpression d ctx s₀.current.start async) fun e s' => x.Past s₀ [.expr e] s' := by
  simp only [functionExpression, gives_bind, gives_sees, gives_ite, gives_pure, gives_map,
    gives_spanFrom]
  refine h.expectWord fun s₁ h₁ => h₁.optional (by simp) fun generator s₂ h₂ => ?_
  split
  · exact h₂.read (functionRest_lays hd _ _) fun f s₃ h₃ => h₃.expr rfl
  · refine h₂.read (bindingIdentifier_lays _) fun id s₃ h₃ => ?_
    exact h₃.read (functionRest_lays hd _ _) fun f s₄ h₄ => h₄.expr rfl

theorem functionDeclaration_lays (async : Bool) :
    x.Lays (functionDeclaration d ctx async) fun s => [.stmt s] := by
  intro s hs
  simp only [functionDeclaration, gives_bind, gives_pure]
  refine hs.expectWord fun s₁ h₁ => h₁.optional (by simp) fun generator s₂ h₂ => ?_
  refine h₂.read (bindingIdentifier_lays _) fun id s₃ h₃ => ?_
  exact h₃.read (functionRest_lays hd _ _) fun f s₄ h₄ => h₄.free rfl

theorem methodRest_lays (async generator : Bool) :
    x.Lays (methodRest d ctx async generator) fun f => f.1.map .pat ++ f.2.map .stmt :=
  functionRest_lays hd async generator

theorem getterRest_lays :
    x.Lays (getterRest d ctx) fun body => body.map .stmt := by
  intro s hs
  simp only [getterRest, gives_bind, gives_require, gives_pure]
  refine hs.read (methodRest_lays hd false false) fun f s₁ h₁ hempty => ?_
  rwa [List.isEmpty_iff.1 hempty] at h₁

theorem setterRest_lays :
    x.Lays (setterRest d ctx) fun f => .pat f.1 :: f.2.map .stmt := by
  intro s hs
  simp only [setterRest, gives_bind]
  refine hs.read (methodRest_lays hd false false) fun f s₁ h₁ => ?_
  split
  · exact .fail
  · exact gives_pure.2 h₁
  · exact .fail

/-- An arrow function whose parameters are already read. -/
theorem arrowRest_gives (async : Bool) {params : List Pat}
    (h : x.Past s₀ (params.map .pat) s) :
    Gives s (arrowRest d ctx s₀.current.start async params) fun e s' => x.Past s₀ [.expr e] s' := by
  simp only [arrowRest, gives_bind, gives_sees, gives_ite, gives_pure, gives_spanFrom]
  split
  · exact h.read (functionBody_lays hd false params) fun body s₁ h₁ => h₁.expr rfl
  · exact h.read (hd.assignment _) fun body s₁ h₁ => h₁.expr rfl

/-! ## Classes -/

theorem memberKey_lays : x.Lays (memberKey d ctx) fun key => [.key key] := by
  intro s hs
  simp only [memberKey, gives_bind, gives_offset, gives_ite, gives_pure]
  refine hs.accept (by simp) (fun s₁ h₁ => ?_) (propertyKey_lays hd s hs)
  exact h₁.read identifierName_lays fun id s₂ h₂ => h₂.skip.free rfl

omit hd in
/-- Whether a field can end is told without a change. -/
theorem seesFieldEnd_gives {lineEnds : Bool} {Q : Bool → ReaderState → Prop} (h : ∀ b, Q b s) :
    Gives s (seesFieldEnd lineEnds) Q := by
  simp only [seesFieldEnd, gives_bind, gives_token]
  split <;> simp only [gives_bind, gives_pure, gives_newlineBefore, h]

theorem fieldRest_gives {key : Key} (h : x.Past s₀ [.key key] s) :
    Gives s (fieldRest d ctx key) fun m s' => x.Past s₀ [.member m] s' := by
  simp only [fieldRest, gives_bind, gives_require, gives_ite, gives_map, gives_pure]
  intro _
  refine h.accept (by simp) (fun s₁ h₁ => h₁.read (hd.assignment _) fun e s₂ h₂ => ?_) ?_
  · exact h₂.expectEnd fun s₃ h₃ => h₃.free rfl
  · exact h.expectEnd fun s₁ h₁ => h₁.free rfl

theorem memberMethod_gives {key : Key} (async generator : Bool)
    (h : x.Past s₀ [.key key] s) :
    Gives s (memberMethod d ctx key async generator) fun m s' => x.Past s₀ [.member m] s' := by
  simp only [memberMethod, gives_bind, gives_pure]
  exact h.read (methodRest_lays hd _ _) fun f s₁ h₁ => h₁.free rfl

theorem memberRest_lays (derived isStatic : Bool) :
    x.Lays (memberRest d ctx derived isStatic) fun m => [.member m] := by
  intro s hs
  simp only [memberRest, gives_bind, gives_lexeme, gives_sees, gives_newlineBefore, gives_require,
    gives_ite, gives_pure]
  refine hs.accept (by simp) (fun s₁ h₁ => ?_) ?_
  · exact h₁.read (memberKey_lays hd) fun key s₂ h₂ _ => memberMethod_gives hd _ _ h₂
  refine hs.read (memberKey_lays hd) fun key s₁ h₁ => ?_
  split
  · split
    · exact h₁.skip.read (functionRest_lays hd _ _) fun f s₂ h₂ => h₂.free rfl
    · exact memberMethod_gives hd _ _ h₁
  refine seesFieldEnd_gives fun _ => seesFieldEnd_gives fun _ => ?_
  split
  · exact fieldRest_gives hd h₁
  -- What looked like the key was a word before it.
  split
  · refine h₁.skip.optional (by simp) fun generator s₂ h₂ => ?_
    exact h₂.read (memberKey_lays hd) fun key s₃ h₃ _ => memberMethod_gives hd _ _ h₃
  split
  · refine h₁.skip.read (memberKey_lays hd) fun key s₂ h₂ _ => ?_
    split
    · exact h₂.read (getterRest_lays hd) fun body s₃ h₃ => h₃.free rfl
    · exact h₂.read (setterRest_lays hd) fun f s₃ h₃ => h₃.free rfl
  · exact .fail

theorem classMember_lays (derived : Bool) :
    x.Lays (classMember d ctx derived) fun m => [.member m] := by
  intro s hs
  simp only [classMember, gives_bind, gives_lexeme, gives_sees, gives_ite, gives_pure]
  refine hs.accept (by simp) (fun s₁ h₁ => h₁.free rfl) ?_
  refine hs.acceptWord (fun s₁ h₁ => ?_) (memberRest_lays hd derived false s hs)
  -- The word is a modifier, or it is the key itself.
  have hkey := h₁.stays (.namedKey "static".toList s.current.span)
  split
  · exact memberMethod_gives hd _ _ hkey
  refine h₁.accept (by simp) (fun s₂ h₂ => ?_) ?_
  · exact h₂.read ((hd.statement _ _).manyUntil (by simp) _).each fun body s₃ h₃ => h₃.free rfl
  refine seesFieldEnd_gives fun _ => ?_
  split
  · exact fieldRest_gives hd hkey
  · exact h₁.read (memberRest_lays hd _ _) fun m s₂ h₂ => h₂

theorem classMembers_lays (derived : Bool) :
    x.Lays (manyUntil .braceClose (classMember d ctx derived) d.budget) fun ms => ms.map .member :=
  ((classMember_lays hd derived).manyUntil (by simp) _).each

theorem classRest_lays :
    x.Lays (classRest d ctx) fun c => c.1.toList.map .expr ++ c.2.map .member := by
  intro s hs
  simp only [classRest, gives_bind, gives_require, gives_ite, gives_map, gives_pure]
  refine hs.acceptWord (fun s₁ h₁ => h₁.read (hd.leftHandSide _) fun e s₂ h₂ => ?_) ?_
  · exact h₂.expect (by simp) fun s₃ h₃ => h₃.read (classMembers_lays hd _) fun ms s₄ h₄ _ => h₄
  · exact hs.expect (by simp) fun s₁ h₁ => h₁.read (classMembers_lays hd _) fun ms s₂ h₂ _ => h₂

omit hd in
theorem className_lays : x.Lays (className ctx) fun id => [.pat (.ident id)] :=
  bindingIdentifier_lays _

theorem classExpression_lays :
    x.Lays (classExpression d ctx) fun e => [.expr e] := by
  intro s hs
  simp only [classExpression, gives_bind, gives_offset, gives_sees, gives_seesWord, gives_ite,
    gives_map, gives_pure, gives_spanFrom]
  refine hs.expectWord fun s₁ h₁ => ?_
  split
  · exact h₁.read (classRest_lays hd) fun c s₂ h₂ => h₂.expr rfl
  · refine h₁.read className_lays fun id s₂ h₂ => ?_
    exact h₂.read (classRest_lays hd) fun c s₃ h₃ => h₃.expr rfl

theorem classDeclaration_lays :
    x.Lays (classDeclaration d ctx) fun s => [.stmt s] := by
  intro s hs
  simp only [classDeclaration, gives_bind, gives_pure]
  refine hs.expectWord fun s₁ h₁ => h₁.read className_lays fun id s₂ h₂ => ?_
  exact h₂.read (classRest_lays hd) fun c s₃ h₃ => h₃.free rfl

end Excerpt

end TemplateCompiler.Script
