import TemplateCompiler.Proofs.Grammar.Steps
import TemplateCompiler.Script.Grammar.Pattern

/-!
# Patterns in their text

A pattern that was first read as an expression lies where the expression lay.

## What this module delivers

* `toPattern?_stays`, `assignmentTarget?_stays`, `arrowParameters?_stays`: expressions that are taken
  as patterns.
* `propertyKey_gives`, `Keyed`: keys, and where they are.
* `bindingPattern_lays`: patterns that are read as such.
-/

set_option autoImplicit false

namespace TemplateCompiler.Script

open Text Reader Resolve

namespace Excerpt

variable {x : Excerpt} {s s₀ s' : ReaderState} {ctx : Context}

/-! ## Expressions taken as patterns -/

mutual

/-- A pattern lies where the expression lay that it was taken from. -/
theorem toPattern?_stays {role : PatternRole} (e : Expr) {p : Pat}
    (h : e.toPattern? ctx role = some p) : x.Stays [.expr e] [.pat p] := by
  unfold Expr.toPattern? at h
  split at h
  · split at h
    · cases h
      exact .inner _
    · cases h
  · rename_i items _
    obtain ⟨ps, hps, heq⟩ := Option.bind_eq_some_iff.1 h
    cases heq
    exact (Stays.inner _).trans ((itemsToPattern?_stays items hps).trans (.free rfl rfl))
  · rename_i props _
    obtain ⟨ps, hps, heq⟩ := Option.bind_eq_some_iff.1 h
    cases heq
    exact (Stays.inner _).trans ((propsToPattern?_stays props hps).trans (.free rfl rfl))
  · rename_i target value
    obtain ⟨p, hp, heq⟩ := Option.bind_eq_some_iff.1 h
    cases heq
    have htarget : x.Stays [.pat (.expr target)] [.pat p] :=
      (Stays.inner _).trans (toPattern?_stays target hp)
    exact (Stays.inner _).trans ((htarget.cons (.refl [.expr value])).trans (.free rfl rfl))
  · cases h
    exact (Stays.inner _).trans (.free rfl rfl)
  · split at h
    · cases h
      exact .free rfl rfl
    · cases h
termination_by sizeOf e

theorem itemsToPattern?_stays {role : PatternRole} (items : List Expr) {trailing : Bool}
    {ps : List Pat} (h : itemsToPattern? ctx role trailing items = some ps) :
    x.Stays (items.map .expr) (ps.map .pat) := by
  unfold itemsToPattern? at h
  split at h
  · cases h
    exact .refl _
  · rename_i items
    obtain ⟨ps, hps, heq⟩ := Option.bind_eq_some_iff.1 h
    cases heq
    exact .cons ((Stays.inner _).trans (.free rfl rfl)) (itemsToPattern?_stays items hps)
  · cases h
  · rename_i arg _
    split at h
    · cases h
    · obtain ⟨p, hp, heq⟩ := Option.bind_eq_some_iff.1 h
      cases heq
      exact (Stays.inner _).trans ((toPattern?_stays arg hp).trans (.free rfl rfl))
  · rename_i item items _ _ _
    obtain ⟨p, hp, h⟩ := Option.bind_eq_some_iff.1 h
    obtain ⟨ps, hps, heq⟩ := Option.bind_eq_some_iff.1 h
    cases heq
    exact (toPattern?_stays item hp).cons (itemsToPattern?_stays items hps)
termination_by sizeOf items

theorem propsToPattern?_stays {role : PatternRole} (props : List Property) {trailing : Bool}
    {ps : List Pat} (h : propsToPattern? ctx role trailing props = some ps) :
    x.Stays (props.map .prop) (ps.map .pat) := by
  unfold propsToPattern? at h
  split at h
  · cases h
    exact .refl _
  · rename_i span arg
    have hrest : ∀ p, x.Stays [.expr arg] [.pat p] →
        x.Stays [.prop (.spread span arg)] [.pat (.rest p)] :=
      fun p hp => (Stays.inner _).trans (hp.trans (.free rfl rfl))
    split at h
    · cases h
    · split at h
      · cases h
      · cases h
        exact hrest _ (.inner _)
    · cases h
    · split at h
      · cases h
      · obtain ⟨p, hp, heq⟩ := Option.bind_eq_some_iff.1 h
        cases heq
        exact hrest p (toPattern?_stays arg hp)
  · rename_i id props
    obtain ⟨ps, hps, heq⟩ := Option.bind_eq_some_iff.1 h
    cases heq
    refine .cons (.trans (.inner _) ?_) (propsToPattern?_stays props hps)
    exact ((Stays.namedKey id.name id.span).append (.refl [.pat (.ident id)])).trans (.free rfl rfl)
  · rename_i id value props
    obtain ⟨ps, hps, heq⟩ := Option.bind_eq_some_iff.1 h
    cases heq
    have hdefault : x.Stays [.pat (.ident id), .expr value] [.pat (.withDefault (.ident id) value)] :=
      .free rfl rfl
    refine .cons (.trans (.inner _) ?_) (propsToPattern?_stays props hps)
    exact ((Stays.namedKey id.name id.span).append hdefault).trans (.free rfl rfl)
  · rename_i key value props
    obtain ⟨p, hp, h⟩ := Option.bind_eq_some_iff.1 h
    obtain ⟨ps, hps, heq⟩ := Option.bind_eq_some_iff.1 h
    cases heq
    refine .cons (.trans (.inner _) ?_) (propsToPattern?_stays props hps)
    exact ((Stays.refl [.key key]).cons (toPattern?_stays value hp)).trans (.free rfl rfl)
  · cases h
termination_by sizeOf props

end

theorem assignmentTarget?_stays {e : Expr} {p : Pat} (h : assignmentTarget? ctx e = some p) :
    x.Stays [.expr e] [.pat p] := by
  unfold assignmentTarget? at h
  split at h
  · exact toPattern?_stays _ h
  · exact toPattern?_stays _ h
  · split at h
    · cases h
      exact .free rfl rfl
    · cases h

theorem arrowParameters?_stays {trailing : Bool} (items : List Expr) {ps : List Pat}
    (h : arrowParameters? ctx trailing items = some ps) : x.Stays (items.map .expr) (ps.map .pat) := by
  induction items generalizing ps with
  | nil =>
    cases h
    exact .refl _
  | cons item items ih =>
    unfold arrowParameters? at h
    split at h
    · rename_i heq
      cases heq
    · cases h
    · rename_i arg _ heq
      cases heq
      split at h
      · cases h
      · obtain ⟨p, hp, heq⟩ := Option.bind_eq_some_iff.1 h
        cases heq
        exact (Stays.inner _).trans ((toPattern?_stays arg hp).trans (.free rfl rfl))
    · rename_i heq
      cases heq
      obtain ⟨p, hp, h⟩ := Option.bind_eq_some_iff.1 h
      obtain ⟨ps, hps, heq⟩ := Option.bind_eq_some_iff.1 h
      cases heq
      exact (toPattern?_stays _ hp).cons (ih hps)

/-! ## Keys -/

variable (x) in
/-- A key that was read, and where it is. -/
structure Keyed (s : ReaderState) (key : Key) (s' : ReaderState) : Prop
    extends x.Past s [.key key] s' where
  spans : x.Spans s.current.start s'.lastStop key.span

attribute [grind →] Keyed.toPast

/-- A key behind words. -/
theorem Along.thenKey {key : Key} (h : x.Along s₀ [] s) (h' : x.Keyed s key s') :
    x.Keyed s₀ key s' :=
  ⟨h.then h'.toPast, h'.spans.mono h.before.le (Nat.le_refl _)⟩

variable {d : Deeper}

theorem propertyKey_gives (hd : d.LaysOut x) (hs : x.Along s [] s) :
    Gives s (propertyKey d ctx) fun key s' => x.Keyed s key s' := by
  simp only [propertyKey, gives_bind, gives_lexeme]
  -- A key of one token is named by the token.
  have htoken : s.current.token ≠ .eof → ∀ name, Gives s advance fun _ s₁ =>
      x.Keyed s (.named name s.current.span) s₁ := fun heof name =>
    hs.advance heof fun s₁ h₁ => ⟨h₁.stays (.namedKey _ _), hs.ready.spans h₁.took.far⟩
  split
  · rename_i heq
    simp only [gives_bind, gives_pure]
    exact htoken (by simp [heq]) _
  · rename_i heq
    simp only [gives_bind, gives_require, gives_pure]
    exact fun _ => htoken (by simp [heq]) _
  · rename_i heq
    simp only [gives_bind, gives_require, gives_pure]
    exact fun _ => htoken (by simp [heq]) _
  · rename_i heq
    simp only [gives_bind, gives_pure]
    exact htoken (by simp [heq]) _
  · rename_i heq
    simp only [gives_bind, gives_spanFrom, gives_pure]
    refine hs.advance (by simp [heq]) fun s₁ h₁ => h₁.read (hd.assignment _) fun e s₂ h₂ => ?_
    exact h₂.expect (by simp) fun s₃ h₃ => ⟨h₃.free rfl, h₃.took.spans⟩
  · exact .fail

theorem propertyKey_lays (hd : d.LaysOut x) : x.Lays (propertyKey d ctx) fun key => [.key key] :=
  fun _ hs => (propertyKey_gives hd hs).mono fun _ _ h => h.toPast

/-- A word is a key by its name. -/
theorem propertyKey_word {name : Text} {escaped : Bool}
    (htoken : s.current.token = .word name escaped) :
    Gives s (propertyKey d ctx) fun key _ => key = .named name s.current.span := by
  simp only [propertyKey, gives_bind, gives_lexeme, htoken, gives_pure]
  exact fun _ _ _ => trivial

/-! ## Patterns read as such -/

theorem withInitializer_gives (hd : d.LaysOut x) {p : Pat} (h : x.Past s₀ [.pat p] s) :
    Gives s (withInitializer d ctx p) fun p' s' => x.Past s₀ [.pat p'] s' := by
  simp only [withInitializer, gives_bind, gives_ite, gives_pure]
  refine h.accept (by simp) (fun s₁ h₁ => ?_) h
  exact h₁.read (hd.assignment _) fun e s₂ h₂ => h₂.free rfl

theorem bindingElement_lays (hd : d.LaysOut x) : x.Lays (bindingElement d ctx) fun p => [.pat p] := by
  intro s hs
  simp only [bindingElement, gives_bind]
  exact hs.read (hd.binding _) fun p s₁ h₁ => withInitializer_gives hd h₁

theorem arrayBinding_lays (hd : d.LaysOut x) (n : Nat) :
    x.Lays (arrayBinding d ctx n) fun ps => ps.map .pat := by
  induction n with
  | zero => exact fun s hs => .fail
  | succ n ih =>
    intro s hs
    simp only [arrayBinding, gives_bind, gives_ite, gives_pure]
    refine hs.accept (by simp) (fun s₁ h₁ => h₁) ?_
    refine hs.accept (by simp) (fun s₁ h₁ => ?_) ?_
    · have hhole : x.Past s [.pat .omitted] s₁ := h₁.free rfl
      exact hhole.read ih fun ps s₂ h₂ => h₂
    refine hs.accept (by simp) (fun s₁ h₁ => h₁.read (hd.binding _) fun p s₂ h₂ => ?_) ?_
    · exact h₂.expect (by simp) fun s₃ h₃ => h₃.free rfl
    refine hs.read (bindingElement_lays hd) fun p s₁ h₁ => ?_
    refine h₁.accept (by simp) (fun s₂ h₂ => h₂) ?_
    exact h₁.expect (by simp) fun s₂ h₂ => h₂.read ih fun ps s₃ h₃ => h₃

theorem propertyBinding_lays (hd : d.LaysOut x) :
    x.Lays (propertyBinding d ctx) fun p => [.pat p] := by
  intro s hs
  simp only [propertyBinding, gives_bind, gives_lexeme, gives_ite]
  have hword : Gives s (propertyKey d ctx) fun key _ =>
      ∀ name escaped, s.current.token = .word name escaped → key = .named name s.current.span :=
    fun key s₁ hr name escaped htoken => propertyKey_word htoken key s₁ hr
  refine ((propertyKey_lays hd s hs).and hword).mono fun key s₁ h => ?_
  obtain ⟨h₁, hword⟩ := h
  refine h₁.accept (by simp) (fun s₂ h₂ => ?_) ?_
  · simp only [gives_pure]
    exact h₂.read (bindingElement_lays hd) fun p s₃ h₃ => h₃.free rfl
  · split
    · rename_i name escaped htoken
      simp only [gives_bind, gives_get, gives_require, gives_pure]
      intro _
      -- The key is the name itself, so it takes no room of its own.
      rw [hword name escaped htoken]
      refine (withInitializer_gives hd (h₁.skip.name hs.ready)).mono fun p s₂ h₂ => ?_
      exact (h₂.stays ((Stays.namedKey name s.current.span).append (.refl [.pat p]))).free rfl
    · exact .fail

theorem objectBinding_lays (hd : d.LaysOut x) (n : Nat) :
    x.Lays (objectBinding d ctx n) fun ps => ps.map .pat := by
  induction n with
  | zero => exact fun s hs => .fail
  | succ n ih =>
    intro s hs
    simp only [objectBinding, gives_bind, gives_ite, gives_pure]
    refine hs.accept (by simp) (fun s₁ h₁ => h₁) ?_
    refine hs.accept (by simp) (fun s₁ h₁ => h₁.read (bindingIdentifier_lays ctx) fun id s₂ h₂ => ?_) ?_
    · exact h₂.expect (by simp) fun s₃ h₃ => h₃.free rfl
    refine hs.read (propertyBinding_lays hd) fun p s₁ h₁ => ?_
    refine h₁.accept (by simp) (fun s₂ h₂ => h₂) ?_
    exact h₁.expect (by simp) fun s₂ h₂ => h₂.read ih fun ps s₃ h₃ => h₃

theorem bindingPattern_lays (hd : d.LaysOut x) :
    x.Lays (bindingPattern d ctx) fun p => [.pat p] := by
  intro s hs
  simp only [bindingPattern, gives_bind, gives_ite, gives_pure]
  refine hs.accept (by simp) (fun s₁ h₁ => ?_) ?_
  · exact h₁.read (arrayBinding_lays hd _) fun ps s₂ h₂ => h₂.free rfl
  refine hs.accept (by simp) (fun s₁ h₁ => ?_) ?_
  · exact h₁.read (objectBinding_lays hd _) fun ps s₂ h₂ => h₂.free rfl
  · exact hs.read (bindingIdentifier_lays ctx) fun id s₁ h₁ => h₁

end Excerpt

end TemplateCompiler.Script
