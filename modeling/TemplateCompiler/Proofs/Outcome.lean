import TemplateCompiler.Error

/-!
# Outcomes of computations that may fail

## What this module delivers

* `bind_eq_ok_iff`, `bind_eq_error_iff`: a sequence succeeds exactly if both of its steps do.
* `Settles`: a computation whose results are good and whose failures are not bad.
* `CompileError.IsInternal`: the failures that are mistakes of the compiler itself.
-/

set_option autoImplicit false

namespace TemplateCompiler

variable {ε α β : Type}

/-- A sequence of two steps succeeds exactly if both of them do. -/
theorem bind_eq_ok_iff {x : Except ε α} {f : α → Except ε β} {b : β} :
    (x >>= f) = .ok b ↔ ∃ a, x = .ok a ∧ f a = .ok b := by
  cases x with
  | error e =>
    constructor
    · intro h
      cases h
    · rintro ⟨a, ha, -⟩
      cases ha
  | ok a =>
    constructor
    · intro h
      exact ⟨a, rfl, h⟩
    · rintro ⟨a', ha, h⟩
      cases ha
      exact h

/-- A sequence of two steps fails where one of them does, the second one only behind the first. -/
theorem bind_eq_error_iff {x : Except ε α} {f : α → Except ε β} {e : ε} :
    (x >>= f) = .error e ↔ x = .error e ∨ ∃ a, x = .ok a ∧ f a = .error e := by
  cases x with
  | error e' =>
    constructor
    · intro h
      cases h
      exact .inl rfl
    · rintro (h | ⟨a, ha, -⟩)
      · cases h
        rfl
      · cases ha
  | ok a =>
    constructor
    · intro h
      exact .inr ⟨a, rfl, h⟩
    · rintro (h | ⟨a', ha, h⟩)
      · cases h
      · cases ha
        exact h

/-- The result of a computation, if it has one. -/
theorem toOption_eq_some_iff {x : Except ε α} {a : α} : x.toOption = some a ↔ x = .ok a := by
  cases x with
  | error e => exact ⟨nofun, nofun⟩
  | ok b =>
    constructor
    · intro h
      rw [Option.some.inj h]
    · intro h
      rw [h]
      rfl

theorem ofEdit_eq_ok {x : Except EditFault α} {a : α} (h : ofEdit x = .ok a) : x = .ok a := by
  cases x with
  | error e => cases h
  | ok a' =>
    cases h
    rfl

theorem ofTemplate_eq_ok {x : Except TemplateError α} {a : α} (h : ofTemplate x = .ok a) :
    x = .ok a := by
  cases x with
  | error e => cases h
  | ok a' =>
    cases h
    rfl

theorem ofRender_eq_ok {x : Except RenderError α} {a : α} (h : ofRender x = .ok a) :
    x = .ok a := by
  cases x with
  | error e => cases h
  | ok a' =>
    cases h
    rfl

/-- A computation whose results are `good` and whose failures are not `bad`. -/
def Settles (bad : ε → Prop) (good : α → Prop) : Except ε α → Prop
  | .ok a => good a
  | .error e => ¬ bad e

namespace Settles

variable {bad : ε → Prop} {good : α → Prop} {x : Except ε α}

theorem bind {f : α → Except ε β} {good' : β → Prop} (hx : Settles bad good x)
    (hf : ∀ a, good a → Settles bad good' (f a)) : Settles bad good' (x >>= f) := by
  cases x with
  | error e => exact hx
  | ok a => exact hf a hx

theorem of_ok {a : α} (hx : x = .ok a) (ha : good a) : Settles bad good x := by
  rw [hx]
  exact ha

theorem mono {good' : α → Prop} (hx : Settles bad good x) (h : ∀ a, good a → good' a) :
    Settles bad good' x := by
  cases x with
  | error e => exact hx
  | ok a => exact h a hx

/-- What is known of the results of a computation may be used when it is settled. -/
theorem and_ok (hx : Settles bad good x) :
    Settles bad (fun a => x = .ok a ∧ good a) x := by
  cases x with
  | error e => exact hx
  | ok a => exact ⟨rfl, hx⟩

theorem not_error (hx : Settles bad good x) {e : ε} (he : x = .error e) : ¬ bad e := by
  rw [he] at hx
  exact hx

end Settles

/-- A mistake of the compiler itself: a refused edit or read, or an expression that does not lie in
the text it was read from. -/
def CompileError.IsInternal : CompileError → Prop
  | .edit _ => True
  | .template e => e.fault = .strayExpression
  | .script _ | .render _ => False

theorem settles_ofEdit {x : Except EditFault α} {a : α} {good : α → Prop} (hx : x = .ok a)
    (ha : good a) : Settles CompileError.IsInternal good (ofEdit x) := by
  rw [hx]
  exact ha

end TemplateCompiler
