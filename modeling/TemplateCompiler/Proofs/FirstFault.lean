/-!
# The first fault

A check that looks at one thing after the other stops at the first fault. What it reports is then
said without it: the fault of the first item that has one, and none of the items before it has one.

## What this module delivers

* `FirstFault`: the fault of the first item of a list that has one.
* `Reports`: a computation that fails with given faults and no others.
* `Reports.bind`, `Reports.foldlM`: sequences of steps report the first fault.
-/

set_option autoImplicit false

namespace TemplateCompiler

variable {ε α β : Type}

/-! ## Faults of lists -/

/-- The fault of the first item of a list that has one. -/
def FirstFault {ι : Type} (fault : ι → ε → Prop) (items : List ι) (e : ε) : Prop :=
  ∃ before i after, items = before ++ i :: after ∧ (∀ j ∈ before, ∀ e', ¬ fault j e') ∧ fault i e

section FirstFault

variable {ι κ : Type} {fault : ι → ε → Prop} {items : List ι} {e : ε}

theorem not_firstFault_nil : ¬ FirstFault fault [] e := by
  rintro ⟨before, i, after, hitems, -⟩
  cases before <;> cases hitems

theorem firstFault_cons_iff {i : ι} :
    FirstFault fault (i :: items) e ↔
      fault i e ∨ (∀ e', ¬ fault i e') ∧ FirstFault fault items e := by
  constructor
  · rintro ⟨before, j, after, hitems, hbefore, hj⟩
    cases before with
    | nil =>
      cases hitems
      exact .inl hj
    | cons b before =>
      cases hitems
      exact .inr ⟨hbefore _ List.mem_cons_self, before, j, after, rfl,
        fun k hk => hbefore k (List.mem_cons_of_mem _ hk), hj⟩
  · rintro (hi | ⟨hi, before, j, after, rfl, hbefore, hj⟩)
    · exact ⟨[], i, items, rfl, nofun, hi⟩
    · refine ⟨i :: before, j, after, rfl, fun k hk => ?_, hj⟩
      rcases List.mem_cons.1 hk with rfl | hk
      · exact hi
      · exact hbefore k hk

/-- A list has no first fault exactly if none of its items has a fault. -/
theorem forall_not_firstFault_iff :
    (∀ e, ¬ FirstFault fault items e) ↔ ∀ i ∈ items, ∀ e, ¬ fault i e := by
  induction items with
  | nil =>
    constructor
    · intro _ i hi
      cases hi
    · exact fun _ _ => not_firstFault_nil
  | cons i items ih =>
    simp only [firstFault_cons_iff, List.forall_mem_cons, ← ih]
    constructor
    · intro h
      have hi : ∀ e, ¬ fault i e := fun e hi => h e (.inl hi)
      exact ⟨hi, fun e hitems => h e (.inr ⟨hi, hitems⟩)⟩
    · rintro ⟨hi, hitems⟩ e (hfault | ⟨-, hfault⟩)
      · exact hi e hfault
      · exact hitems e hfault

theorem firstFault_append_iff {front back : List ι} :
    FirstFault fault (front ++ back) e ↔
      FirstFault fault front e ∨ (∀ e', ¬ FirstFault fault front e') ∧ FirstFault fault back e := by
  induction front with
  | nil => simp [not_firstFault_nil]
  | cons i front ih =>
    rw [List.cons_append, firstFault_cons_iff, ih, forall_not_firstFault_iff, firstFault_cons_iff,
      forall_not_firstFault_iff, List.forall_mem_cons]
    constructor
    · rintro (hi | ⟨hi, hfront | ⟨hnone, hback⟩⟩)
      · exact .inl (.inl hi)
      · exact .inl (.inr ⟨hi, hfront⟩)
      · exact .inr ⟨⟨hi, hnone⟩, hback⟩
    · rintro ((hi | ⟨hi, hfront⟩) | ⟨⟨hi, hnone⟩, hback⟩)
      · exact .inl hi
      · exact .inr ⟨hi, .inl hfront⟩
      · exact .inr ⟨hi, .inr ⟨hnone, hback⟩⟩

/-- The first fault of the items that a list keeps. -/
theorem firstFault_filterMap_iff {f : κ → Option ι} {kept : List κ} :
    FirstFault fault (kept.filterMap f) e ↔
      FirstFault (fun k e => ∃ i, f k = some i ∧ fault i e) kept e := by
  induction kept with
  | nil => exact ⟨fun h => absurd h not_firstFault_nil, fun h => absurd h not_firstFault_nil⟩
  | cons k kept ih =>
    rw [firstFault_cons_iff, List.filterMap_cons, ← ih]
    cases f k with
    | none => simp
    | some i => simp [firstFault_cons_iff]

end FirstFault

/-! ## Faults of computations -/

/-- A computation fails with the given faults and no others. As it has one outcome, there is one
such fault at most. -/
def Reports (x : Except ε α) (fault : ε → Prop) : Prop :=
  ∀ e, x = .error e ↔ fault e

namespace Reports

variable {x : Except ε α} {fault fault' : ε → Prop}

theorem ok (a : α) : Reports (.ok a : Except ε α) fun _ => False :=
  fun _ => ⟨nofun, nofun⟩

theorem error (e : ε) : Reports (.error e : Except ε α) (· = e) :=
  fun _ => ⟨fun h => (Except.error.inj h).symm, fun h => congrArg _ h.symm⟩

theorem congr (hx : Reports x fault) (h : ∀ e, fault e ↔ fault' e) : Reports x fault' :=
  fun e => (hx e).trans (h e)

/-- The faults of the second of two steps are reported if the first one has none. -/
theorem bind {f : α → Except ε β} (hx : Reports x fault)
    (hf : ∀ a, x = .ok a → Reports (f a) fault') :
    Reports (x >>= f) fun e => fault e ∨ (∀ e', ¬ fault e') ∧ fault' e := by
  intro e
  cases x with
  | error e' =>
    have hfault : fault e' := (hx e').1 rfl
    constructor
    · intro h
      cases h
      exact .inl hfault
    · rintro (h | ⟨h, -⟩)
      · cases (hx e).2 h
        rfl
      · exact absurd hfault (h e')
  | ok a =>
    have hnone : ∀ e, ¬ fault e := fun e h => nomatch (hx e).2 h
    constructor
    · intro h
      exact .inr ⟨hnone, (hf a rfl e).1 h⟩
    · rintro (h | ⟨-, h⟩)
      · exact absurd h (hnone e)
      · exact (hf a rfl e).2 h

/-- A last step without faults adds none. -/
theorem bind_ok {f : α → β} (hx : Reports x fault) : Reports (x >>= fun a => .ok (f a)) fault :=
  (hx.bind fun _ _ => .ok _).congr fun _ => by simp

/-- A computation succeeds exactly if it has no fault to report. -/
theorem exists_ok_iff (hx : Reports x fault) : (∃ a, x = .ok a) ↔ ∀ e, ¬ fault e := by
  constructor
  · rintro ⟨a, rfl⟩ e he
    exact nomatch (hx e).2 he
  · intro h
    cases x with
    | error e => exact absurd ((hx e).1 rfl) (h e)
    | ok a => exact ⟨a, rfl⟩

/-- Steps whose faults do not depend on what came before report the first fault of their items. -/
theorem foldlM {ι : Type} {f : β → ι → Except ε β} {faultOf : ι → ε → Prop}
    (hf : ∀ b i, Reports (f b i) (faultOf i)) (items : List ι) (b : β) :
    Reports (items.foldlM f b) (FirstFault faultOf items) := by
  induction items generalizing b with
  | nil => exact (Reports.ok b).congr fun e => ⟨False.elim, fun h => not_firstFault_nil h⟩
  | cons i items ih =>
    rw [List.foldlM_cons]
    exact ((hf b i).bind fun b' _ => ih b').congr fun e => firstFault_cons_iff.symm

end Reports

end TemplateCompiler
