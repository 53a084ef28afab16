import TemplateCompiler.Proofs.Grammar.Rows

/-!
# Reading pieces of code one after the other

A rule of the grammar consumes tokens and answers a piece of code. While it goes on, the pieces that
it has read so far lie one behind the other between its first token and its last one. Each step adds
to this row, and in the end the row is closed into the answer.

## What this module delivers

* `Along`, `Past`: states that a rule gets to, with the pieces behind it.
* `Lays`: a reader whose answers lie in the text that it consumed.
* `Along.accept`, `Along.expect`, `Along.read`: the steps of a rule.
* `Past.free`, `Past.expr`, `Past.extend`: rows that are closed.
* `Lays.listUntil`, `Lays.manyUntil`, `Lays.listOf`: repetitions lay out what they repeat.
* `Deeper.LaysOut`: rules that lay out what they read, for the rules that use them.
-/

set_option autoImplicit false

namespace TemplateCompiler.Script

open Text Reader Resolve

namespace Excerpt

variable (x : Excerpt)

/-- A state with pieces of code behind it that were read since another one, or the other one itself. -/
structure Along (s : ReaderState) (ss : List Snippet) (s' : ReaderState) : Prop where
  ready : x.Ready s'
  base : s' = s ∨ x.Took s s'
  before : x.Laid s.current.start s'.current.start ss

/-- A state that is reached by consuming tokens, with the pieces of code that they are. -/
structure Past (s : ReaderState) (ss : List Snippet) (s' : ReaderState) : Prop
    extends x.Along s ss s' where
  took : x.Took s s'
  laid : x.Laid s.current.start s'.lastStop ss

/-- A reader that consumes tokens and answers pieces of code that lie where they stood. -/
def Lays {α : Type} (r : Reader α) (f : α → List Snippet) : Prop :=
  ∀ s, x.Along s [] s → Gives s r fun a s' => x.Past s (f a) s'

variable {x} {s s₀ s' : ReaderState} {ss : List Snippet}

attribute [grind →] Along.ready Past.took

theorem Ready.along (hs : x.Ready s) : x.Along s [] s :=
  ⟨hs, .inl rfl, .nil (Nat.le_refl _)⟩

/-- The current token, if there is room for it. -/
theorem Ready.spans {hi : Nat} (hs : x.Ready s) (hto : s.current.stop ≤ hi) :
    x.Spans s.current.start hi s.current.span :=
  ⟨hs.current.mark, hs.current.after.mark, Nat.le_refl _, hs.current.le, hto⟩

theorem Took.past (h : x.Took s s') (hlaid : x.Laid s.current.start s'.lastStop ss) :
    x.Past s ss s' :=
  ⟨⟨h.ready, .inr h, hlaid.mono (Nat.le_refl _) h.ready.before⟩, h, hlaid⟩

/-- The tokens that were consumed. -/
theorem Took.spans (h : x.Took s s') :
    x.Spans s.current.start s'.lastStop ⟨s.current.start, s'.lastStop⟩ := by
  refine ⟨h.begins.mark, h.ends.mark, Nat.le_refl _, ?_, Nat.le_refl _⟩
  show s.current.start ≤ s'.lastStop
  grind

/-! ## Steps -/

theorem Along.take (h : x.Along s₀ ss s) (h' : x.Took s s') : x.Past s₀ ss s' := by
  have htook : x.Took s₀ s' := by
    rcases h.base with rfl | h₀
    · exact h'
    · exact h₀.trans h'
  exact htook.past (h.before.mono (Nat.le_refl _) (by grind))

theorem Along.then {ss' : List Snippet} (h : x.Along s₀ ss s) (h' : x.Past s ss' s') :
    x.Past s₀ (ss ++ ss') s' :=
  (h.take h'.took).took.past (h.before.append h'.laid (Nat.le_refl _))

section

variable {α : Type} {r : Reader α} {f : α → List Snippet} {t : Token} {w : String}
  {Q : α → ReaderState → Prop} {U : Unit → ReaderState → Prop} {B : Bool → ReaderState → Prop}
  {yes no : ReaderState → Prop}

theorem Along.read (h : x.Along s₀ ss s) (hr : x.Lays r f)
    (hQ : ∀ a s', x.Past s₀ (ss ++ f a) s' → Q a s') : Gives s r Q :=
  (hr s h.ready.along).mono fun a s' h' => hQ a s' (h.then h')

theorem Along.advance (h : x.Along s₀ ss s) (heof : s.current.token ≠ .eof)
    (hU : ∀ s', x.Past s₀ ss s' → U () s') : Gives s advance U :=
  (advance_gives h.ready heof).mono fun _ s' h' => hU s' (h.take h')

theorem Along.accept (h : x.Along s₀ ss s) (ht : t ≠ .eof) (hyes : ∀ s', x.Past s₀ ss s' → yes s')
    (hno : no s) : Gives s (accept t) fun b s' => if b = true then yes s' else no s' := by
  simp only [Reader.accept, gives_bind, gives_sees]
  -- What is accepted is the current token, which is not the end of the text then.
  refine .ite (fun htoken => ?_) fun _ => ?_
  · refine gives_bind.2 (h.advance (by simpa [beq_iff_eq.1 htoken] using ht) fun s' h' => ?_)
    exact gives_pure.2 (hyes s' h')
  · exact gives_pure.2 hno

theorem Along.expect (h : x.Along s₀ ss s) (ht : t ≠ .eof) (hU : ∀ s', x.Past s₀ ss s' → U () s') :
    Gives s (expect t) U := by
  simp only [Reader.expect, gives_bind, gives_require]
  have hstep : Gives s (Reader.accept t) fun b s' => if b = true then U () s' else True :=
    h.accept ht hU trivial
  refine hstep.mono fun b s' hb hb' => ?_
  rwa [if_pos hb'] at hb

theorem Along.acceptWord (h : x.Along s₀ ss s) (hyes : ∀ s', x.Past s₀ ss s' → yes s') (hno : no s) :
    Gives s (acceptWord w) fun b s' => if b = true then yes s' else no s' :=
  h.accept (by simp) hyes hno

theorem Along.expectWord (h : x.Along s₀ ss s) (hU : ∀ s', x.Past s₀ ss s' → U () s') :
    Gives s (expectWord w) U :=
  h.expect (by simp) hU

/-- Whether a token is consumed or not, the row stays. -/
theorem Past.optional (h : x.Past s₀ ss s) (ht : t ≠ .eof) (hB : ∀ b s', x.Past s₀ ss s' → B b s') :
    Gives s (Reader.accept t) B := by
  have hstep : Gives s (Reader.accept t) fun b s' => if b = true then B true s' else B false s' :=
    h.accept ht (hB true) (hB false s h)
  refine hstep.mono fun b s' hb => ?_
  cases b
  · exact hb
  · exact hb

theorem Past.acceptEnd (h : x.Past s₀ ss s) (hB : ∀ b s', x.Past s₀ ss s' → B b s') :
    Gives s acceptEnd B := by
  simp only [Reader.acceptEnd, gives_bind, gives_ite, gives_pure]
  exact h.accept (by simp) (hB true) (seesEnd_gives fun b => hB b s h)

theorem Past.expectEnd (h : x.Past s₀ ss s) (hU : ∀ s', x.Past s₀ ss s' → U () s') :
    Gives s expectEnd U := by
  simp only [Reader.expectEnd, gives_bind, gives_require]
  exact h.acceptEnd fun b s' h' _ => hU s' h'

end

/-! ## Closed rows -/

theorem Past.stays {ss' : List Snippet} (h : x.Past s ss s') (hstays : x.Stays ss ss') :
    x.Past s ss' s' :=
  h.took.past (hstays _ _ h.laid)

/-- The pieces of code are not looked at any more. -/
theorem Past.skip (h : x.Past s ss s') : x.Past s [] s' :=
  h.took.past (.nil h.laid.le)

/-- A piece of code that can lie anywhere. -/
theorem Past.free {p : Snippet} (h : x.Past s p.row s') (hfree : p.isFree = true) :
    x.Past s [p] s' :=
  h.stays (.free rfl hfree)

/-- An expression of all the tokens that were consumed. -/
theorem Past.expr {e : Expr} (h : x.Past s (Snippet.expr e).row s')
    (hspan : e.span = ⟨s.current.start, s'.lastStop⟩) : x.Past s [.expr e] s' :=
  h.took.past (h.laid.expr h.took.begins.mark h.took.ends.mark hspan)

/-- An expression that starts where the first piece does. -/
theorem Past.extend {e e' : Expr} (h : x.Past s (.expr e :: ss) s')
    (hspan : e'.span = ⟨e.span.start, s'.lastStop⟩) (hrow : (Snippet.expr e').row = .expr e :: ss) :
    x.Past s [.expr e'] s' :=
  h.took.past (h.laid.extend h.took.ends.mark hspan hrow)

/-- An expression of the first token. -/
theorem Past.leaf {e : Expr} (h : x.Past s [] s') (hs : x.Ready s) (hspan : e.span = s.current.span)
    (hrow : (Snippet.expr e).row = []) : x.Past s [.expr e] s' := by
  have hspans := hs.spans h.took.far
  have hnil : x.Laid s.current.start s.current.stop (Snippet.expr e).row := hrow ▸ .nil hs.current.le
  exact h.took.past ((hnil.expr hspans.start hspans.stop hspan).mono (Nat.le_refl _) h.took.far)

/-- The first token as a name. -/
theorem Past.name {name : Text} (h : x.Past s [] s') (hs : x.Ready s) :
    x.Past s [.pat (.ident ⟨name, s.current.span⟩)] s' :=
  h.took.past (.name (hs.spans h.took.far) h.took.lt)

theorem Past.exprIdent {id : Ident} (h : x.Past s [.pat (.ident id)] s') :
    x.Past s [.expr (.ident id)] s' :=
  h.took.past h.laid.exprIdent

/-! ## Repetitions -/

section

variable {α : Type} {item : Reader α} {f : α → List Snippet} {close : Token}

theorem Lays.listUntil (hitem : x.Lays item f) (hclose : close ≠ .eof) (n : Nat) :
    x.Lays (Reader.listUntil close item n) fun items => items.flatMap f := by
  induction n with
  | zero => exact fun s hs => .fail
  | succ n ih =>
    intro s hs
    simp only [Reader.listUntil, gives_bind, gives_ite, gives_pure]
    -- The list ends before an item, or behind one, or goes on behind a comma.
    refine hs.accept hclose (fun s₁ h₁ => h₁) ?_
    refine hs.read hitem fun a s₁ h₁ => ?_
    refine h₁.accept hclose (fun s₂ h₂ => ?_) ?_
    · rw [List.flatMap_singleton]
      exact h₂
    · refine h₁.expect (by simp) fun s₂ h₂ => h₂.read ih fun items s₃ h₃ => ?_
      rw [List.flatMap_cons]
      exact h₃

theorem Lays.manyUntil (hitem : x.Lays item f) (hclose : close ≠ .eof) (n : Nat) :
    x.Lays (Reader.manyUntil close item n) fun items => items.flatMap f := by
  induction n with
  | zero => exact fun s hs => .fail
  | succ n ih =>
    intro s hs
    simp only [Reader.manyUntil, gives_bind, gives_ite, gives_pure]
    refine hs.accept hclose (fun s₁ h₁ => h₁) ?_
    refine hs.read hitem fun a s₁ h₁ => h₁.read ih fun items s₂ h₂ => ?_
    rw [List.flatMap_cons]
    exact h₂

theorem Lays.listOf (hitem : x.Lays item f) (n : Nat) :
    x.Lays (Reader.listOf item n) fun items => items.flatMap f := by
  induction n with
  | zero => exact fun s hs => .fail
  | succ n ih =>
    intro s hs
    simp only [Reader.listOf, gives_bind, gives_ite, gives_pure]
    refine hs.read hitem fun a s₁ h₁ => h₁.accept (by simp) (fun s₂ h₂ => ?_) ?_
    · refine h₂.read ih fun items s₃ h₃ => ?_
      rw [List.flatMap_cons]
      exact h₃
    · rw [List.flatMap_singleton]
      exact h₁

/-- A repetition of items that are pieces of code. -/
theorem Lays.each {g : α → Snippet} {r : Reader (List α)}
    (h : x.Lays r fun items => items.flatMap fun a => [g a]) :
    x.Lays r fun items => items.map g := by
  intro s hs
  refine (h s hs).mono fun items s₁ h₁ => ?_
  show x.Past s (items.map g) s₁
  rw [List.map_eq_flatMap]
  exact h₁

end

/-! ## Names -/

theorem identifierName_lays : x.Lays identifierName fun id => [.pat (.ident id)] := by
  intro s hs
  simp only [identifierName, gives_bind, gives_lexeme]
  split
  · rename_i htoken
    simp only [gives_bind, gives_pure]
    exact hs.advance (by simp [htoken]) fun s₁ h₁ => h₁.name hs.ready
  · exact .fail

theorem identifierReference_lays (ctx : Context) :
    x.Lays (identifierReference ctx) fun id => [.pat (.ident id)] := by
  intro s hs
  simp only [identifierReference, gives_bind, gives_get, gives_require, gives_pure]
  exact hs.read identifierName_lays fun id s₁ h₁ _ => h₁

theorem bindingIdentifier_lays (ctx : Context) :
    x.Lays (bindingIdentifier ctx) fun id => [.pat (.ident id)] := by
  intro s hs
  simp only [bindingIdentifier, gives_bind, gives_require, gives_pure]
  exact hs.read (identifierReference_lays ctx) fun id s₁ h₁ _ => h₁

end Excerpt

/-- Rules whose answers lie where they stood. -/
structure Deeper.LaysOut (d : Deeper) (x : Excerpt) : Prop where
  assignment : ∀ ctx, x.Lays (d.assignment ctx) fun e => [.expr e]
  unary : ∀ ctx, x.Lays (d.unary ctx) fun e => [.expr e]
  leftHandSide : ∀ ctx, x.Lays (d.leftHandSide ctx) fun e => [.expr e]
  constructed : ∀ ctx, x.Lays (d.constructed ctx) fun e => [.expr e]
  binding : ∀ ctx, x.Lays (d.binding ctx) fun p => [.pat p]
  statement : ∀ ctx declarations, x.Lays (d.statement ctx declarations) fun s => [.stmt s]

end TemplateCompiler.Script
