import TemplateCompiler.Proofs.Grammar.Expressions
import TemplateCompiler.Script.Grammar

/-!
# Statements in their text

With statements the rules are complete, so those of every depth lay out what they read.

## What this module delivers

* `loopStatement_lays`, `switchStatement_lays`, `guardedStatement_lays`: the statements with parts of
  their own.
* `statement_lays`: every statement that can stand inside a block.
* `level_laysOut`: the rules of every depth.
-/

set_option autoImplicit false

namespace TemplateCompiler.Resolve

open Script

theorem declaratorSnippets_eq_flatMap (decls : List Declarator) :
    declaratorSnippets decls = decls.flatMap fun decl => declaratorSnippets [decl] := by
  simp [declaratorSnippets]

theorem caseSnippets_eq_flatMap (cases : List Case) :
    caseSnippets cases = cases.flatMap fun c => caseSnippets [c] := by
  simp [caseSnippets]

end TemplateCompiler.Resolve

namespace TemplateCompiler.Script

open Text Reader Resolve

namespace Excerpt

variable {x : Excerpt} {s s₀ : ReaderState} {d : Deeper} {ctx : Context}

variable (hd : d.LaysOut x)

include hd

theorem parenthesizedHead_lays :
    x.Lays (parenthesizedHead d ctx) fun e => [.expr e] := by
  intro s hs
  simp only [parenthesizedHead, gives_bind, gives_pure]
  refine hs.expect (by simp) fun s₁ h₁ => h₁.read (expression_lays hd) fun e s₂ h₂ => ?_
  exact h₂.expect (by simp) fun s₃ h₃ => h₃

theorem block_lays : x.Lays (block d ctx) fun body => body.map .stmt := by
  intro s hs
  simp only [block, gives_bind]
  refine hs.expect (by simp) fun s₁ h₁ => ?_
  exact h₁.read ((hd.statement _ _).manyUntil (by simp) _).each fun body s₂ h₂ => h₂

/-! ## Declarations of variables -/

omit hd in
/-- A token that is a word is not the end. -/
theorem ne_eof_of_isWord {t : Token} {w : String} (h : isWord t w = true) : t ≠ .eof := by
  rintro rfl
  simp [isWord] at h

omit hd in
/-- The kind of a declaration is told without a change, and its word is there. -/
theorem declarationKind?_gives {Q : Option DeclKind → ReaderState → Prop}
    (hsome : s.current.token ≠ .eof → ∀ kind, Q (some kind) s) (hnone : Q none s) :
    Gives s declarationKind? Q := by
  simp only [declarationKind?, gives_bind, gives_token, gives_ite, gives_pure]
  split
  · exact hsome (ne_eof_of_isWord ‹_›) _
  split
  · exact hsome (ne_eof_of_isWord ‹_›) _
  split
  · refine peek_gives fun next _ => ?_
    split
    · exact hsome (ne_eof_of_isWord ‹_›) _
    · exact hnone
  · exact hnone

theorem declarator_lays (kind : DeclKind) (inHead : Bool) :
    x.Lays (declarator d ctx kind inHead) fun decl => declaratorSnippets [decl] := by
  intro s hs
  simp only [declarator, gives_bind, gives_require, gives_seesWord, gives_ite, gives_pure]
  refine hs.read (hd.binding ctx) fun target s₁ h₁ _ => ?_
  split
  · exact h₁
  refine h₁.accept (by simp) (fun s₂ h₂ => ?_) fun _ => h₁
  exact h₂.read (hd.assignment ctx) fun e s₃ h₃ => h₃

theorem variableDeclaration_gives (kind : DeclKind) (inHead : Bool)
    (hs : x.Along s [] s) (heof : s.current.token ≠ .eof) :
    Gives s (variableDeclaration d ctx kind inHead) fun decls s' =>
      x.Past s (declaratorSnippets decls) s' := by
  simp only [variableDeclaration, gives_bind]
  refine hs.advance heof fun s₁ h₁ => ?_
  refine h₁.read ((declarator_lays hd kind inHead).listOf _) fun decls s₂ h₂ => ?_
  rw [declaratorSnippets_eq_flatMap]
  exact h₂

/-! ## Loops -/

theorem loopRest_gives {head : Option Stmt}
    (h : x.Past s₀ (head.toList.map .stmt) s) :
    Gives s (loopRest d ctx head) fun st s' => x.Past s₀ [.stmt st] s' := by
  simp only [loopRest, gives_bind, gives_sees, gives_ite, gives_map, gives_pure]
  -- The body, when the parts before it are read.
  have hbody : ∀ (test step : Option Expr) (s₁ : ReaderState),
      x.Past s₀ (head.toList.map .stmt ++ test.toList.map .expr ++ step.toList.map .expr) s₁ →
      Gives s₁ (expect .parenClose) fun _ s₂ =>
        Gives s₂ (d.statement ctx.inLoop false) fun body s' =>
          x.Past s₀ [.stmt (.loop head test step body)] s' := fun test step s₁ h₁ =>
    h₁.expect (by simp) fun s₂ h₂ => h₂.read (hd.statement _ _) fun body s₃ h₃ => h₃.free rfl
  -- What follows the test.
  have hstep : ∀ (test : Option Expr) (s₁ : ReaderState),
      x.Past s₀ (head.toList.map .stmt ++ test.toList.map .expr) s₁ →
      Gives s₁ (expect .semicolon) fun _ s₂ =>
        if (s₂.current.token == .parenClose) = true then
          Gives s₂ (expect .parenClose) fun _ s₃ =>
            Gives s₃ (d.statement ctx.inLoop false) fun body s' =>
              x.Past s₀ [.stmt (.loop head test none body)] s'
        else
          Gives s₂ (expression d ctx.withIn) fun step s₃ =>
            Gives s₃ (expect .parenClose) fun _ s₄ =>
              Gives s₄ (d.statement ctx.inLoop false) fun body s' =>
                x.Past s₀ [.stmt (.loop head test (some step) body)] s' := by
    intro test s₁ h₁
    refine h₁.expect (by simp) fun s₂ h₂ => ?_
    split
    · exact hbody test none s₂ ((List.append_nil _).symm ▸ h₂)
    · exact h₂.read (expression_lays hd) fun step s₃ h₃ => hbody test (some step) s₃ h₃
  split
  · exact hstep none s ((List.append_nil _).symm ▸ h)
  · exact h.read (expression_lays hd) fun test s₁ h₁ => hstep (some test) s₁ h₁

theorem loopOver_gives {head : LoopHead} (h : x.Past s₀ (headSnippets head) s) :
    Gives s (loopOver d ctx head) fun st s' => x.Past s₀ [.stmt st] s' := by
  simp only [loopOver, gives_bind, gives_ite, gives_pure]
  -- The body, when the collection is read.
  have hbody : ∀ (e : Expr) (s₁ : ReaderState), x.Past s₀ (headSnippets head ++ [.expr e]) s₁ →
      Gives s₁ (expect .parenClose) fun _ s₂ =>
        Gives s₂ (d.statement ctx.inLoop false) fun body s' =>
          x.Past s₀ (headSnippets head ++ [.expr e, .stmt body]) s' := by
    intro e s₁ h₁
    refine h₁.expect (by simp) fun s₂ h₂ => h₂.read (hd.statement _ _) fun body s₃ h₃ => ?_
    rwa [List.append_assoc] at h₃
  refine h.acceptWord (fun s₁ h₁ => ?_) (h.expectWord fun s₁ h₁ => ?_)
  · refine h₁.read (hd.assignment _) fun e s₂ h₂ => ?_
    exact (hbody e s₂ h₂).mono fun _ s₃ h₃ => h₃.mono fun body s₄ h₄ => h₄.free rfl
  · refine h₁.read (expression_lays hd) fun e s₂ h₂ => ?_
    exact (hbody e s₂ h₂).mono fun _ s₃ h₃ => h₃.mono fun body s₄ h₄ => h₄.free rfl

theorem loopHead_lays : x.Lays (loopHead d ctx) fun st => [.stmt st] := by
  intro s hs
  simp only [loopHead, gives_bind]
  refine declarationKind?_gives (fun heof kind => ?_) ?_
  · simp only [seesLoopOver, gives_bind, gives_seesWord, gives_require, gives_ite, gives_pure]
    refine (variableDeclaration_gives hd kind true hs heof).mono fun decls s₁ h₁ => ?_
    split
    · exact fun _ _ => loopOver_gives hd h₁
    · have hhead : x.Past s [.stmt (.declare kind decls)] s₁ := h₁.free rfl
      exact hhead.expect (by simp) fun s₂ h₂ => loopRest_gives hd h₂
  · simp only [seesLoopOver, gives_bind, gives_seesWord, gives_ite, gives_pure]
    refine hs.accept (by simp) (fun s₁ h₁ => loopRest_gives hd h₁) ?_
    refine hs.read (expression_lays hd) fun e s₁ h₁ => ?_
    split
    · split
      · exact .fail
      · rename_i id hid
        have htarget : x.Past s [.expr (.ident id)] s₁ :=
          h₁.stays ((assignmentTarget?_stays hid).trans (.inner _))
        exact loopOver_gives hd (htarget.stays (.inner _))
      · rename_i target _ heq
        exact loopOver_gives hd (h₁.stays (assignmentTarget?_stays heq))
    · have hhead : x.Past s [.stmt (.expr e)] s₁ := h₁.free rfl
      exact hhead.expect (by simp) fun s₂ h₂ => loopRest_gives hd h₂

theorem loopStatement_lays : x.Lays (loopStatement d ctx) fun st => [.stmt st] := by
  intro s hs
  simp only [loopStatement, gives_bind, gives_require, gives_pure]
  refine hs.expectWord fun s₁ h₁ => h₁.optional (by simp) fun waits s₂ h₂ => ?_
  exact h₂.expect (by simp) fun s₃ h₃ => h₃.read (loopHead_lays hd) fun st s₄ h₄ _ => h₄

/-! ## Other statements -/

theorem caseBody_gives (n : Nat) {ss : List Snippet} (h : x.Past s₀ ss s) :
    Gives s (caseBody d ctx n) fun body s' => x.Past s₀ (ss ++ body.map .stmt) s' := by
  induction n generalizing s ss with
  | zero => exact .fail
  | succ n ih =>
    simp only [caseBody, gives_bind, gives_seesWord, gives_sees, gives_ite, gives_pure]
    split
    · exact (List.append_nil _).symm ▸ h
    · refine h.read (hd.statement _ _) fun st s₁ h₁ => (ih h₁).mono fun body s₂ h₂ => ?_
      rwa [List.append_assoc] at h₂

theorem switchCase_lays :
    x.Lays (switchCase d ctx) fun c => caseSnippets [c] := by
  intro s hs
  simp only [switchCase, gives_bind, gives_ite, gives_map, gives_pure]
  -- What follows the test.
  have hbody : ∀ (test : Option Expr) (s₁ : ReaderState), x.Past s (test.toList.map .expr) s₁ →
      Gives s₁ (expect .colon) fun _ s₂ => Gives s₂ (caseBody d ctx d.budget) fun body s' =>
        x.Past s (caseSnippets [.mk test body]) s' := by
    intro test s₁ h₁
    refine h₁.expect (by simp) fun s₂ h₂ => (caseBody_gives hd _ h₂).mono fun body s₃ h₃ => ?_
    rwa [caseSnippets, List.flatMap_singleton]
  refine hs.acceptWord (fun s₁ h₁ => hbody none s₁ h₁) (hs.expectWord fun s₁ h₁ => ?_)
  exact h₁.read (expression_lays hd) fun test s₂ h₂ => hbody (some test) s₂ h₂

theorem switchStatement_lays :
    x.Lays (switchStatement d ctx) fun st => [.stmt st] := by
  intro s hs
  simp only [switchStatement, gives_bind, gives_require, gives_pure]
  refine hs.expectWord fun s₁ h₁ => h₁.read (parenthesizedHead_lays hd) fun subject s₂ h₂ => ?_
  refine h₂.expect (by simp) fun s₃ h₃ => ?_
  refine h₃.read ((switchCase_lays hd).manyUntil (by simp) _) fun cases s₄ h₄ _ => ?_
  rw [← caseSnippets_eq_flatMap] at h₄
  exact h₄.free rfl

theorem guardedStatement_lays :
    x.Lays (guardedStatement d ctx) fun st => [.stmt st] := by
  intro s hs
  simp only [guardedStatement, gives_bind, gives_ite, gives_map, gives_pure]
  refine hs.expectWord fun s₁ h₁ => h₁.read (block_lays hd) fun body s₂ h₂ => ?_
  -- What follows the handler.
  have hfinal : ∀ (handler : Handler) (s₃ : ReaderState),
      x.Past s (body.map .stmt ++ handlerPieces handler) s₃ →
      Gives s₃ (acceptWord "finally") fun b s₄ =>
        if b = true then Gives s₄ (block d ctx) fun last s' =>
          x.Past s [.stmt (.guarded body handler (some (.block last)))] s'
        else x.Past s [.stmt (.guarded body handler none)] s₄ := by
    intro handler s₃ h₃
    refine h₃.acceptWord (fun s₄ h₄ => h₄.read (block_lays hd) fun last s₅ h₅ => ?_) ?_
    · exact (h₅.stays ((Stays.refl _).append (.free (s := .stmt (.block last)) rfl rfl))).free rfl
    · have hrow : x.Past s (body.map .stmt ++ handlerPieces handler ++ []) s₃ :=
        (List.append_nil _).symm ▸ h₃
      exact hrow.free rfl
  refine h₂.acceptWord (fun s₃ h₃ => h₃.accept (by simp) (fun s₄ h₄ => ?_) ?_) ?_
  · refine h₄.read (hd.binding ctx) fun param s₅ h₅ => h₅.expect (by simp) fun s₆ h₆ => ?_
    refine h₆.read (block_lays hd) fun caught s₇ h₇ => hfinal (.binding param caught) s₇ ?_
    rwa [List.append_assoc] at h₇
  · exact h₃.read (block_lays hd) fun caught s₄ h₄ => hfinal (.plain caught) s₄ h₄
  · -- Without a handler there is a last block.
    have hnone := hfinal .absent s₂ ((List.append_nil _).symm ▸ h₂)
    refine hnone.mono fun b s₃ h => ?_
    split
    · rwa [if_pos ‹_›] at h
    · exact .fail

omit hd in
/-- A jump, whose word is there. -/
theorem jumpStatement_gives (hs : x.Along s [] s) (heof : s.current.token ≠ .eof) :
    Gives s (jumpStatement ctx) fun st s' => x.Past s [.stmt st] s' := by
  simp only [jumpStatement, gives_bind, gives_seesWord, gives_require, gives_ite, gives_pure]
  refine hs.advance heof fun s₁ h₁ _ => h₁.acceptEnd fun ends s₂ h₂ => ?_
  split
  · exact h₂.free rfl
  · refine h₂.read (identifierReference_lays ctx) fun label s₃ h₃ _ => ?_
    exact h₃.expectEnd fun s₄ h₄ => h₄.free rfl

theorem labeledStatement_gives {label : Ident}
    (h : x.Past s₀ [.pat (.ident label)] s) :
    Gives s (labeledStatement d ctx label) fun st s' => x.Past s₀ [.stmt st] s' := by
  simp only [labeledStatement, gives_bind, gives_seesWord, gives_require, gives_ite, gives_pure]
  intro _
  split
  · refine fun _ => peek_gives fun next _ _ => ?_
    exact h.read (functionDeclaration_lays hd _) fun body s₁ h₁ => h₁.free rfl
  · exact h.read (hd.statement _ _) fun body s₁ h₁ => h₁.free rfl

theorem expressionStatement_lays :
    x.Lays (expressionStatement d ctx) fun st => [.stmt st] := by
  intro s hs
  simp only [expressionStatement, gives_bind, gives_token]
  refine hs.read (expression_lays hd) fun e s₁ h₁ => ?_
  split
  · rename_i id htoken
    simp only [gives_bind]
    refine (h₁.stays (.inner _)).advance (by simp [htoken]) fun s₂ h₂ => ?_
    exact labeledStatement_gives hd h₂
  · simp only [gives_bind, gives_pure]
    exact h₁.expectEnd fun s₂ h₂ => h₂.free rfl

theorem branchStatement_lays :
    x.Lays (branchStatement d ctx) fun st => [.stmt st] := by
  intro s hs
  simp only [branchStatement, gives_bind, gives_ite, gives_map, gives_pure]
  refine hs.expectWord fun s₁ h₁ => h₁.read (parenthesizedHead_lays hd) fun test s₂ h₂ => ?_
  refine h₂.read (hd.statement _ _) fun yes s₃ h₃ => h₃.acceptWord (fun s₄ h₄ => ?_) (h₃.free rfl)
  exact h₄.read (hd.statement _ _) fun no s₅ h₅ => h₅.free rfl

theorem untilStatement_lays :
    x.Lays (untilStatement d ctx) fun st => [.stmt st] := by
  intro s hs
  simp only [untilStatement, gives_bind, gives_pure]
  refine hs.expectWord fun s₁ h₁ => h₁.read (hd.statement _ _) fun body s₂ h₂ => ?_
  refine h₂.expectWord fun s₃ h₃ => h₃.read (parenthesizedHead_lays hd) fun test s₄ h₄ => ?_
  exact h₄.acceptEnd fun _ s₅ h₅ => h₅.free rfl

theorem resultStatement_lays :
    x.Lays (resultStatement d ctx) fun st => [.stmt st] := by
  intro s hs
  simp only [resultStatement, gives_bind, gives_require, gives_ite, gives_pure]
  refine fun _ => hs.expectWord fun s₁ h₁ => h₁.acceptEnd fun ends s₂ h₂ => ?_
  split
  · exact h₂.free rfl
  · refine h₂.read (expression_lays hd) fun e s₃ h₃ => ?_
    exact h₃.expectEnd fun s₄ h₄ => h₄.free rfl

theorem raiseStatement_lays :
    x.Lays (raiseStatement d ctx) fun st => [.stmt st] := by
  intro s hs
  simp only [raiseStatement, gives_bind, gives_newlineBefore, gives_require, gives_pure]
  refine hs.expectWord fun s₁ h₁ _ => h₁.read (expression_lays hd) fun e s₂ h₂ => ?_
  exact h₂.expectEnd fun s₃ h₃ => h₃.free rfl

/-- A statement whose first word is there. -/
theorem wordStatement_gives (declarations : Bool) (t : Token)
    (hs : x.Along s [] s) (heof : s.current.token ≠ .eof) :
    Gives s (wordStatement d ctx declarations t) fun st s' => x.Past s [.stmt st] s' := by
  unfold wordStatement
  -- A word, a head between parentheses and a statement.
  have hheaded : ∀ inner : Context, Gives s advance fun _ s₁ =>
      Gives s₁ (parenthesizedHead d ctx) fun e s₂ => Gives s₂ (d.statement inner false) fun body s' =>
        x.Past s [.expr e, .stmt body] s' := fun inner =>
    hs.advance heof fun s₁ h₁ => h₁.read (parenthesizedHead_lays hd) fun e s₂ h₂ =>
      h₂.read (hd.statement _ _) fun body s₃ h₃ => h₃
  refine .ite (fun _ => jumpStatement_gives hs heof) fun _ => ?_
  refine .ite (fun _ => ?_) fun _ => ?_
  · simp only [gives_bind, gives_pure]
    exact hs.advance heof fun s₁ h₁ => h₁.expectEnd fun s₂ h₂ => h₂.free rfl
  refine .ite (fun _ => untilStatement_lays hd s hs) fun _ => ?_
  refine .ite (fun _ => loopStatement_lays hd s hs) fun _ => ?_
  refine .ite (fun _ => branchStatement_lays hd s hs) fun _ => ?_
  refine .ite (fun _ => resultStatement_lays hd s hs) fun _ => ?_
  refine .ite (fun _ => switchStatement_lays hd s hs) fun _ => ?_
  refine .ite (fun _ => raiseStatement_lays hd s hs) fun _ => ?_
  refine .ite (fun _ => guardedStatement_lays hd s hs) fun _ => ?_
  refine .ite (fun _ => ?_) fun _ => ?_
  · simp only [gives_bind, gives_pure]
    refine (hheaded ctx.inLoop).mono fun _ s₁ h₁ => h₁.mono fun e s₂ h₂ => h₂.mono fun body s₃ h₃ => ?_
    exact h₃.free rfl
  refine .ite (fun _ => ?_) fun _ => ?_
  · simp only [gives_bind, gives_require, gives_pure]
    intro _
    refine (hheaded ctx).mono fun _ s₁ h₁ => h₁.mono fun e s₂ h₂ => h₂.mono fun body s₃ h₃ => ?_
    exact h₃.free rfl
  refine .ite (fun _ => ?_) fun _ => ?_
  · exact gives_bind.2 (gives_require.2 fun _ => functionDeclaration_lays hd _ s hs)
  refine .ite (fun _ => ?_) fun _ => ?_
  · exact gives_bind.2 (gives_require.2 fun _ => classDeclaration_lays hd s hs)
  refine .ite (fun _ => .fail) fun _ => ?_
  refine .ite (fun _ => ?_) fun _ => ?_
  · simp only [gives_bind, gives_pure]
    refine hs.read (expression_lays hd) fun e s₁ h₁ => ?_
    exact h₁.acceptEnd fun _ s₂ h₂ => h₂.free rfl
  refine .ite (fun _ => ?_) fun _ => expressionStatement_lays hd s hs
  simp only [gives_bind, gives_ite]
  refine peek_gives fun next _ => ?_
  split
  · refine hs.advance heof fun s₁ h₁ => ?_
    exact h₁.read (functionDeclaration_lays hd _) fun st s₂ h₂ => h₂
  · exact expressionStatement_lays hd s hs

theorem statement_lays (declarations : Bool) :
    x.Lays (statement d ctx declarations) fun st => [.stmt st] := by
  intro s hs
  simp only [statement, gives_bind, gives_token]
  split
  · rename_i htoken
    simp only [gives_bind, gives_pure]
    exact hs.advance (by simp [htoken]) fun s₁ h₁ => h₁.free rfl
  · simp only [gives_bind, gives_pure]
    exact hs.read (block_lays hd) fun body s₁ h₁ => h₁.free rfl
  · rename_i htoken
    have heof : s.current.token ≠ .eof := by simp [htoken]
    simp only [gives_bind]
    refine declarationKind?_gives (fun _ kind => ?_) (wordStatement_gives hd _ _ hs heof)
    split
    · rename_i kind _ _
      simp only [gives_bind, gives_pure]
      refine (variableDeclaration_gives hd kind false hs heof).mono fun decls s₁ h₁ => ?_
      exact h₁.expectEnd fun s₂ h₂ => h₂.free rfl
    · exact wordStatement_gives hd _ _ hs heof
  · exact expressionStatement_lays hd s hs

omit hd in
/-- The rules of every depth lay out what they read. -/
theorem level_laysOut (n : Nat) : (level n).LaysOut x := by
  induction n with
  | zero =>
    refine ⟨?_, ?_, ?_, ?_, ?_, ?_⟩
    all_goals intros; exact fun s hs => .fail
  | succ n ih =>
    exact ⟨fun _ => assignment_lays ih, fun _ => unaryExpression_lays ih, fun _ => leftHandSide_lays ih,
      fun _ => memberOrNew_lays ih, fun _ => bindingPattern_lays ih, fun _ => statement_lays ih⟩

end Excerpt

end TemplateCompiler.Script
