import TemplateCompiler.Proofs.Grammar.Statements
import TemplateCompiler.Proofs.Script.Placed

/-!
# Modules in their text

The items of a module follow each other. Each item starts at its first token and stops at its last
one, so its span has no white space at its ends.

## What this module delivers

* `ItemIn`: an item from one offset to another, with what it exports between them.
* `IsItem`, `moduleItem_gives`: an item takes all the tokens that are consumed for it.
* `Items`, `moduleItems_gives`: items that follow each other.
-/

set_option autoImplicit false

namespace TemplateCompiler.Script

open Text Reader Resolve

namespace Excerpt

variable (x : Excerpt)

/-- An item from one offset to another, with what it exports between them. -/
def ItemIn (lo hi : Nat) : ModuleItem → Prop
  | .exportDecl span declStart _ =>
    span = ⟨lo, hi⟩ ∧ x.Mark declStart ∧ lo ≤ declStart ∧ declStart ≤ hi
  | .exportDefault span value => span = ⟨lo, hi⟩ ∧ x.Laid lo hi [.expr value]
  | item => itemSpan item = ⟨lo, hi⟩

/-- Items that follow each other behind an offset, each with no white space at its ends. -/
def Items : Nat → List ModuleItem → Prop
  | _, [] => True
  | lo, item :: items => ∃ start stop, lo ≤ start ∧ start < stop ∧ x.Begins start ∧ x.Ends stop ∧
    x.ItemIn start stop item ∧ Items stop items

variable {x} {s s₀ : ReaderState} {d : Deeper} {ctx : Context}

/-! ## Names of modules and of what they export -/

theorem stringLiteral_lays : x.Lays stringLiteral fun _ => [] := by
  intro s hs
  simp only [stringLiteral, gives_bind, gives_token]
  split
  · rename_i htoken
    simp only [gives_bind, gives_require, gives_pure]
    exact fun _ => hs.advance (by simp [htoken]) fun s₁ h₁ => h₁
  · exact .fail

theorem fromClause_lays : x.Lays fromClause fun _ => [] := by
  intro s hs
  simp only [fromClause, gives_bind]
  exact hs.expectWord fun s₁ h₁ => h₁.read stringLiteral_lays fun _ s₂ h₂ => h₂

theorem exportName_lays : x.Lays exportName fun _ => [] := by
  intro s hs
  simp only [exportName, gives_bind, gives_token]
  split
  · exact stringLiteral_lays s hs
  · simp only [gives_bind, gives_pure]
    exact hs.read identifierName_lays fun _ s₁ h₁ => h₁.skip

theorem importSpecifier_lays : x.Lays (importSpecifier ctx) fun _ => [] := by
  intro s hs
  simp only [importSpecifier, gives_bind, gives_lexeme, gives_ite, gives_pure]
  refine hs.read exportName_lays fun _ s₁ h₁ => h₁.acceptWord (fun s₂ h₂ => ?_) ?_
  · exact h₂.read (bindingIdentifier_lays ctx) fun _ s₃ h₃ => h₃.skip
  · split
    · simp only [gives_bind, gives_require, gives_pure]
      exact fun _ => h₁
    · exact .fail

theorem importGroup_lays : x.Lays (importGroup d ctx) fun _ => [] := by
  intro s hs
  simp only [importGroup, gives_bind, gives_ite, gives_pure]
  refine hs.accept (by simp) (fun s₁ h₁ => h₁.expectWord fun s₂ h₂ => ?_) ?_
  · exact h₂.read (bindingIdentifier_lays ctx) fun _ s₃ h₃ => h₃.skip
  · refine hs.expect (by simp) fun s₁ h₁ => ?_
    exact h₁.read (importSpecifier_lays.listUntil (by simp) _) fun _ s₂ h₂ => h₂.skip

theorem importClause_lays : x.Lays (importClause d ctx) fun _ => [] := by
  intro s hs
  simp only [importClause, gives_bind, gives_token]
  split
  · simp only [gives_bind, gives_ite, gives_pure]
    refine hs.read (bindingIdentifier_lays ctx) fun _ s₁ h₁ => ?_
    refine h₁.accept (by simp) (fun s₂ h₂ => ?_) h₁.skip
    exact h₂.read importGroup_lays fun _ s₃ h₃ => h₃.skip
  · exact importGroup_lays s hs

theorem exportSpecifier_lays : x.Lays (exportSpecifier ctx) fun _ => [] := by
  intro s hs
  simp only [exportSpecifier, gives_bind, gives_lexeme, gives_ite, gives_pure]
  refine hs.read exportName_lays fun _ s₁ h₁ => h₁.acceptWord (fun s₂ h₂ => ?_) h₁
  exact h₂.read exportName_lays fun _ s₃ h₃ => h₃

/-! ## Imports and exports -/

variable (x) in
/-- An item of all the tokens that were consumed. -/
def IsItem (s : ReaderState) (item : ModuleItem) (s' : ReaderState) : Prop :=
  x.Took s s' ∧ x.ItemIn s.current.start s'.lastStop item

theorem importDeclaration_gives (hs : x.Along s [] s) :
    Gives s (importDeclaration d ctx s.current.start) (x.IsItem s) := by
  simp only [importDeclaration, gives_bind, gives_token]
  refine hs.expectWord fun s₁ h₁ => ?_
  split
  · simp only [gives_bind, gives_spanFrom, gives_pure]
    refine h₁.read stringLiteral_lays fun _ s₂ h₂ => ?_
    exact h₂.expectEnd fun s₃ h₃ => ⟨h₃.took, rfl⟩
  · simp only [gives_bind, gives_spanFrom, gives_pure]
    refine h₁.read importClause_lays fun _ s₂ h₂ => h₂.read fromClause_lays fun _ s₃ h₃ => ?_
    exact h₃.expectEnd fun s₄ h₄ => ⟨h₄.took, rfl⟩

section

/-! What follows the word `export`, which the item starts with. -/

variable (h : x.Past s₀ [] s)

include h

theorem exportNames_gives : Gives s (exportNames d ctx s₀.current.start) (x.IsItem s₀) := by
  simp only [exportNames, gives_bind, gives_seesWord, gives_ite, gives_require, gives_spanFrom,
    gives_pure]
  refine h.expect (by simp) fun s₁ h₁ => ?_
  refine h₁.read (exportSpecifier_lays.listUntil (by simp) _) fun _ s₂ h₂ => ?_
  split
  · refine h₂.read fromClause_lays fun _ s₃ h₃ => ?_
    exact h₃.expectEnd fun s₄ h₄ => ⟨h₄.took, rfl⟩
  · exact fun _ => h₂.acceptEnd fun _ s₃ h₃ => ⟨h₃.took, rfl⟩

theorem exportStar_gives : Gives s (exportStar s₀.current.start) (x.IsItem s₀) := by
  simp only [exportStar, gives_bind, gives_ite, gives_spanFrom, gives_pure]
  refine h.acceptWord (fun s₁ h₁ => h₁.read exportName_lays fun _ s₂ h₂ => ?_) ?_
  · refine h₂.read fromClause_lays fun _ s₃ h₃ => ?_
    exact h₃.expectEnd fun s₄ h₄ => ⟨h₄.took, rfl⟩
  · refine h.read fromClause_lays fun _ s₁ h₁ => ?_
    exact h₁.expectEnd fun s₂ h₂ => ⟨h₂.took, rfl⟩

theorem exportDefault_gives (hd : d.LaysOut x) :
    Gives s (exportDefault d ctx s₀.current.start) (x.IsItem s₀) := by
  simp only [exportDefault, gives_bind, gives_lexeme, gives_ite, gives_spanFrom, gives_pure]
  split
  · exact h.read (classExpression_lays hd) fun _ s₁ h₁ => ⟨h₁.took, rfl⟩
  split
  · exact (functionExpression_gives hd _ h.ready.along).mono fun _ s₁ h₁ => ⟨(h.then h₁).took, rfl⟩
  refine peek_gives fun next _ => ?_
  split
  · rename_i hasync
    have heof : s.current.token ≠ .eof := by
      simp only [Bool.and_eq_true] at hasync
      exact ne_eof_of_isWord hasync.1.1
    refine h.ready.along.advance heof fun s₁ h₁ => ?_
    exact (functionExpression_gives hd _ h₁.toAlong).mono fun _ s₂ h₂ => ⟨(h.then h₂).took, rfl⟩
  · refine h.read (hd.assignment _) fun value s₁ h₁ => ?_
    exact h₁.expectEnd fun s₂ h₂ => ⟨h₂.took, rfl, h₂.laid⟩

theorem exportedDeclaration_gives (hd : d.LaysOut x) :
    Gives s (exportedDeclaration d ctx s₀.current.start) (x.IsItem s₀) := by
  simp only [exportedDeclaration, gives_bind, gives_lexeme, gives_require]
  refine fun _ => (hd.statement _ _ s h.ready.along).mono fun decl s₁ h₁ => ?_
  split
  · exact .fail
  · exact .fail
  · simp only [gives_bind, gives_spanFrom, gives_pure]
    exact ⟨(h.then h₁).took, rfl, h.ready.current.mark, h.before.le, h₁.laid.le⟩

end

theorem exportDeclaration_gives (hd : d.LaysOut x) (hs : x.Along s [] s) :
    Gives s (exportDeclaration d ctx s.current.start) (x.IsItem s) := by
  simp only [exportDeclaration, gives_bind, gives_sees, gives_ite]
  refine hs.expectWord fun s₁ h₁ => h₁.accept (by simp) (fun s₂ h₂ => exportStar_gives h₂) ?_
  refine h₁.acceptWord (fun s₂ h₂ => exportDefault_gives h₂ hd) ?_
  split
  · exact exportNames_gives h₁
  · exact exportedDeclaration_gives h₁ hd

/-! ## Items -/

theorem awaitStatement_lays (hd : d.LaysOut x) :
    x.Lays (awaitStatement d ctx) fun st => [.stmt st] := by
  intro s hs
  simp only [awaitStatement, gives_bind, gives_pure]
  refine hs.read (awaitExpression_lays hd) fun e s₁ h₁ => ?_
  refine (binaryTail_gives hd _ _ h₁).mono fun e s₂ h₂ => ?_
  exact h₂.acceptEnd fun _ s₃ h₃ => h₃.free rfl

theorem moduleItem_gives (hd : d.LaysOut x) (hs : x.Along s [] s) :
    Gives s (moduleItem d ctx) (x.IsItem s) := by
  simp only [moduleItem, gives_bind, gives_lexeme, gives_ite, gives_spanFrom, gives_pure]
  -- A statement is an item.
  have hstatement : Gives s (d.statement ctx true) fun st s' =>
      x.IsItem s (.statement ⟨s.current.start, s'.lastStop⟩ st) s' :=
    hs.read (hd.statement _ _) fun _ s₁ h₁ => ⟨h₁.took, rfl⟩
  split
  · refine peek_gives fun next _ => ?_
    split
    · exact hstatement
    · exact importDeclaration_gives hs
  split
  · exact exportDeclaration_gives hd hs
  split
  · exact hs.read (awaitStatement_lays hd) fun _ s₁ h₁ => ⟨h₁.took, rfl⟩
  · exact hstatement

/-- A token that is not accepted changes nothing. -/
theorem accept_gives_false {t : Token} : Gives s (accept t) fun b s' => b = false → s' = s := by
  simp only [accept, gives_bind, gives_sees, gives_ite, gives_pure]
  split
  · exact fun _ _ _ h => Bool.noConfusion h
  · exact fun _ => trivial

/-- The items of a module, up to the end of the text. -/
theorem moduleItems_gives (hd : d.LaysOut x) (hs : x.Ready s) :
    Gives s (moduleItems d ctx) fun items _ => x.Items s.lastStop items := by
  unfold moduleItems
  generalize d.budget = n
  induction n generalizing s with
  | zero => exact .fail
  | succ n ih =>
    simp only [manyUntil, gives_bind, gives_ite, gives_pure]
    refine accept_gives_false.mono fun b s₁ hb => ?_
    split
    · exact trivial
    · rename_i hno
      cases hb (Bool.not_eq_true b ▸ hno)
      refine (moduleItem_gives hd hs.along).mono fun item s₂ h => ?_
      obtain ⟨h₂, hitem⟩ := h
      refine (ih h₂.ready).mono fun items _ hitems => ?_
      exact ⟨_, _, hs.before, by grind, h₂.begins, h₂.ends, hitem, hitems⟩

end Excerpt

end TemplateCompiler.Script
