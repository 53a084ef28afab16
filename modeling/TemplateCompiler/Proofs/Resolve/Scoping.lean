import Mathlib.Data.List.Basic
import TemplateCompiler.Proofs.Resolve.References
import TemplateCompiler.Resolve.Reference

/-!
# Resolution follows static scoping

Resolving an expression carries a scope down the code and looks every name up in it. Here the outcome
is said reference by reference: a name gets the accessor of the data unless some binder around it, or
the scope of the whole expression, binds it; and the root of a callee that is a helper gets the
accessor of the helpers, whatever is bound.

One step of the argument is about one construct: what it inserts is what it is itself in need of, and
then what its parts insert in the scopes that its binders make. The table of parts turns the steps into
one induction.

## What this module delivers

* `insertionFor`: what one reference needs.
* `Scope.enter`, `insertionsOfAll_congr`: scopes made by binders.
* `resolve_eq_recordAll_occurrences`: resolution is that, for all references in order.
-/

set_option autoImplicit false

namespace TemplateCompiler.Resolve

open Script

/-! ## What a reference needs -/

/-- What a free name gets: a shorthand becomes a key with the accessor behind it. -/
def Occurrence.dataText (o : Occurrence) : Text :=
  if o.role = .shorthand then o.id.name ++ ": ".toList ++ dataAccessor else dataAccessor

/-- What a reference needs in the scope of the whole code. -/
def insertionFor (isHelper : Text → Bool) (scope : Scope) (o : Occurrence) : Option Insertion :=
  if o.role = .callee ∧ isHelper o.id.name = true then some (o.id.span.start, helpersAccessor)
  else if o.Bound ∨ scope.contains o.id.name = true then none
  else some (o.id.span.start, o.dataText)

/-! ## Scopes made by binders -/

/-- A scope inside of binders, the first of which is the innermost. -/
def enter (scope : Scope) (bs : List Binder) : Scope :=
  bs.foldr (fun b s => s.push b.names) scope

@[simp] theorem enter_nil (scope : Scope) : enter scope [] = scope := rfl

@[simp] theorem enter_cons (scope : Scope) (b : Binder) (bs : List Binder) :
    enter scope (b :: bs) = (enter scope bs).push b.names := rfl

theorem contains_enter (scope : Scope) (bs : List Binder) (x : Text) :
    (enter scope bs).contains x = true ↔ (∃ b ∈ bs, b.Binds x) ∨ scope.contains x = true := by
  induction bs with
  | nil => simp
  | cons b bs ih =>
    rw [enter_cons, Scope.contains_push, Bool.or_eq_true, ih, List.contains_iff_mem,
      b.mem_names_iff]
    simp [or_assoc]

theorem insertionFor_under (isHelper : Text → Bool) (scope : Scope) (bs : List Binder)
    (o : Occurrence) :
    insertionFor isHelper scope (o.under bs) = insertionFor isHelper (enter scope bs) o := by
  have hbound : (o.under bs).Bound ∨ scope.contains o.id.name = true ↔
      o.Bound ∨ (enter scope bs).contains o.id.name = true := by
    rw [contains_enter]
    simp [Occurrence.Bound, Occurrence.under, or_and_right, exists_or, or_assoc]
  have hid : (o.under bs).id = o.id := rfl
  have hrole : (o.under bs).role = o.role := rfl
  simp only [insertionFor, Occurrence.dataText, hid, hrole, hbound]

mutual

theorem insertions_congr {isHelper : Text → Bool} :
    (o : Outline) → {scope scope' : Scope} → (∀ x, scope.contains x = scope'.contains x) →
      insertions isHelper scope o = insertions isHelper scope' o
  | .reference id, _, _, h => by
    rw [insertions, insertions, referenceInsertion, referenceInsertion, h]
  | .shorthand id, _, _, h => by
    rw [insertions, insertions, shorthandInsertion, shorthandInsertion, h]
  | .call root callee args, _, _, h => by
    rw [insertions, insertions, insertionsOfAll_congr callee h, insertionsOfAll_congr args h]
  | .scope names inner, _, _, h => by
    rw [insertions, insertions]
    exact insertionsOfAll_congr inner fun x => by simp [h x]

/-- Only what a scope contains matters. -/
theorem insertionsOfAll_congr {isHelper : Text → Bool} :
    (os : List Outline) → {scope scope' : Scope} → (∀ x, scope.contains x = scope'.contains x) →
      insertionsOfAll isHelper scope os = insertionsOfAll isHelper scope' os
  | [], _, _, _ => rfl
  | o :: os, _, _, h => by
    rw [insertionsOfAll, insertionsOfAll, insertions_congr o h, insertionsOfAll_congr os h]

end

/-! ## What a piece of code inserts -/

section

variable (isHelper : Text → Bool) (scope : Scope)

/-- What a callee inserts. -/
def calleeInsertions (e : Expr) : List Insertion :=
  match helperRoot? isHelper (memberRoot? e) with
  | some id => [(id.span.start, helpersAccessor)]
  | none => insertionsOfAll isHelper scope (exprOutline e)

/-- What a piece of code inserts. -/
def phraseInsertions : Phrase → List Insertion
  | .expr e => insertionsOfAll isHelper scope (exprOutline e)
  | .callee e => calleeInsertions isHelper scope e
  | .key k => insertionsOfAll isHelper scope (keyOutline k)
  | .prop p => insertionsOfAll isHelper scope (propOutline p)
  | .pat p => insertionsOfAll isHelper scope (patOutline p)
  | .stmt s => insertionsOfAll isHelper scope (stmtOutline s)

/-- What parts insert, each in the scope that its binders make. -/
def partsInsertions (ps : List Part) : List Insertion :=
  ps.flatMap fun p => phraseInsertions isHelper (enter scope p.binders) p.phrase

@[simp] theorem insertionsOfAll_nil : insertionsOfAll isHelper scope [] = [] := by
  rw [insertionsOfAll]

@[simp] theorem insertionsOfAll_append (os os' : List Outline) :
    insertionsOfAll isHelper scope (os ++ os') =
      insertionsOfAll isHelper scope os ++ insertionsOfAll isHelper scope os' := by
  induction os with
  | nil => rfl
  | cons o os ih => rw [List.cons_append, insertionsOfAll, insertionsOfAll, ih, List.append_assoc]

@[simp] theorem insertionsOfAll_singleton (o : Outline) :
    insertionsOfAll isHelper scope [o] = insertions isHelper scope o := by
  rw [insertionsOfAll, insertionsOfAll, List.append_nil]

@[simp] theorem partsInsertions_nil : partsInsertions isHelper scope [] = [] := rfl

@[simp] theorem partsInsertions_append (ps qs : List Part) :
    partsInsertions isHelper scope (ps ++ qs) =
      partsInsertions isHelper scope ps ++ partsInsertions isHelper scope qs :=
  List.flatMap_append

@[simp] theorem partsInsertions_inside (bs : List Binder) (phrases : List Phrase) :
    partsInsertions isHelper scope (inside bs phrases) =
      phrases.flatMap (phraseInsertions isHelper (enter scope bs)) := by
  rw [partsInsertions, inside, List.flatMap_map]

@[simp] theorem insertionsOfAll_exprs (es : List Expr) :
    insertionsOfAll isHelper scope (exprsOutline es) =
      (es.map .expr).flatMap (phraseInsertions isHelper scope) := by
  induction es with
  | nil => rfl
  | cons e es ih =>
    rw [exprsOutline, insertionsOfAll_append, ih]
    rfl

@[simp] theorem insertionsOfAll_props (ps : List Property) :
    insertionsOfAll isHelper scope (propsOutline ps) =
      (ps.map .prop).flatMap (phraseInsertions isHelper scope) := by
  induction ps with
  | nil => rfl
  | cons p ps ih =>
    rw [propsOutline, insertionsOfAll_append, ih]
    rfl

@[simp] theorem insertionsOfAll_pats (ps : List Pat) :
    insertionsOfAll isHelper scope (patsOutline ps) =
      (ps.map .pat).flatMap (phraseInsertions isHelper scope) := by
  induction ps with
  | nil => rfl
  | cons p ps ih =>
    rw [patsOutline, insertionsOfAll_append, ih]
    rfl

@[simp] theorem insertionsOfAll_stmts (body : List Stmt) :
    insertionsOfAll isHelper scope (stmtsOutline body) =
      (body.map .stmt).flatMap (phraseInsertions isHelper scope) := by
  induction body with
  | nil => rfl
  | cons s body ih =>
    rw [stmtsOutline, insertionsOfAll_append, ih]
    rfl

@[simp] theorem insertionsOfAll_optionExpr (e : Option Expr) :
    insertionsOfAll isHelper scope (optionExprOutline e) =
      (e.toList.map .expr).flatMap (phraseInsertions isHelper scope) := by
  cases e with
  | none => rfl
  | some e => exact (List.append_nil _).symm

@[simp] theorem insertionsOfAll_optionStmt (s : Option Stmt) :
    insertionsOfAll isHelper scope (optionStmtOutline s) =
      (s.toList.map .stmt).flatMap (phraseInsertions isHelper scope) := by
  cases s with
  | none => rfl
  | some s => exact (List.append_nil _).symm

@[simp] theorem insertionsOfAll_declarators (decls : List Declarator) :
    insertionsOfAll isHelper scope (declaratorsOutline decls) =
      (declaratorPhrases decls).flatMap (phraseInsertions isHelper scope) := by
  induction decls with
  | nil => rfl
  | cons d decls ih =>
    obtain ⟨target, init⟩ := d
    rw [declaratorsOutline, insertionsOfAll_append, insertionsOfAll_append, ih,
      insertionsOfAll_optionExpr]
    simp [declaratorPhrases, phraseInsertions]

@[simp] theorem insertionsOfAll_cases (cases : List Case) :
    insertionsOfAll isHelper scope (casesOutline cases) =
      (casePhrases cases).flatMap (phraseInsertions isHelper scope) := by
  induction cases with
  | nil => rfl
  | cons c cases ih =>
    obtain ⟨test, body⟩ := c
    rw [casesOutline, insertionsOfAll_append, insertionsOfAll_append, ih,
      insertionsOfAll_optionExpr, insertionsOfAll_stmts]
    simp [casePhrases]

@[simp] theorem insertionsOfAll_head (head : LoopHead) :
    insertionsOfAll isHelper scope (headOutline head) =
      (headPhrases head).flatMap (phraseInsertions isHelper scope) := by
  cases head with
  | declared kind decls => exact insertionsOfAll_declarators isHelper scope decls
  | target pat => exact (List.append_nil _).symm

theorem insertions_blockScope (body : List Stmt) :
    insertions isHelper scope (blockScope body (stmtsOutline body)) =
      partsInsertions isHelper scope (inside [.block body] (body.map .stmt)) := by
  rw [blockScope, insertions, insertionsOfAll_stmts, partsInsertions_inside]
  rfl

@[simp] theorem insertionsOfAll_handler (handler : Handler) :
    insertionsOfAll isHelper scope (handlerOutline handler) =
      partsInsertions isHelper scope (handlerParts handler) := by
  cases handler with
  | absent => rfl
  | plain body =>
    -- the layer of a handler without a parameter is empty
    have hempty : ∀ x, (scope.push []).contains x = scope.contains x := fun x => by simp
    rw [handlerOutline, insertionsOfAll_singleton, insertions, insertionsOfAll_singleton,
      insertions_congr _ hempty, insertions_blockScope]
    rfl
  | binding param body =>
    rw [handlerOutline, insertionsOfAll_singleton, insertions, insertionsOfAll_append,
      insertionsOfAll_singleton, insertions_blockScope, handlerParts]
    simp [phraseInsertions, Binder.names]

theorem insertions_functionScope (outer : List Binder) (params : List Pat) (body : List Stmt) :
    insertions isHelper (enter scope outer)
        (functionScope params body (patsOutline params) (stmtsOutline body)) =
      partsInsertions isHelper scope (functionParts outer params body) := by
  have hlayers : ∀ x,
      ((enter scope outer).push (patsBoundNames params ++ hoistedNames body)).contains x =
        (enter scope (.vars body :: .params params :: outer)).contains x := by
    intro x
    simp [Binder.names, Bool.or_assoc, Bool.or_left_comm]
  rw [functionScope, insertions, insertionsOfAll_congr _ hlayers, insertionsOfAll_append,
    insertionsOfAll_pats, insertionsOfAll_singleton, insertions_blockScope, functionParts,
    partsInsertions_append, partsInsertions_inside, partsInsertions_inside, partsInsertions_inside]
  rfl

end

/-! ## One construct -/

section

variable {isHelper : Text → Bool} (scope : Scope)

theorem referenceInsertion_eq (id : Ident) :
    referenceInsertion scope id =
      [⟨id, .reference, []⟩].filterMap (insertionFor isHelper scope) := by
  cases hbound : scope.contains id.name with
  | false =>
    simp [referenceInsertion, insertionFor, Occurrence.Bound, Occurrence.dataText, hbound]
  | true => simp [referenceInsertion, insertionFor, hbound]

theorem shorthandInsertion_eq (id : Ident) :
    shorthandInsertion scope id =
      [⟨id, .shorthand, []⟩].filterMap (insertionFor isHelper scope) := by
  cases hbound : scope.contains id.name with
  | false =>
    simp [shorthandInsertion, insertionFor, Occurrence.Bound, Occurrence.dataText, hbound]
  | true => simp [shorthandInsertion, insertionFor, hbound]

@[simp] theorem insertions_call (callee : Expr) (args : List Outline) :
    insertions isHelper scope (.call (memberRoot? callee) (exprOutline callee) args) =
      calleeInsertions isHelper scope callee ++ insertionsOfAll isHelper scope args := by
  rw [insertions, calleeInsertions]
  cases helperRoot? isHelper (memberRoot? callee) with
  | none => rfl
  | some id => rfl

theorem exprInsertions_step (e : Expr) (h : exprPermitted e) :
    insertionsOfAll isHelper scope (exprOutline e) =
      (Phrase.expr e).leaf.filterMap (insertionFor isHelper scope) ++
        partsInsertions isHelper scope (exprParts e) := by
  cases e with
  | ident id =>
    rw [exprOutline, insertionsOfAll_singleton, insertions]
    exact (referenceInsertion_eq scope id).trans (List.append_nil _).symm
  | function span name params body =>
    have hself : ∀ x, (scope.push (ownName name)).contains x =
        (enter scope (name.toList.map .self)).contains x := by
      intro x
      cases name <;> simp [ownName, Binder.names]
    rw [exprOutline, insertionsOfAll_singleton, insertions, insertionsOfAll_singleton,
      insertions_congr _ hself, insertions_functionScope]
    rfl
  | arrow span params body =>
    rw [exprOutline, insertionsOfAll_singleton]
    exact insertions_functionScope isHelper scope [] params body
  | classExpr span name heritage members => exact h.elim
  | arrowExpr span params body =>
    simp [exprOutline, exprParts, Phrase.leaf, phraseInsertions, insertions, Binder.names]
  | _ => simp [exprOutline, exprParts, Phrase.leaf, phraseInsertions]

/-- A free name gets the accessor of the data in front. -/
example : insertionsOfAll (fun _ => false) .root (exprOutline (.ident ⟨"a".toList, ⟨3, 4⟩⟩)) =
    [(3, dataAccessor)] := by
  decide +kernel

theorem helperRoot?_eq_some_iff {root : Option Ident} {id : Ident} :
    helperRoot? isHelper root = some id ↔ root = some id ∧ isHelper id.name = true := by
  cases root with
  | none => simp [helperRoot?]
  | some id' =>
    simp only [helperRoot?, Option.ite_none_right_eq_some, Option.some.injEq]
    constructor
    · rintro ⟨hhelper, rfl⟩
      exact ⟨rfl, hhelper⟩
    · rintro ⟨rfl, hhelper⟩
      exact ⟨hhelper, rfl⟩

theorem calleeInsertions_step (e : Expr) (h : calleePermitted isHelper e) :
    calleeInsertions isHelper scope e =
      (Phrase.callee e).leaf.filterMap (insertionFor isHelper scope) ++
        partsInsertions isHelper scope (calleeParts e) := by
  cases e with
  | ident id =>
    cases hhelper : isHelper id.name with
    | false =>
      have hroot : helperRoot? isHelper (memberRoot? (.ident id)) = none := by
        simp [memberRoot?, helperRoot?, hhelper]
      have hplain : insertionFor isHelper scope ⟨id, .callee, []⟩ =
          insertionFor isHelper scope ⟨id, .reference, []⟩ := by
        simp [insertionFor, hhelper, Occurrence.Bound, Occurrence.dataText]
      rw [calleeInsertions, hroot, exprOutline, insertionsOfAll_singleton, insertions,
        @referenceInsertion_eq isHelper]
      simp [calleeParts, exprParts, Phrase.leaf, List.filterMap_cons, hplain]
    | true =>
      simp [calleeInsertions, memberRoot?, helperRoot?, calleeParts, exprParts, Phrase.leaf,
        insertionFor, hhelper]
  | member span object key =>
    have hparts : partsInsertions isHelper scope (calleeParts (.member span object key)) =
        calleeInsertions isHelper scope object ++ insertionsOfAll isHelper scope (keyOutline key) := by
      simp [calleeParts, phraseInsertions]
    rw [hparts, calleeInsertions, calleeInsertions, memberRoot?]
    cases hroot : helperRoot? isHelper (memberRoot? object) with
    | none => simp [exprOutline, Phrase.leaf]
    | some id =>
      -- the callee is left as it is, and its keys are fixed
      cases key with
      | computed span e =>
        obtain ⟨hmember, hhelper⟩ := helperRoot?_eq_some_iff.1 hroot
        rw [h id hmember] at hhelper
        cases hhelper
      | _ => simp [keyOutline, Phrase.leaf]
  | _ => exact exprInsertions_step scope _ h

theorem keyInsertions_step (k : Key) :
    insertionsOfAll isHelper scope (keyOutline k) = partsInsertions isHelper scope (keyParts k) := by
  cases k with
  | computed span e => exact (List.append_nil _).symm
  | _ => rfl

theorem patInsertions_step (p : Pat) :
    insertionsOfAll isHelper scope (patOutline p) = partsInsertions isHelper scope (patParts p) := by
  cases p <;> simp [patOutline, patParts, phraseInsertions]

theorem propInsertions_step (p : Property) (h : propPermitted p) :
    insertionsOfAll isHelper scope (propOutline p) =
      (Phrase.prop p).leaf.filterMap (insertionFor isHelper scope) ++
        partsInsertions isHelper scope (propParts p) := by
  cases p with
  | shorthand id =>
    rw [propOutline, insertionsOfAll_singleton, insertions]
    exact (shorthandInsertion_eq scope id).trans (List.append_nil _).symm
  | method key span params body =>
    rw [propOutline, insertionsOfAll_append, insertionsOfAll_singleton, propParts,
      partsInsertions_append, ← insertions_functionScope]
    simp [Phrase.leaf, phraseInsertions]
  | shorthandDefault id value => exact h.elim
  | getter key span body => exact h.elim
  | setter key span param body => exact h.elim
  | _ => simp [propOutline, propParts, Phrase.leaf, phraseInsertions]

theorem contains_lexicalStart (head : Option Stmt) (x : Text) :
    (scope.push (lexicalStart head)).contains x = (enter scope (startBinders head)).contains x := by
  cases head with
  | none => simp [lexicalStart, startBinders]
  | some s => cases s <;> simp [lexicalStart, startBinders, Binder.names]

theorem contains_lexicalHead (head : LoopHead) (x : Text) :
    (scope.push (lexicalHead head)).contains x = (enter scope (headBinders head)).contains x := by
  cases head <;> simp [lexicalHead, headBinders, Binder.names]

theorem stmtInsertions_step (s : Stmt) (h : stmtPermitted s) :
    insertionsOfAll isHelper scope (stmtOutline s) = partsInsertions isHelper scope (stmtParts s) := by
  cases s with
  | function id params body =>
    rw [stmtOutline, insertionsOfAll_singleton]
    exact insertions_functionScope isHelper scope [] params body
  | classDecl id heritage members => exact h.elim
  | block body =>
    rw [stmtOutline, insertionsOfAll_singleton]
    exact insertions_blockScope isHelper scope body
  | loop head test step body =>
    rw [stmtOutline, insertionsOfAll_singleton, insertions,
      insertionsOfAll_congr _ (contains_lexicalStart scope head)]
    simp [stmtParts, phraseInsertions]
  | loopIn head object body =>
    rw [stmtOutline, insertionsOfAll_singleton, insertions,
      insertionsOfAll_congr _ (contains_lexicalHead scope head)]
    simp [stmtParts, phraseInsertions]
  | loopOf head iterable body =>
    rw [stmtOutline, insertionsOfAll_singleton, insertions,
      insertionsOfAll_congr _ (contains_lexicalHead scope head)]
    simp [stmtParts, phraseInsertions]
  | switch subject cases =>
    simp [stmtOutline, stmtParts, phraseInsertions, insertions, Binder.names]
  | guarded body handler finalizer =>
    rw [stmtOutline, List.cons_append, insertionsOfAll, insertions_blockScope]
    simp [stmtParts]
  | _ => simp [stmtOutline, stmtParts, phraseInsertions]

theorem phraseInsertions_step (c : Phrase) (h : c.Permitted isHelper) :
    phraseInsertions isHelper scope c =
      c.leaf.filterMap (insertionFor isHelper scope) ++ partsInsertions isHelper scope c.parts := by
  cases c with
  | expr e => exact exprInsertions_step scope e h
  | callee e => exact calleeInsertions_step scope e h
  | key k => exact keyInsertions_step scope k
  | prop p => exact propInsertions_step scope p h
  | pat p => exact patInsertions_step scope p
  | stmt s => exact stmtInsertions_step scope s h

end

/-! ## All references -/

/-- A piece of code inserts what its references need, in every scope. -/
def Resolves (isHelper : Text → Bool) (c : Phrase) : Prop :=
  ∀ scope, phraseInsertions isHelper scope c = c.occurrences.filterMap (insertionFor isHelper scope)

theorem Plain.resolves {isHelper : Text → Bool} {c : Phrase} (h : Plain isHelper c) :
    Resolves isHelper c := by
  induction h with
  | @mk c here inner ih =>
    intro scope
    -- each part in the scope of its binders is each of its references under these binders
    have hparts : partsInsertions isHelper scope c.parts =
        c.parts.flatMap fun p =>
          (p.phrase.occurrences.map (.under p.binders)).filterMap (insertionFor isHelper scope) := by
      refine List.flatMap_congr fun p hp => ?_
      rw [ih p hp, List.filterMap_map]
      exact List.filterMap_congr fun o _ => (insertionFor_under isHelper scope p.binders o).symm
    rw [phraseInsertions_step scope c here, hparts, Phrase.occurrences_eq, List.filterMap_append,
      List.filterMap_flatMap]

/-- Resolution follows static scoping. In plain code it inserts, for the references in order: the
accessor of the helpers at the root of a callee that is a helper; nothing where a binder around the
reference or the given scope binds the name; and the accessor of the data otherwise, behind a key if
the reference is a shorthand. -/
theorem resolve_eq_recordAll_occurrences {isHelper : Text → Bool} {e : Expr}
    (h : Plain isHelper (.expr e)) (scope : Scope) (edits : EditBuffer) :
    resolve isHelper scope e edits =
      recordAll edits ((Phrase.expr e).occurrences.filterMap (insertionFor isHelper scope)) := by
  have hinsertions : insertionsOfAll isHelper scope (exprOutline e) = _ := h.resolves scope
  rw [resolve, hinsertions]

/-- The expression `up(x => { var v = x; return { v, y, up }; })`. -/
def callWithBlock : Expr :=
  .call ⟨0, 44⟩ (.ident ⟨"up".toList, ⟨0, 2⟩⟩)
    [.arrow ⟨3, 43⟩ [.ident ⟨"x".toList, ⟨3, 4⟩⟩]
      [.declare .var [.mk (.ident ⟨"v".toList, ⟨14, 15⟩⟩) (some (.ident ⟨"x".toList, ⟨18, 19⟩⟩))],
        .result (some (.object ⟨28, 40⟩
          [.shorthand ⟨"v".toList, ⟨30, 31⟩⟩, .shorthand ⟨"y".toList, ⟨33, 34⟩⟩,
            .shorthand ⟨"up".toList, ⟨36, 38⟩⟩] false))]]

theorem resolve_callWithBlock :
    Plain (· == "up".toList) (.expr callWithBlock) ∧
      ∀ edits, resolve (· == "up".toList) .root callWithBlock edits =
        recordAll edits [(0, "template.helpers.".toList), (33, "y: data.".toList),
          (36, "up: data.".toList)] := by
  have hplain : Plain (· == "up".toList) (.expr callWithBlock) := by
    simp [callWithBlock, plain_iff _ (.expr _), plain_iff _ (.callee _), plain_iff _ (.prop _),
      plain_iff _ (.pat _), plain_iff _ (.stmt _), Phrase.Permitted, exprPermitted, calleePermitted,
      propPermitted, stmtPermitted, Phrase.parts, exprParts, calleeParts, propParts, patParts,
      stmtParts, functionParts, declaratorPhrases, inside]
  refine ⟨hplain, fun edits => ?_⟩
  have hitems : (Phrase.expr callWithBlock).occurrences.filterMap
      (insertionFor (· == "up".toList) .root) =
        [(0, "template.helpers.".toList), (33, "y: data.".toList), (36, "up: data.".toList)] := by
    simp only [callWithBlock, Phrase.occurrences_eq (.expr _), Phrase.occurrences_eq (.callee _),
      Phrase.occurrences_eq (.prop _), Phrase.occurrences_eq (.pat _), Phrase.occurrences_eq (.stmt _),
      Phrase.leaf, Phrase.parts, exprParts, calleeParts, propParts, patParts, stmtParts,
      functionParts, declaratorPhrases, inside, List.map, List.flatMap_cons, List.flatMap_nil,
      Option.toList, List.nil_append, List.append_nil, List.cons_append]
    decide +kernel
  rw [resolve_eq_recordAll_occurrences hplain, hitems]

end TemplateCompiler.Resolve
