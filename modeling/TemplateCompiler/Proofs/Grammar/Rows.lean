import TemplateCompiler.Proofs.Grammar.States
import TemplateCompiler.Proofs.Resolve.Names

/-!
# Trees that lie in their text

The tree of a text lies in it as it was read: the span of each construct is a part of the text, the
constructs inside of it lie inside of that span, and neighbours follow each other. A row is a list of
pieces of code between two offsets, and names are what it comes down to.

## What this module delivers

* `Snippet.pieces`: the parts of a piece of code, without what they are bound by.
* `Laid`: pieces of code that follow each other between two offsets.
* `Laid.close`, `Laid.inner`: a piece of code lies where its names and pieces do.
* `Stays`: pieces of code that lie wherever others do.
-/

set_option autoImplicit false

namespace TemplateCompiler.Resolve

open Script

/-! ## Pieces -/

/-- The pieces of an expression. -/
def exprPieces : Expr → List Snippet
  | .ident _ | .this _ | .literal _ | .privateName _ | .metaProperty _ | .omitted _ => []
  | .spread _ e | .unary _ _ e | .update _ e | .paren _ e | .await _ e => [.expr e]
  | .array _ es _ | .template _ es | .sequence _ es | .superCall _ es | .importCall _ es =>
    es.map .expr
  | .object _ props _ => props.map .prop
  | .function _ _ params body | .arrow _ params body => params.map .pat ++ body.map .stmt
  | .arrowExpr _ params e => params.map .pat ++ [.expr e]
  | .classExpr _ _ heritage members => heritage.toList.map .expr ++ members.map .member
  | .tagged _ e es | .call _ e es | .chainCall _ e es | .construct _ e es => .expr e :: es.map .expr
  | .binary _ _ a b | .assignUpdate _ a b => [.expr a, .expr b]
  | .conditional _ a b c => [.expr a, .expr b, .expr c]
  | .assign _ target value => [.pat target, .expr value]
  | .member _ e key | .chainMember _ e key => [.expr e, .key key]
  | .superMember _ key => [.key key]
  | .yield _ arg => arg.toList.map .expr

/-- The pieces of a key. -/
def keyPieces : Key → List Snippet
  | .named _ _ | .privateName _ _ => []
  | .computed _ e => [.expr e]

/-- The pieces of a property. -/
def propPieces : Property → List Snippet
  | .shorthand _ => []
  | .shorthandDefault _ e | .spread _ e => [.expr e]
  | .keyValue key e => [.key key, .expr e]
  | .method key _ params body => .key key :: (params.map .pat ++ body.map .stmt)
  | .getter key _ body => .key key :: body.map .stmt
  | .setter key _ param body => .key key :: .pat param :: body.map .stmt

/-- The pieces of a pattern. -/
def patPieces : Pat → List Snippet
  | .ident _ | .omitted => []
  | .array ps | .object ps => ps.map .pat
  | .property key p => [.key key, .pat p]
  | .withDefault p e => [.pat p, .expr e]
  | .rest p => [.pat p]
  | .expr e => [.expr e]

/-- The pieces of a handler. -/
def handlerPieces : Handler → List Snippet
  | .absent => []
  | .plain body => body.map .stmt
  | .binding param body => .pat param :: body.map .stmt

/-- The pieces of a statement. -/
def stmtPieces : Stmt → List Snippet
  | .empty | .debugger | .jump _ => []
  | .expr e | .raise e => [.expr e]
  | .declare _ decls => declaratorSnippets decls
  | .function _ params body => params.map .pat ++ body.map .stmt
  | .classDecl _ heritage members => heritage.toList.map .expr ++ members.map .member
  | .block body => body.map .stmt
  | .branch test yes no => .expr test :: .stmt yes :: no.toList.map .stmt
  | .loop head test step body =>
    head.toList.map .stmt ++ test.toList.map .expr ++ step.toList.map .expr ++ [.stmt body]
  | .loopIn head e body | .loopOf head e body => headSnippets head ++ [.expr e, .stmt body]
  | .loopWhile e body | .within e body => [.expr e, .stmt body]
  | .loopUntil body e => [.stmt body, .expr e]
  | .result arg => arg.toList.map .expr
  | .labeled _ body => [.stmt body]
  | .switch e cases => .expr e :: caseSnippets cases
  | .guarded body handler finalizer =>
    body.map .stmt ++ handlerPieces handler ++ finalizer.toList.map .stmt

/-- The pieces of a class member. -/
def memberPieces : Member → List Snippet
  | .empty => []
  | .method key params body => .key key :: (params.map .pat ++ body.map .stmt)
  | .constructor params body => params.map .pat ++ body.map .stmt
  | .field key value => .key key :: value.toList.map .expr
  | .staticBlock body => body.map .stmt

namespace Snippet

/-- The pieces of a piece of code, in the order of the source. -/
def pieces : Snippet → List Snippet
  | .expr e => exprPieces e
  | .key k => keyPieces k
  | .prop p => propPieces p
  | .pat p => patPieces p
  | .stmt s => stmtPieces s
  | .member m => memberPieces m

/-- The spans of a piece of code that a failure may be reported at: that of an expression, and those
of a property and its key. -/
def ownSpans : Snippet → List Span
  | .expr e => [e.span]
  | .prop p => p.span :: match p with
    | .keyValue k _ | .method k _ _ _ | .getter k _ _ | .setter k _ _ _ => [k.span]
    | .shorthand _ | .shorthandDefault _ _ | .spread _ _ => []
  | .key _ | .pat _ | .stmt _ | .member _ => []

/-- The offsets between which all of a piece of code has to lie, if it has a span of its own. -/
def Fits (start stop : Nat) : Snippet → Prop
  | .expr e => e.span = ⟨start, stop⟩
  | .key _ | .prop _ | .pat _ | .stmt _ | .member _ => True

/-- Whether a piece of code can lie anywhere. -/
def isFree : Snippet → Bool
  | .expr _ | .prop _ => false
  | .key _ | .pat _ | .stmt _ | .member _ => true

/-- The names of a piece of code, as patterns, and its pieces. -/
def row (s : Snippet) : List Snippet := s.ownIdents.map (fun id => .pat (.ident id)) ++ s.pieces

end Snippet

end TemplateCompiler.Resolve

namespace TemplateCompiler.Script

open Text Resolve

namespace Excerpt

variable (x : Excerpt)

/-! ## Rows -/

/-- A span of an excerpt between two offsets. -/
structure Spans (lo hi : Nat) (span : Span) : Prop where
  start : x.Mark span.start
  stop : x.Mark span.stop
  lo_le : lo ≤ span.start
  le : span.start ≤ span.stop
  le_hi : span.stop ≤ hi

/-- Pieces of code that follow each other between two offsets. What is inside of each of them follows
each other in its part of the row, which for an expression is its span. -/
inductive Laid : Nat → Nat → List Snippet → Prop
  | nil {lo hi : Nat} (h : lo ≤ hi) : Laid lo hi []
  | ident {lo hi : Nat} {id : Ident} {ss : List Snippet} (spans : x.Spans lo hi id.span)
    (lt : id.span.start < id.span.stop) (rest : Laid id.span.stop hi ss) :
    Laid lo hi (.pat (.ident id) :: ss)
  | cons {lo start stop hi : Nat} {s : Snippet} {ss : List Snippet} (le : lo ≤ start)
    (fits : s.Fits start stop) (spans : ∀ span ∈ s.ownSpans, x.Spans start stop span)
    (inner : Laid start stop s.row) (rest : Laid stop hi ss) : Laid lo hi (s :: ss)

variable {x} {lo lo' mid mid' hi hi' : Nat}

theorem Spans.mono {span : Span} (h : x.Spans lo hi span) (hlo : lo' ≤ lo) (hhi : hi ≤ hi') :
    x.Spans lo' hi' span :=
  ⟨h.start, h.stop, Nat.le_trans hlo h.lo_le, h.le, Nat.le_trans h.le_hi hhi⟩

/-- How the ends of a span lie. -/
@[grind →]
theorem Spans.order {span : Span} (h : x.Spans lo hi span) :
    lo ≤ span.start ∧ span.start ≤ span.stop ∧ span.stop ≤ hi :=
  ⟨h.lo_le, h.le, h.le_hi⟩

namespace Laid

theorem le {ss : List Snippet} (h : x.Laid lo hi ss) : lo ≤ hi := by
  induction h with
  | nil h => exact h
  | ident spans lt rest ih => exact Nat.le_trans spans.lo_le (Nat.le_trans spans.le spans.le_hi)
  | cons hle fits spans inner rest ihi ihr => exact Nat.le_trans hle (Nat.le_trans ihi ihr)

theorem mono {ss : List Snippet} (h : x.Laid lo hi ss) (hlo : lo' ≤ lo) (hhi : hi ≤ hi') :
    x.Laid lo' hi' ss := by
  induction h generalizing lo' hi' with
  | nil h => exact .nil (Nat.le_trans hlo (Nat.le_trans h hhi))
  | ident spans lt rest ih => exact .ident (spans.mono hlo hhi) lt (ih (Nat.le_refl _) hhi)
  | cons hle fits spans inner rest ihi ihr =>
    exact .cons (Nat.le_trans hlo hle) fits spans inner (ihr (Nat.le_refl _) hhi)

theorem append {ss ss' : List Snippet} (h : x.Laid lo mid ss) (h' : x.Laid mid' hi ss')
    (hmid : mid ≤ mid') : x.Laid lo hi (ss ++ ss') := by
  induction h with
  | nil h => exact h'.mono (Nat.le_trans h hmid) (Nat.le_refl _)
  | ident spans lt rest ih =>
    exact .ident (spans.mono (Nat.le_refl _) (Nat.le_trans hmid h'.le)) lt (ih hmid)
  | cons hle fits spans inner rest ihi ihr => exact .cons hle fits spans inner (ihr hmid)

/-- A row in two parts. -/
theorem of_append {ss ss' : List Snippet} (h : x.Laid lo hi (ss ++ ss')) :
    ∃ mid, x.Laid lo mid ss ∧ x.Laid mid hi ss' := by
  induction ss generalizing lo with
  | nil => exact ⟨lo, .nil (Nat.le_refl _), h⟩
  | cons s ss ih =>
    cases h with
    | ident spans lt rest =>
      obtain ⟨mid, hss, hss'⟩ := ih rest
      exact ⟨mid, .ident ⟨spans.start, spans.stop, spans.lo_le, spans.le, hss.le⟩ lt hss, hss'⟩
    | cons hle fits spans inner rest =>
      obtain ⟨mid, hss, hss'⟩ := ih rest
      exact ⟨mid, .cons hle fits spans inner hss, hss'⟩

theorem of_cons {s : Snippet} {ss : List Snippet} (h : x.Laid lo hi (s :: ss)) :
    ∃ mid, x.Laid lo mid [s] ∧ x.Laid mid hi ss := by
  have h : x.Laid lo hi ([s] ++ ss) := h
  exact h.of_append

/-- One of the pieces of a row. -/
theorem mem {s : Snippet} {ss : List Snippet} (h : x.Laid lo hi ss) (hs : s ∈ ss) :
    x.Laid lo hi [s] := by
  obtain ⟨before, after, rfl⟩ := List.append_of_mem hs
  obtain ⟨mid, hbefore, hrest⟩ := h.of_append
  obtain ⟨mid', hpiece, hafter⟩ := hrest.of_cons
  exact hpiece.mono hbefore.le hafter.le

theorem name {id : Ident} (h : x.Spans lo hi id.span) (hlt : id.span.start < id.span.stop) :
    x.Laid lo hi [.pat (.ident id)] :=
  .ident h hlt (.nil h.le_hi)

/-- The spans of a piece of code. -/
theorem ownSpans {s : Snippet} (h : x.Laid lo hi [s]) : ∀ span ∈ s.ownSpans, x.Spans lo hi span := by
  cases h with
  | ident => exact List.forall_mem_nil _
  | cons hle fits spans inner rest => exact fun span hspan => (spans span hspan).mono hle rest.le

/-- The inside of a piece of code. -/
theorem inner {s : Snippet} (h : x.Laid lo hi [s]) : x.Laid lo hi s.row := by
  cases h with
  | ident spans lt rest => exact .ident spans lt rest
  | cons hle fits spans inner rest => exact inner.mono hle rest.le

/-- A piece of code that takes all the room of what is inside of it. -/
theorem close {s : Snippet} (h : x.Laid lo hi s.row) (hfits : s.Fits lo hi)
    (hspans : ∀ span ∈ s.ownSpans, x.Spans lo hi span) : x.Laid lo hi [s] :=
  .cons (Nat.le_refl _) hfits hspans h (.nil (Nat.le_refl _))

/-- A piece of code that can lie anywhere. -/
theorem free {s : Snippet} (h : x.Laid lo hi s.row) (hfree : s.isFree = true) : x.Laid lo hi [s] := by
  cases s with
  | expr | prop => cases hfree
  | key | pat | stmt | member => exact h.close trivial (List.forall_mem_nil _)

theorem expr {e : Expr} (h : x.Laid lo hi (Snippet.expr e).row) (hlo : x.Mark lo) (hhi : x.Mark hi)
    (hspan : e.span = ⟨lo, hi⟩) : x.Laid lo hi [.expr e] := by
  refine h.close hspan (List.forall_mem_singleton.2 ?_)
  rw [hspan]
  exact ⟨hlo, hhi, Nat.le_refl _, h.le, Nat.le_refl _⟩

/-- All of an expression lies inside of its span. -/
theorem of_expr {e : Expr} (h : x.Laid lo hi [.expr e]) :
    x.Spans lo hi e.span ∧ x.Laid e.span.start e.span.stop [.expr e] := by
  refine ⟨h.ownSpans e.span (List.mem_singleton_self _), ?_⟩
  cases h with
  | cons hle fits spans inner rest =>
    have hspan : e.span = _ := fits
    rw [hspan]
    exact inner.close fits spans

/-- A longer expression from the start of its first piece to the end of its last one. -/
theorem extend {e e' : Expr} {ss : List Snippet} (h : x.Laid lo hi (.expr e :: ss)) (hstop : x.Mark hi)
    (hspan : e'.span = ⟨e.span.start, hi⟩) (hrow : (Snippet.expr e').row = .expr e :: ss) :
    x.Laid lo hi [.expr e'] := by
  obtain ⟨mid, he, hss⟩ := h.of_cons
  obtain ⟨hspans, htight⟩ := he.of_expr
  have hall : x.Laid e.span.start hi (Snippet.expr e').row := hrow ▸ htight.append hss hspans.le_hi
  exact (hall.expr hspans.start hstop hspan).mono hspans.lo_le (Nat.le_refl _)

theorem of_name {id : Ident} (h : x.Laid lo hi [.pat (.ident id)]) :
    x.Spans lo hi id.span ∧ id.span.start < id.span.stop := by
  -- A name is also the row of itself, so it may lie any number of rows deep.
  generalize hss : [Snippet.pat (.ident id)] = ss at h
  induction h with
  | nil => cases hss
  | ident spans lt rest =>
    cases hss
    exact ⟨spans, lt⟩
  | cons hle fits spans inner rest ihi =>
    cases hss
    obtain ⟨hspans, hlt⟩ := ihi rfl
    exact ⟨hspans.mono hle rest.le, hlt⟩

/-- A name that is an expression. -/
theorem exprIdent {id : Ident} (h : x.Laid lo hi [.pat (.ident id)]) :
    x.Laid lo hi [.expr (.ident id)] := by
  obtain ⟨hid, hlt⟩ := h.of_name
  have hname : x.Laid id.span.start id.span.stop [.pat (.ident id)] :=
    .name ⟨hid.start, hid.stop, Nat.le_refl _, hid.le, Nat.le_refl _⟩ hlt
  have hexpr : x.Laid id.span.start id.span.stop [.expr (.ident id)] :=
    hname.expr hid.start hid.stop rfl
  exact hexpr.mono hid.lo_le hid.le_hi

/-- A row of expressions up to the end of its last one. -/
theorem to_last {first : Expr} {rest : List Expr} (h : x.Laid lo hi ((first :: rest).map .expr)) :
    x.Spans lo hi (rest.getLast?.getD first).span ∧
      x.Laid lo (rest.getLast?.getD first).span.stop ((first :: rest).map .expr) := by
  induction rest generalizing first lo with
  | nil =>
    obtain ⟨hspans, htight⟩ := of_expr h
    exact ⟨hspans, htight.mono hspans.lo_le (Nat.le_refl _)⟩
  | cons e rest ih =>
    obtain ⟨mid, hfirst, hrest⟩ := h.of_cons
    obtain ⟨hspans, hrow⟩ := ih hrest
    -- The last expression of the rest is the last one of the row.
    rw [List.getLast?_cons, Option.getD_some]
    exact ⟨hspans.mono hfirst.le (Nat.le_refl _), hfirst.append hrow (Nat.le_refl _)⟩

end Laid

/-! ## Other pieces in the same place -/

variable (x) in
/-- Pieces of code that lie wherever others do. -/
def Stays (ss ss' : List Snippet) : Prop := ∀ lo hi, x.Laid lo hi ss → x.Laid lo hi ss'

namespace Stays

variable {ss ss' ss'' : List Snippet}

theorem refl (ss : List Snippet) : x.Stays ss ss := fun _ _ h => h

theorem trans (h : x.Stays ss ss') (h' : x.Stays ss' ss'') : x.Stays ss ss'' :=
  fun lo hi hss => h' lo hi (h lo hi hss)

theorem append {as as' : List Snippet} (h : x.Stays ss ss') (h' : x.Stays as as') :
    x.Stays (ss ++ as) (ss' ++ as') := by
  intro lo hi hrow
  obtain ⟨mid, hss, has⟩ := hrow.of_append
  exact (h lo mid hss).append (h' mid hi has) (Nat.le_refl _)

theorem cons {s s' : Snippet} (h : x.Stays [s] [s']) (h' : x.Stays ss ss') :
    x.Stays (s :: ss) (s' :: ss') :=
  h.append h'

theorem inner (s : Snippet) : x.Stays [s] s.row := fun _ _ h => h.inner

theorem free {s : Snippet} (hrow : s.row = ss) (hfree : s.isFree = true) : x.Stays ss [s] := by
  rw [← hrow]
  exact fun _ _ h => h.free hfree

/-- A key that is a name takes no room of its own. -/
theorem namedKey (name : Text) (span : Span) : x.Stays [] [.key (.named name span)] :=
  free rfl rfl

end Stays

end Excerpt

end TemplateCompiler.Script
