import TemplateCompiler.Proofs.Edit.Splicing
import TemplateCompiler.Proofs.Resolve.Names

/-!
# Resolution inserts at the names of an expression

Resolution never replaces text and never moves it. All that it records are accessors in front of
names of the expression, one at most for each name, and a text that is read afterwards is the old
one with these accessors put in.

## What this module delivers

* `recordAll_eq_insertAll`: recording insertions inside of the source.
* `resolve_inserts`: what resolution does to a buffer.
-/

set_option autoImplicit false

namespace TemplateCompiler.Resolve

open Script Text

/-- Insertions inside of the source are not refused. -/
theorem recordAll_eq_insertAll {items : List Insertion} {b : EditBuffer}
    (h : ∀ item ∈ items, item.1 ≤ b.length) : recordAll b items = .ok (b.insertAll items) := by
  induction items generalizing b with
  | nil => rfl
  | cons item items ih =>
    obtain ⟨hitem, hitems⟩ := List.forall_mem_cons.1 h
    have hstep : b.insertRight item.1 item.2 = .ok (b.insertAll [item]) := if_pos hitem
    have hrest : ∀ item' ∈ items, item'.1 ≤ (b.insertAll [item]).length := hitems
    rw [recordAll, List.foldlM_cons, hstep]
    exact ih hrest

/-- Resolution only inserts, and only into the expression. On a buffer with any history of edits it
records right insertions and nothing else. They stand at different offsets, each at the start of a
name of the expression, and each of them is an accessor of the data, one of the helpers, or the key
of that very name with an accessor of the data behind it. A text that is read afterwards is the one
that was read before, with those accessors put in that show; and a range apart from the expression
is read as before. -/
theorem resolve_inserts {source : Text} {history : List Edit} {b : EditBuffer}
    (hb : (EditBuffer.ofText source).recordEdits history = .ok b) {e : Expr}
    (he : NamesPlaced source e) (isHelper : Text → Bool) (scope : Scope) :
    ∃ c, resolve isHelper scope e b = .ok c ∧
      c = { b with right := b.right.addAll (insertionsOfAll isHelper scope (exprOutline e)) } ∧
      ((insertionsOfAll isHelper scope (exprOutline e)).map Prod.fst).Nodup ∧
      (∀ item ∈ insertionsOfAll isHelper scope (exprOutline e), ∃ id ∈ (Snippet.expr e).idents,
        e.span.start ≤ id.span.start ∧ id.span.stop ≤ e.span.stop ∧ item.1 = id.span.start ∧
          (item.2 = dataAccessor ∨ item.2 = helpersAccessor ∨
            item.2 = id.name ++ ": ".toList ++ dataAccessor)) ∧
      (∀ start stop t, b.slice start stop = .ok t → ∃ t', c.slice start stop = .ok t' ∧
        Spliced (b.shownTexts (insertionsOfAll isHelper scope (exprOutline e)) start stop) t t') ∧
      ∀ start stop, stop ≤ e.span.start ∨ e.span.stop ≤ start →
        c.slice start stop = b.slice start stop := by
  have hrecorded := recorded_of_recordEdits hb
  have hplaced := @exists_ident_of_mem_insertions isHelper scope e
  generalize hitems : insertionsOfAll isHelper scope (exprOutline e) = items at hplaced ⊢
  have hboundary : ∀ item ∈ items, isBoundary b.source item.1 = true := by
    intro item hitem
    obtain ⟨id, hid, hstart, -⟩ := hplaced hitem
    rw [hrecorded.source, hstart]
    exact he.boundary id hid
  have hresolve : resolve isHelper scope e b = .ok (b.insertAll items) := by
    rw [resolve, hitems]
    exact recordAll_eq_insertAll fun item hitem =>
      le_byteLength_of_isBoundary (hboundary item hitem)
  refine ⟨b.insertAll items, hresolve, rfl, ?_, ?_, ?_, ?_⟩
  · have hoffsets := offsets_sublist_starts isHelper scope e
    rw [hitems] at hoffsets
    exact hoffsets.nodup (List.nodup_append.1 (he.starts_nodup isHelper)).1
  · intro item hitem
    obtain ⟨id, hid, hstart, htext⟩ := hplaced hitem
    obtain ⟨hfirst, -, hlast⟩ := he.inside id hid
    refine ⟨id, hid, hfirst, hlast, hstart, ?_⟩
    simpa [accessorTexts] using htext
  · intro start stop t ht
    exact EditBuffer.slice_insertAll hrecorded.orderly hrecorded.apart hboundary ht
  · intro start stop hapart
    apply EditBuffer.slice_insertAll_of_apart (s := ⟨start, stop⟩) hrecorded.orderly
    intro item hitem
    obtain ⟨id, hid, hstart, -⟩ := hplaced hitem
    obtain ⟨hfirst, hproper, hlast⟩ := he.inside id hid
    show item.1 < start ∨ stop ≤ item.1
    omega

/-- The source of `callWithBlock`. -/
def callWithBlockSource : Text := "up(x => \x7b var v = x; return \x7b v, y, up \x7d; \x7d)".toList

/-- Edits in which the shorthand `y` has a text in front of it and the last shorthand is replaced
together with the blank before it. -/
def callWithBlockEdits : List Edit :=
  [.insertRight 33 "/**/".toList, .overwrite 35 38 "w".toList]

/-- The buffer that holds these edits. -/
def callWithBlockBuffer : EditBuffer :=
  ⟨callWithBlockSource, [], [(33, "/**/".toList)], [⟨35, 38, "w".toList⟩]⟩

theorem resolve_inserts_callWithBlock :
    (EditBuffer.ofText callWithBlockSource).recordEdits callWithBlockEdits =
        .ok callWithBlockBuffer ∧
      NamesPlaced callWithBlockSource callWithBlock ∧
      callWithBlockBuffer.slice 28 40 = .ok "\x7b v, /**/y,w \x7d".toList ∧
      ∃ c, resolve (· == "up".toList) .root callWithBlock callWithBlockBuffer = .ok c ∧
        c.slice 28 40 = .ok "\x7b v, /**/y: data.y,w \x7d".toList ∧
        Spliced ["y: data.".toList] "\x7b v, /**/y,w \x7d".toList
          "\x7b v, /**/y: data.y,w \x7d".toList ∧
        c.slice 44 44 = callWithBlockBuffer.slice 44 44 := by
  have hb : (EditBuffer.ofText callWithBlockSource).recordEdits callWithBlockEdits =
      .ok callWithBlockBuffer := toOption_eq_some_iff.1 (by decide)
  have hidents : (Snippet.expr callWithBlock).idents =
      [⟨"up".toList, ⟨0, 2⟩⟩, ⟨"x".toList, ⟨3, 4⟩⟩, ⟨"v".toList, ⟨14, 15⟩⟩, ⟨"x".toList, ⟨18, 19⟩⟩,
        ⟨"v".toList, ⟨30, 31⟩⟩, ⟨"y".toList, ⟨33, 34⟩⟩, ⟨"up".toList, ⟨36, 38⟩⟩] := by
    simp [callWithBlock, Snippet.idents_eq (.expr _), Snippet.idents_eq (.prop _),
      Snippet.idents_eq (.pat _), Snippet.idents_eq (.stmt _), Snippet.ownIdents, Snippet.allParts,
      Snippet.parts, exprSnippets, propSnippets, patSnippets, stmtSnippets, functionSnippets,
      declaratorSnippets, calleeSnippets, helperRoot?, memberRoot?, within, between]
  have hplaced : NamesPlaced callWithBlockSource callWithBlock := by
    constructor <;> rw [hidents] <;> decide
  have hitems : insertionsOfAll (· == "up".toList) .root (exprOutline callWithBlock) =
      [(0, "template.helpers.".toList), (33, "y: data.".toList), (36, "up: data.".toList)] := by
    decide +kernel
  have hbefore : callWithBlockBuffer.slice 28 40 = .ok "\x7b v, /**/y,w \x7d".toList :=
    toOption_eq_some_iff.1 (by decide)
  obtain ⟨c, hc, hright, -, -, hslice, hapart⟩ :=
    resolve_inserts hb hplaced (· == "up".toList) .root
  rw [hitems] at hslice hright
  have hafter : c.slice 28 40 = .ok "\x7b v, /**/y: data.y,w \x7d".toList := by
    rw [hright]
    exact toOption_eq_some_iff.1 (by decide)
  -- the insertion inside of the replaced range does not show
  have hshown : callWithBlockBuffer.shownTexts [(0, "template.helpers.".toList),
      (33, "y: data.".toList), (36, "up: data.".toList)] 28 40 = ["y: data.".toList] := by decide
  obtain ⟨t', ht', hspliced⟩ := hslice 28 40 _ hbefore
  rw [hafter] at ht'
  cases ht'
  rw [hshown] at hspliced
  exact ⟨hb, hplaced, hbefore, c, hc, hafter, hspliced, hapart 44 44 (.inr (by decide))⟩

end TemplateCompiler.Resolve
