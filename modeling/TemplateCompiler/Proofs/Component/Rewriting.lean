import TemplateCompiler.Proofs.Component.Linking
import TemplateCompiler.Proofs.Edit.Pieces
import TemplateCompiler.Proofs.Grammar.Soundness

/-!
# The text of a linked script

Linking a script goes over its items several times: the imports are removed, then the named exports are
rewritten, and the default export last of all. What is left can be said item by item. Every item has a
range of the source to itself, and each of its edits shows there only. So the text of the script is read
range by range, with all that is between them as it was.

## What this module delivers

* `Part`, `partsFrom`: the items of a script, each with its range.
* `rewrittenScript`: the text of the script, part by part.
* `scriptEdits`, `linkScript_history`: the edits of all the passes, one after the other.
* `Ranged`, `partsFrom_ranged`: the ranges of the parts, whatever becomes of their items.
* `linkScript_rewrites`: the text that is read once a script has been linked.
-/

set_option autoImplicit false

namespace TemplateCompiler

open Script Text

/-! ## The parts of a script -/

/-- An item of a script with the range of the source that it has to itself. -/
structure Part where
  item : ModuleItem
  range : Span
  /-- Whether it is the last item that is no import. -/
  isLast : Bool

/-- The items of a script with their ranges. The range of an import is the one that is removed for it,
which does not start before `lower`, where the one before ends. -/
def partsFrom (source : Text) (upper : Nat) : Nat → List ModuleItem → List Part
  | _, [] => []
  | lower, .imports span specifiers module :: items =>
    let range := (removalRange source span lower upper).toOption.getD span
    ⟨.imports span specifiers module, range, false⟩ :: partsFrom source upper range.stop items
  | lower, item :: items =>
    ⟨item, itemSpan item, items.all isImport⟩ :: partsFrom source upper lower items

/-! ## What becomes of the parts -/

/-- The indentation of the line of an offset, if nothing else stands before the offset there. -/
def indentOf (source : Text) (offset : Nat) : Text := (lineIndent? source offset).getD []

/-- The line that assigns an exported name. -/
def exportLine (indent name : Text) : Text :=
  "\n".toList ++ indent ++ exportAssignment name name

/-- The lines that return the template. -/
def returnLines (indent : Text) : Text :=
  "\n\n".toList ++ indent ++ "return template;".toList

/-- What stands in front of the value of a default export. -/
def defaultFront (isFinal : Bool) : Text :=
  if isFinal then "return ".toList else "var template = ".toList

namespace Part

/-- Where the text starts that is kept of a part: of an import and of a list of exports nothing is
kept, and of an export what it exports. -/
def keptStart (x : Part) : Nat :=
  match x.item with
  | .imports .. | .exportNames .. => x.range.stop
  | .exportDecl _ declStart _ => declStart
  | .exportDefault _ value => value.span.start
  | .exportDefaultDecl _ | .exportAll _ | .statement .. => x.range.start

/-- What stands in place of the text before that. -/
def front (x : Part) : Text :=
  match x.item with
  | .exportNames _ specifiers module => exportStatements module specifiers
  | .exportDefault .. => defaultFront x.isLast
  | _ => []

/-- The lines that follow a part: one for each name that an exported declaration binds. -/
def lines (source : Text) (x : Part) : List Text :=
  match x.item with
  | .exportDecl span _ decl => decl.declaredNames.map (exportLine (indentOf source span.start))
  | _ => []

/-- What follows a part: its lines, and behind the last one the closing lines of the script. -/
def back (source : Text) (closing : List Text) (x : Part) : List Text :=
  x.lines source ++ if x.isLast then closing else []

end Part

/-- The default exports among some items. -/
def defaultItems : List ModuleItem → List DefaultItem
  | [] => []
  | .exportDefault span value :: items => ⟨span, value, items.all isImport⟩ :: defaultItems items
  | _ :: items => defaultItems items

/-- The lines that return the template, if it was not returned where it was exported. -/
def closingLines (source : Text) (items : List ModuleItem) : List Text :=
  (defaultItems items).flatMap fun d =>
    if d.isFinal then [] else [returnLines (indentOf source d.span.start)]

/-- The text from `reached` up to `upper` with some parts of it rewritten. All that is between the parts
is kept. -/
def rewrittenFrom (source : Text) (upper : Nat) (closing : List Text) : Nat → List Part → Text
  | reached, [] => textBetween source reached upper
  | reached, x :: xs =>
    textBetween source reached x.range.start ++
      (x.front ++ textBetween source x.keptStart x.range.stop ++ (x.back source closing).flatten) ++
      rewrittenFrom source upper closing x.range.stop xs

/-- The text of a linked script. -/
def rewrittenScript (source : Text) (block : ScriptBlock) : Text :=
  rewrittenFrom source block.span.stop (closingLines source block.content.items) block.span.start
    (partsFrom source block.span.stop block.span.start block.content.items)

/-! ## The edits of a part -/

namespace Part

/-- The removal of an import. -/
def removals (x : Part) : List Edit :=
  if isImport x.item then [.overwrite x.range.start x.range.stop []] else []

end Part

/-- The edits of a named export. -/
def exportEdits (source : Text) : ModuleItem → List Edit
  | .exportDecl span declStart decl =>
    .overwrite span.start declStart [] ::
      (decl.declaredNames.map (exportLine (indentOf source span.start))).map (.insertLeft span.stop)
  | .exportNames span specifiers module =>
    [.overwrite span.start span.stop (exportStatements module specifiers)]
  | _ => []

/-- The edit at the value of a default export. -/
def DefaultItem.edit (d : DefaultItem) : Edit :=
  .overwrite d.span.start d.value.span.start (defaultFront d.isFinal)

namespace Part

/-- The edit of a default export. -/
def defaultEdits (x : Part) : List Edit :=
  match x.item with
  | .exportDefault span value => [DefaultItem.edit ⟨span, value, x.isLast⟩]
  | _ => []

/-- The closing lines behind the last part. -/
def closingEdits (closing : List Text) (x : Part) : List Edit :=
  if x.isLast then closing.map (.insertLeft x.range.stop) else []

/-- The edit that replaces the text before what is kept, if there is one. -/
def frontEdits (x : Part) : List Edit :=
  match x.item with
  | .exportDefaultDecl _ | .exportAll _ | .statement .. => []
  | _ => [.overwrite x.range.start x.keptStart x.front]

/-- All the edits of a part. -/
def edits (source : Text) (closing : List Text) (x : Part) : List Edit :=
  x.removals ++ exportEdits source x.item ++ x.defaultEdits ++ x.closingEdits closing

end Part

/-- The edits of all the parts, pass by pass. -/
def scriptEdits (source : Text) (closing : List Text) (parts : List Part) : List Edit :=
  parts.flatMap Part.removals ++ parts.flatMap (fun x => exportEdits source x.item) ++
    parts.flatMap Part.defaultEdits ++ parts.flatMap (Part.closingEdits closing)

/-! ## The history of a linked script -/

section

variable {b b' : EditBuffer} {source : Text}

theorem recordEdits_append {edits edits' : List Edit} {b₁ : EditBuffer}
    (h : b.recordEdits edits = .ok b₁) (h' : b₁.recordEdits edits' = .ok b') :
    b.recordEdits (edits ++ edits') = .ok b' := by
  rw [EditBuffer.recordEdits, List.foldlM_append]
  exact bind_eq_ok_iff.2 ⟨b₁, h, h'⟩

theorem recordEdits_cons {e : Edit} {edits : List Edit} {b₁ : EditBuffer}
    (h : b.recordEdit e = .ok b₁) (h' : b₁.recordEdits edits = .ok b') :
    b.recordEdits (e :: edits) = .ok b' := by
  rw [EditBuffer.recordEdits, List.foldlM_cons]
  exact bind_eq_ok_iff.2 ⟨b₁, h, h'⟩

theorem removeImportsFrom_history (items : List ModuleItem) {upper number lower : Nat}
    {records : List ImportRecord} (hsource : b.source = source)
    (h : removeImportsFrom upper number lower items b = .ok (records, b')) :
    b.recordEdits ((partsFrom source upper lower items).flatMap Part.removals) = .ok b' ∧
      b'.source = source := by
  induction items generalizing number lower b records with
  | nil =>
    cases h
    exact ⟨rfl, hsource⟩
  | cons item items ih =>
    cases item with
    | imports span specifiers module =>
      obtain ⟨range, hrange, h⟩ := bind_eq_ok_iff.1 h
      obtain ⟨b₁, h₁, h⟩ := bind_eq_ok_iff.1 h
      obtain ⟨⟨records', b₂⟩, h₂, h⟩ := bind_eq_ok_iff.1 h
      cases h
      have hget : (removalRange source span lower upper).toOption.getD span = range := by
        rw [← hsource, hrange]
        rfl
      obtain ⟨hrest, hsource'⟩ := ih ((EditBuffer.overwrite_source h₁).trans hsource) h₂
      refine ⟨?_, hsource'⟩
      simp only [partsFrom, hget]
      exact recordEdits_cons h₁ hrest
    | exportDefault | exportDefaultDecl | exportDecl | exportNames | exportAll | statement =>
      exact ih hsource h

theorem indentAt_eq {offset : Nat} {indent : Text} (h : indentAt b offset = .ok indent) :
    indent = indentOf b.source offset := by
  unfold indentAt at h
  split at h
  · rename_i found hfound
    cases h
    rw [indentOf, hfound]
    rfl
  · cases h

theorem linkDeclaration_history {span : Span} {declStart : Nat} {names : List Text}
    (hsource : b.source = source) (h : linkDeclaration span declStart names b = .ok b') :
    b.recordEdits (.overwrite span.start declStart [] ::
      (names.map (exportLine (indentOf source span.start))).map (.insertLeft span.stop)) = .ok b' ∧
      b'.source = source := by
  obtain ⟨b₁, h₁, h⟩ := bind_eq_ok_iff.1 h
  obtain ⟨indent, hindent, h⟩ := bind_eq_ok_iff.1 h
  have hsource₁ : b₁.source = source := (EditBuffer.overwrite_source h₁).trans hsource
  have hindent : indent = indentOf source span.start := hsource₁ ▸ indentAt_eq hindent
  rw [← hindent]
  have hnames : ∀ (names : List Text) {b₁ : EditBuffer}, b₁.source = source →
      names.foldlM (fun edits name => edits.insertLeft span.stop
        ("\n".toList ++ indent ++ exportAssignment name name)) b₁ = .ok b' →
      b₁.recordEdits ((names.map (exportLine indent)).map (.insertLeft span.stop)) = .ok b' ∧
        b'.source = source := by
    intro names
    induction names with
    | nil =>
      intro b₁ hb₁ h
      cases h
      exact ⟨rfl, hb₁⟩
    | cons name names ih =>
      intro b₁ hb₁ h
      rw [List.foldlM_cons] at h
      obtain ⟨b₂, h₂, h⟩ := bind_eq_ok_iff.1 h
      have hb₂ : b₂.source = source := by
        rw [EditBuffer.insertLeft_eq_ok h₂]
        exact hb₁
      obtain ⟨hrest, hb'⟩ := ih hb₂ h
      exact ⟨recordEdits_cons h₂ hrest, hb'⟩
  obtain ⟨hrest, hb'⟩ := hnames names hsource₁ h
  exact ⟨recordEdits_cons h₁ hrest, hb'⟩

theorem linkItems_history (items : List ModuleItem) {found found' : Option DefaultItem}
    (hsource : b.source = source) (h : linkItems found items b = .ok (found', b')) :
    b.recordEdits (items.flatMap (exportEdits source)) = .ok b' ∧ b'.source = source ∧
      found'.toList = found.toList ++ defaultItems items := by
  induction items generalizing found b with
  | nil =>
    cases h
    exact ⟨rfl, hsource, (List.append_nil _).symm⟩
  | cons item items ih =>
    cases item with
    | imports | statement => exact ih hsource h
    | exportDefaultDecl | exportAll => cases h
    | exportDefault span value =>
      rw [linkItems] at h
      split at h
      · cases h
      · rename_i hnone
        obtain ⟨hedits, hsource', hfound⟩ := ih hsource h
        refine ⟨hedits, hsource', ?_⟩
        rw [hfound, Option.not_isSome_iff_eq_none.1 hnone]
        rfl
    | exportDecl span declStart decl =>
      obtain ⟨b₁, h₁, h⟩ := bind_eq_ok_iff.1 h
      obtain ⟨hfirst, hsource₁⟩ := linkDeclaration_history hsource (ofEdit_eq_ok h₁)
      obtain ⟨hedits, hrest⟩ := ih hsource₁ h
      exact ⟨recordEdits_append hfirst hedits, hrest⟩
    | exportNames span specifiers module =>
      obtain ⟨b₁, h₁, h⟩ := bind_eq_ok_iff.1 h
      have h₁ := ofEdit_eq_ok h₁
      obtain ⟨hedits, hrest⟩ := ih ((EditBuffer.overwrite_source h₁).trans hsource) h
      exact ⟨recordEdits_cons h₁ hedits, hrest⟩

theorem flatMap_insertLeft_nil (stops : List Nat) :
    stops.flatMap (fun stop => ([] : List Text).map (Edit.insertLeft stop)) = [] :=
  List.flatMap_eq_nil_iff.2 fun _ _ => rfl

theorem linkDefault_history {m : Module} {d : DefaultItem} {kind : DefaultExport}
    (hsource : b.source = source) (hd : defaultItems m.items = [d])
    (h : linkDefault m d b = .ok (kind, b')) :
    b.recordEdits (d.edit :: (lastStop? m).toList.flatMap
      (fun stop => (closingLines source m.items).map (.insertLeft stop))) = .ok b' := by
  unfold linkDefault at h
  by_cases hfinal : d.isFinal = true
  · simp only [hfinal, if_true] at h
    obtain ⟨b₁, h₁, h⟩ := bind_eq_ok_iff.1 h
    cases h
    have hclosing : closingLines source m.items = [] := by
      simp only [closingLines, hd, hfinal, List.flatMap_singleton, if_true]
    rw [hclosing, flatMap_insertLeft_nil, DefaultItem.edit, hfinal]
    exact recordEdits_cons h₁ rfl
  · simp only [hfinal] at h
    obtain ⟨indent, hindent, h⟩ := bind_eq_ok_iff.1 h
    obtain ⟨b₁, h₁, h⟩ := bind_eq_ok_iff.1 h
    have hfinal : d.isFinal = false := Bool.eq_false_iff.2 hfinal
    have hindent : indent = indentOf source d.span.start := hsource ▸ indentAt_eq hindent
    have hclosing : closingLines source m.items = [returnLines indent] := by
      simp only [closingLines, hd, hfinal, hindent, List.flatMap_singleton, Bool.false_eq_true,
        if_false]
    have hedit : b.recordEdit d.edit = .ok b₁ := by
      rw [DefaultItem.edit, hfinal]
      exact h₁
    rw [hclosing]
    refine recordEdits_cons hedit ?_
    cases hstop : lastStop? m with
    | none =>
      simp only [hstop] at h
      cases h
      rfl
    | some stop =>
      simp only [hstop] at h
      obtain ⟨b₂, h₂, h⟩ := bind_eq_ok_iff.1 h
      cases h
      exact recordEdits_cons h₂ rfl

end

/-! ## Parts and items -/

section

variable (source : Text) (upper lower : Nat) (items : List ModuleItem)

theorem partsFrom_cons {item : ModuleItem} (h : isImport item = false) :
    partsFrom source upper lower (item :: items) =
      ⟨item, itemSpan item, items.all isImport⟩ :: partsFrom source upper lower items := by
  cases item with
  | imports => cases h
  | exportDefault | exportDefaultDecl | exportDecl | exportNames | exportAll | statement => rfl

theorem flatMap_partsFrom {β : Type} (f : ModuleItem → List β) :
    (partsFrom source upper lower items).flatMap (fun x => f x.item) = items.flatMap f := by
  induction items generalizing lower with
  | nil => rfl
  | cons item items ih =>
    cases item with
    | imports | exportDefault | exportDefaultDecl | exportDecl | exportNames | exportAll | statement =>
      exact congrArg (f _ ++ ·) (ih _)

theorem flatMap_defaultEdits :
    (partsFrom source upper lower items).flatMap Part.defaultEdits =
      (defaultItems items).map DefaultItem.edit := by
  induction items generalizing lower with
  | nil => rfl
  | cons item items ih =>
    cases item with
    | exportDefault span value =>
      exact congrArg (DefaultItem.edit _ :: ·) (ih _)
    | imports | exportDefaultDecl | exportDecl | exportNames | exportAll | statement => exact ih _

omit source upper lower in
theorem lastStop?_cons (item : ModuleItem) :
    lastStop? ⟨item :: items⟩ =
      (lastStop? ⟨items⟩).or (if isImport item then none else some (itemSpan item).stop) := by
  have hfind : [item].find? (fun item => !isImport item) =
      if isImport item then none else some item := by
    cases h : isImport item <;> simp [h]
  rw [lastStop?, List.reverse_cons, List.find?_append, hfind, Option.map_or, lastStop?]
  cases isImport item <;> rfl

omit source upper lower in
theorem lastStop?_eq_none : lastStop? ⟨items⟩ = none ↔ items.all isImport = true := by
  simp [lastStop?]

theorem flatMap_closingEdits (closing : List Text) :
    (partsFrom source upper lower items).flatMap (Part.closingEdits closing) =
      (lastStop? ⟨items⟩).toList.flatMap (fun stop => closing.map (.insertLeft stop)) := by
  induction items generalizing lower with
  | nil => rfl
  | cons item items ih =>
    rw [lastStop?_cons]
    cases himport : isImport item with
    | true =>
      rw [if_pos rfl, Option.or_none]
      cases item with
      | imports => exact ih _
      | exportDefault | exportDefaultDecl | exportDecl | exportNames | exportAll | statement =>
        cases himport
    | false =>
      -- Such an item is the last one exactly if none is found behind it.
      rw [partsFrom_cons source upper lower items himport, List.flatMap_cons, ih, Part.closingEdits]
      cases hlast : lastStop? ⟨items⟩ with
      | none =>
        rw [(lastStop?_eq_none items).1 hlast]
        rfl
      | some stop =>
        have hsome : items.all isImport = false := by
          rw [← Bool.not_eq_true, ← lastStop?_eq_none, hlast]
          exact Option.some_ne_none stop
        rw [hsome]
        rfl

end

/-- The edits of a linked script are those of its parts, pass by pass. -/
theorem linkScript_history {block : ScriptBlock} {script : ComponentScript} {source : Text}
    {b' : EditBuffer} (h : linkScript block (.ofText source) = .ok (script, b')) :
    (EditBuffer.ofText source).recordEdits
      (scriptEdits source (closingLines source block.content.items)
        (partsFrom source block.span.stop block.span.start block.content.items)) = .ok b' := by
  obtain ⟨⟨records, b₁⟩, h₁, h⟩ := bind_eq_ok_iff.1 h
  obtain ⟨⟨kind, config, b₂⟩, h₂, h⟩ := bind_eq_ok_iff.1 h
  cases h
  obtain ⟨hremoved, hsource₁⟩ := removeImportsFrom_history block.content.items rfl (ofEdit_eq_ok h₁)
  obtain ⟨⟨found, b₃⟩, h₃, h⟩ := bind_eq_ok_iff.1 h₂
  obtain ⟨hexported, hsource₃, hfound⟩ := linkItems_history block.content.items hsource₁ h₃
  rw [scriptEdits, flatMap_partsFrom source _ _ _ (exportEdits source), flatMap_defaultEdits,
    flatMap_closingEdits, List.append_assoc]
  refine recordEdits_append (recordEdits_append hremoved hexported) ?_
  cases found with
  | none =>
    cases h
    have hnone : defaultItems block.content.items = [] := hfound.symm
    have hclosing : closingLines source block.content.items = [] := by
      rw [closingLines, hnone]
      rfl
    rw [hnone, hclosing, flatMap_insertLeft_nil]
    rfl
  | some d =>
    obtain ⟨config', -, h⟩ := bind_eq_ok_iff.1 h
    obtain ⟨⟨kind', b₄⟩, h₄, h⟩ := bind_eq_ok_iff.1 h
    cases h
    have hd : defaultItems block.content.items = [d] := hfound.symm
    rw [hd]
    exact linkDefault_history hsource₃ hd (ofEdit_eq_ok h₄)

/-! ## The ranges of the parts -/

/-- An edit inside of a span: it shows when the span is read, and what it replaces ends there. -/
def Edit.Inside (s : Span) (e : Edit) : Prop :=
  e.touches s = true ∧ ∀ o, e.replacement? = some o → o.stop ≤ s.stop

theorem Edit.Inside.not_touches {s t : Span} {e : Edit} (h : e.Inside s)
    (happart : s.stop ≤ t.start ∨ t.stop ≤ s.start) : e.touches t = false := by
  have htouches := h.1
  cases e with
  | insertRight | insertLeft | overwrite | remove =>
    simp only [Edit.touches, EditBuffer.showsLeft, EditBuffer.showsRight, decide_eq_true_eq,
      decide_eq_false_iff_not] at htouches ⊢
    omega

theorem Edit.inside_insertLeft {s : Span} (h : s.start < s.stop) (text : Text) :
    (Edit.insertLeft s.stop text).Inside s := by
  refine ⟨?_, nofun⟩
  simp only [Edit.touches, EditBuffer.showsLeft, decide_eq_true_eq]
  omega

theorem Edit.inside_overwrite {s : Span} (h : s.start < s.stop) {mid : Nat} (hmid : mid ≤ s.stop)
    (text : Text) : (Edit.overwrite s.start mid text).Inside s := by
  refine ⟨?_, fun o ho => ?_⟩
  · simp only [Edit.touches, EditBuffer.showsRight, decide_eq_true_eq]
    omega
  · rw [Edit.replacement?] at ho
    split at ho
    · cases ho
    · cases ho
      exact hmid

/-- A part whose range lies on boundaries, with what is kept of it in the range. -/
structure Part.Fits (source : Text) (x : Part) : Prop where
  start_lt : x.range.start < x.range.stop
  isBoundary_start : isBoundary source x.range.start = true
  isBoundary_stop : isBoundary source x.range.stop = true
  isBoundary_kept : isBoundary source x.keptStart = true
  le_kept : x.range.start ≤ x.keptStart
  kept_le : x.keptStart ≤ x.range.stop
  import_not_last : isImport x.item = true → x.isLast = false
  range_eq : isImport x.item = false → x.range = itemSpan x.item

section

variable {source : Text} {x : Part}

/-- The edits of a part replace the text before what is kept, and insert what follows it. -/
theorem Part.Fits.edits_eq (h : x.Fits source) (closing : List Text) :
    x.edits source closing =
      x.frontEdits ++ (x.back source closing).map (.insertLeft x.range.stop) := by
  have hclosing : x.closingEdits closing =
      (if x.isLast then closing else []).map (.insertLeft x.range.stop) := by
    rw [Part.closingEdits]
    split <;> rfl
  rw [Part.edits, Part.back, List.map_append, hclosing, ← List.append_assoc]
  congr 1
  obtain ⟨item, range, isLast⟩ := x
  cases item with
  | imports => rfl
  | exportDefault span value | exportNames span specifiers module =>
    cases h.range_eq rfl
    rfl
  | exportDecl span declStart decl =>
    cases h.range_eq rfl
    exact List.append_nil _
  | exportDefaultDecl | exportAll | statement => rfl

theorem Part.Fits.rewrites (h : x.Fits source) (closing : List Text) :
    RewritesPiece (x.edits source closing) x.range.start x.keptStart x.range.stop x.front
      (x.back source closing).flatten := by
  rw [h.edits_eq]
  obtain ⟨item, range, isLast⟩ := x
  cases item with
  | imports | exportDefault | exportDecl | exportNames => exact rewritesPiece_overwrite ..
  | exportDefaultDecl | exportAll | statement => exact rewritesPiece_insertLeft ..

theorem Part.Fits.mem_edits (h : x.Fits source) {closing : List Text} {e : Edit}
    (he : e ∈ x.edits source closing) :
    e = .overwrite x.range.start x.keptStart x.front ∨ ∃ text, e = .insertLeft x.range.stop text := by
  rw [h.edits_eq] at he
  rcases List.mem_append.1 he with he | he
  · unfold Part.frontEdits at he
    split at he
    iterate 3 cases he
    exact .inl (List.mem_singleton.1 he)
  · obtain ⟨text, -, rfl⟩ := List.mem_map.1 he
    exact .inr ⟨text, rfl⟩

theorem Part.Fits.inside (h : x.Fits source) {closing : List Text} {e : Edit}
    (he : e ∈ x.edits source closing) : e.Inside x.range := by
  rcases h.mem_edits he with rfl | ⟨text, rfl⟩
  · exact Edit.inside_overwrite h.start_lt h.kept_le _
  · exact Edit.inside_insertLeft h.start_lt text

theorem Part.Fits.onBoundaries (h : x.Fits source) (closing : List Text) :
    OnBoundaries source (x.edits source closing) := by
  intro e he p hp
  rcases h.mem_edits he with rfl | ⟨text, rfl⟩
  · rcases List.mem_cons.1 hp with rfl | hp
    · exact h.isBoundary_start
    · rw [List.mem_singleton.1 hp]
      exact h.isBoundary_kept
  · rw [List.mem_singleton.1 hp]
    exact h.isBoundary_stop

end

/-- Parts that follow each other in a range of the source. -/
structure Arranged (source : Text) (s : Span) (parts : List Part) : Prop where
  fits : ∀ x ∈ parts, x.Fits source
  ordered : parts.Pairwise fun x y => x.range.stop ≤ y.range.start
  bounds : ∀ x ∈ parts, s.start ≤ x.range.start ∧ x.range.stop ≤ s.stop

section

variable {source : Text} {s : Span} {parts : List Part} {closing : List Text}

theorem mem_scriptEdits {e : Edit} :
    e ∈ scriptEdits source closing parts ↔ ∃ x ∈ parts, e ∈ x.edits source closing := by
  simp only [scriptEdits, Part.edits, List.mem_append, List.mem_flatMap]
  constructor
  · rintro (((⟨x, hx, he⟩ | ⟨x, hx, he⟩) | ⟨x, hx, he⟩) | ⟨x, hx, he⟩)
    · exact ⟨x, hx, .inl (.inl (.inl he))⟩
    · exact ⟨x, hx, .inl (.inl (.inr he))⟩
    · exact ⟨x, hx, .inl (.inr he)⟩
    · exact ⟨x, hx, .inr he⟩
  · rintro ⟨x, hx, ((he | he) | he) | he⟩
    · exact .inl (.inl (.inl ⟨x, hx, he⟩))
    · exact .inl (.inl (.inr ⟨x, hx, he⟩))
    · exact .inl (.inr ⟨x, hx, he⟩)
    · exact .inr ⟨x, hx, he⟩

/-- Of edits that stay in the ranges of their parts, those of one part show in its range. -/
theorem filter_flatMap_touches {f : Part → List Edit}
    (hf : ∀ y ∈ parts, ∀ e ∈ f y, e.Inside y.range)
    (hordered : parts.Pairwise fun x y => x.range.stop ≤ y.range.start) {x : Part}
    (hx : x ∈ parts) : (parts.flatMap f).filter (Edit.touches x.range) = f x := by
  induction parts with
  | nil => cases hx
  | cons y ys ih =>
    obtain ⟨hfirst, hrest⟩ := List.pairwise_cons.1 hordered
    obtain ⟨hy, hys⟩ := List.forall_mem_cons.1 hf
    rw [List.flatMap_cons, List.filter_append]
    rcases List.mem_cons.1 hx with rfl | hx
    · have hothers : (ys.flatMap f).filter (Edit.touches x.range) = [] := by
        refine List.filter_eq_nil_iff.2 fun e he => ?_
        obtain ⟨z, hz, he⟩ := List.mem_flatMap.1 he
        rw [(hys z hz e he).not_touches (.inr (hfirst z hz))]
        exact Bool.false_ne_true
      rw [List.filter_eq_self.2 fun e he => (hy e he).1, hothers, List.append_nil]
    · have hothers : (f y).filter (Edit.touches x.range) = [] := by
        refine List.filter_eq_nil_iff.2 fun e he => ?_
        rw [(hy e he).not_touches (.inl (hfirst x hx))]
        exact Bool.false_ne_true
      rw [hothers, ih hys hrest hx, List.nil_append]

namespace Arranged

variable (h : Arranged source s parts)

include h

theorem onBoundaries : OnBoundaries source (scriptEdits source closing parts) := by
  intro e he
  obtain ⟨x, hx, he⟩ := mem_scriptEdits.1 he
  exact (h.fits x hx).onBoundaries closing e he

/-- Nothing is replaced around an offset outside of all the ranges. -/
theorem not_covered {p : Nat} (hp : ∀ x ∈ parts, p ≤ x.range.start ∨ x.range.stop ≤ p) :
    ¬ Covered (scriptEdits source closing parts) p := by
  rintro ⟨o, ho, hstart, hstop⟩
  obtain ⟨e, he, hreplaced⟩ := List.mem_filterMap.1 ho
  obtain ⟨x, hx, he⟩ := mem_scriptEdits.1 he
  obtain ⟨htouches, hle⟩ := (h.fits x hx).inside he
  rw [e.start_of_replacement? hreplaced, EditBuffer.showsRight, decide_eq_true_eq] at htouches
  have hle := hle o hreplaced
  have hp := hp x hx
  omega

theorem filter_touches {x : Part} (hx : x ∈ parts) :
    (scriptEdits source closing parts).filter (Edit.touches x.range) = x.edits source closing := by
  have hinside : ∀ y ∈ parts, ∀ e ∈ y.edits source closing, e.Inside y.range :=
    fun y hy e he => (h.fits y hy).inside he
  simp only [Part.edits, List.mem_append] at hinside
  rw [scriptEdits, List.filter_append, List.filter_append, List.filter_append,
    filter_flatMap_touches (fun y hy e he => hinside y hy e (.inl (.inl (.inl he)))) h.ordered hx,
    filter_flatMap_touches (fun y hy e he => hinside y hy e (.inl (.inl (.inr he)))) h.ordered hx,
    filter_flatMap_touches (fun y hy e he => hinside y hy e (.inl (.inr he))) h.ordered hx,
    filter_flatMap_touches (fun y hy e he => hinside y hy e (.inr he)) h.ordered hx, Part.edits]

/-- Outside of the ranges the text is kept. -/
theorem bytes_between {t : Span} (hle : t.start ≤ t.stop)
    (hstart : isBoundary source t.start = true) (hstop : isBoundary source t.stop = true)
    (ht : ∀ x ∈ parts, x.range.stop ≤ t.start ∨ t.stop ≤ x.range.start) :
    editedBytes source (scriptEdits source closing parts) t.start t.stop =
      encode (textBetween source t.start t.stop) := by
  have hcovered : ¬ Covered (scriptEdits source closing parts) t.start := by
    refine h.not_covered fun x hx => ?_
    have := ht x hx
    have := (h.fits x hx).start_lt
    omega
  have hnothing : (scriptEdits source closing parts).filter (Edit.touches t) = [] := by
    refine List.filter_eq_nil_iff.2 fun e he => ?_
    obtain ⟨x, hx, he⟩ := mem_scriptEdits.1 he
    rw [((h.fits x hx).inside he).not_touches (ht x hx)]
    exact Bool.false_ne_true
  rw [editedBytes_touches hcovered, hnothing, editedBytes_nil hle,
    encode_textBetween hstart hstop hle]

/-- In the range of a part there is what becomes of it. -/
theorem bytes_part {x : Part} (hx : x ∈ parts)
    (hcovered : ¬ Covered (scriptEdits source closing parts) x.range.start) :
    editedBytes source (scriptEdits source closing parts) x.range.start x.range.stop =
      encode (x.front ++ textBetween source x.keptStart x.range.stop ++
        (x.back source closing).flatten) := by
  have hfits := h.fits x hx
  rw [editedBytes_touches hcovered, h.filter_touches hx,
    (hfits.rewrites closing).bytes_eq hfits.le_kept hfits.kept_le hfits.start_lt, encode_append,
    encode_append, encode_textBetween hfits.isBoundary_kept hfits.isBoundary_stop hfits.kept_le]

/-- From an offset on that some of the parts end before, the text is rewritten as far as the parts are
left. Every step goes over the text up to the next part and over its range, which both start and end
outside of all the ranges. -/
theorem bytes_from (hstop : isBoundary source s.stop = true) (rest : List Part) {reached : Nat}
    (hreached : isBoundary source reached = true) (hle : reached ≤ s.stop)
    (hdone : ∀ x ∈ parts, x.range.stop ≤ reached ∨ x ∈ rest) (hrest : ∀ x ∈ rest, x ∈ parts)
    (hordered : rest.Pairwise fun x y => x.range.stop ≤ y.range.start)
    (hahead : ∀ x ∈ rest, reached ≤ x.range.start) :
    editedBytes source (scriptEdits source closing parts) reached s.stop =
      encode (rewrittenFrom source s.stop closing reached rest) := by
  induction rest generalizing reached with
  | nil =>
    rw [rewrittenFrom]
    refine h.bytes_between (t := ⟨reached, s.stop⟩) hle hreached hstop fun x hx => .inl ?_
    exact (hdone x hx).resolve_right nofun
  | cons x xs ih =>
    obtain ⟨hx, hxs⟩ := List.forall_mem_cons.1 hrest
    obtain ⟨hfirst, hordered'⟩ := List.pairwise_cons.1 hordered
    obtain ⟨hahead, -⟩ := List.forall_mem_cons.1 hahead
    have hfits := h.fits x hx
    have hbound := (h.bounds x hx).2
    have hlt := hfits.start_lt
    -- Every part is behind, is this one, or comes after it.
    have hothers : ∀ y ∈ parts, y.range.stop ≤ reached ∨ y = x ∨ x.range.stop ≤ y.range.start := by
      intro y hy
      rcases hdone y hy with hle | hy
      · exact .inl hle
      · rcases List.mem_cons.1 hy with rfl | hy
        · exact .inr (.inl rfl)
        · exact .inr (.inr (hfirst y hy))
    have hstart : ¬ Covered (scriptEdits source closing parts) x.range.start := by
      refine h.not_covered fun y hy => ?_
      rcases hothers y hy with hy | rfl | hy <;> omega
    have hend : ¬ Covered (scriptEdits source closing parts) x.range.stop := by
      refine h.not_covered fun y hy => ?_
      rcases hothers y hy with hy | rfl | hy <;> omega
    have hgap : editedBytes source (scriptEdits source closing parts) reached x.range.start =
        encode (textBetween source reached x.range.start) := by
      refine h.bytes_between (t := ⟨reached, x.range.start⟩) hahead hreached hfits.isBoundary_start ?_
      intro y hy
      rcases hothers y hy with hy | rfl | hy
      · exact .inl hy
      · exact .inr (Nat.le_refl _)
      · exact .inr (Nat.le_trans (Nat.le_of_lt hlt) hy)
    have hdone' : ∀ y ∈ parts, y.range.stop ≤ x.range.stop ∨ y ∈ xs := by
      intro y hy
      rcases hdone y hy with hle | hy
      · exact .inl (by omega)
      · rcases List.mem_cons.1 hy with rfl | hy
        · exact .inl (Nat.le_refl _)
        · exact .inr hy
    have hafter := ih hfits.isBoundary_stop hbound hdone' hxs hordered' hfirst
    rw [rewrittenFrom, encode_append, encode_append, ← hafter, ← hgap, ← h.bytes_part hx hstart,
      List.append_assoc, ← editedBytes_append (Nat.le_of_lt hlt) hbound hend,
      ← editedBytes_append hahead (by omega) hstart]

/-- The text of the whole range. -/
theorem slice_eq_ok {b : EditBuffer} (hs : Placed source 0 s)
    (hb : Recorded source (scriptEdits source closing parts) b) :
    b.slice s.start s.stop = .ok (rewrittenFrom source s.stop closing s.start parts) := by
  obtain ⟨body, hbody⟩ := hs
  have houter : ∀ p, p ≤ s.start ∨ s.stop ≤ p →
      ¬ Covered (scriptEdits source closing parts) p := by
    intro p hp
    refine h.not_covered fun x hx => ?_
    have := h.bounds x hx
    omega
  refine hb.slice_eq_ok h.onBoundaries hbody.start_le_stop hbody.isBoundary_start
    hbody.isBoundary_stop (houter _ (.inl (Nat.le_refl _))) (houter _ (.inr (Nat.le_refl _))) ?_
  exact (h.bytes_from hbody.isBoundary_stop parts hbody.isBoundary_start hbody.start_le_stop
    (fun x hx => .inr hx) (fun x hx => hx) h.ordered fun x hx => (h.bounds x hx).1).symm

end Arranged

end

/-- The range of an item that is no import is its span. -/
theorem fits_of_itemPlaced {source : Text} {item : ModuleItem} (h : ItemPlaced source 0 item)
    (himport : isImport item = false) (isLast : Bool) :
    Part.Fits source ⟨item, itemSpan item, isLast⟩ := by
  obtain ⟨body, hbody, htrim⟩ := h.span
  have hlt := hbody.start_lt_stop htrim.ne_nil
  have hexported := h.exported
  have hkept : ∀ {kept : Nat}, isBoundary source kept = true → (itemSpan item).start ≤ kept →
      kept ≤ (itemSpan item).stop → Part.keptStart ⟨item, itemSpan item, isLast⟩ = kept →
      Part.Fits source ⟨item, itemSpan item, isLast⟩ := by
    intro kept hboundary hle hge heq
    refine ⟨hlt, hbody.isBoundary_start, hbody.isBoundary_stop, heq ▸ hboundary, heq ▸ hle, heq ▸ hge,
      ?_, fun _ => rfl⟩
    intro himport'
    rw [himport] at himport'
    cases himport'
  cases item with
  | imports => cases himport
  | exportDefault span value | exportDecl span declStart decl =>
    obtain ⟨⟨inner, hinner⟩, hle⟩ := hexported _ rfl
    exact hkept hinner.isBoundary_start hle hinner.start_le_stop rfl
  | exportNames => exact hkept hbody.isBoundary_stop (Nat.le_of_lt hlt) (Nat.le_refl _) rfl
  | exportDefaultDecl | exportAll | statement =>
    exact hkept hbody.isBoundary_start (Nat.le_refl _) (Nat.le_of_lt hlt) rfl

/-- The range of a part is that of its item, unless something is removed for it. -/
theorem mem_partsFrom {items : List ModuleItem} {source : Text} {lower upper : Nat} {x : Part}
    (hx : x ∈ partsFrom source upper lower items) :
    x.item ∈ items ∧ (isImport x.item = true → x.isLast = false) ∧
      (isImport x.item = false → x.range = itemSpan x.item) := by
  induction items generalizing lower with
  | nil => cases hx
  | cons item items ih =>
    cases item with
    | imports | exportDefault | exportDefaultDecl | exportDecl | exportNames | exportAll | statement =>
      rcases List.mem_cons.1 hx with rfl | hx
      · exact ⟨List.mem_cons_self, by simp [isImport], by simp [isImport]⟩
      · obtain ⟨hmem, hlast⟩ := ih hx
        exact ⟨List.mem_cons_of_mem _ hmem, hlast⟩

/-- The ranges of parts follow each other in a range of the source, and the range of an import is the
one that is removed for it. -/
structure Ranged (source : Text) (s : Span) (parts : List Part) : Prop where
  ordered : parts.Pairwise fun x y => x.range.stop ≤ y.range.start
  bounds : ∀ x ∈ parts, s.start ≤ x.range.start ∧ x.range.stop ≤ s.stop
  removed : ∀ x ∈ parts, isImport x.item = true → ∃ lower,
    removalRange source (itemSpan x.item) lower s.stop = .ok x.range ∧
      RemovesAround source (itemSpan x.item) lower s.stop x.range

/-- The ranges of the items follow each other like the items, and no range of an import reaches into
anything that ends before the items and has no blanks at its end. -/
theorem partsFrom_ranged (items : List ModuleItem) {source : Text} {lower upper : Nat}
    (htrimmed : ∀ item ∈ items, TrimmedAt source (itemSpan item))
    (hordered : items.Pairwise fun x y => (itemSpan x).stop ≤ (itemSpan y).start)
    (hlower : isBoundary source lower = true) (hupper : isBoundary source upper = true)
    (hbounds : ∀ item ∈ items, lower ≤ (itemSpan item).start ∧ (itemSpan item).stop ≤ upper) :
    Ranged source ⟨lower, upper⟩ (partsFrom source upper lower items) ∧
      ∀ t body, StandsAt source 0 t body → Trimmed body →
        (∀ item ∈ items, t.stop ≤ (itemSpan item).start) →
        ∀ x ∈ partsFrom source upper lower items, t.stop ≤ x.range.start := by
  induction items generalizing lower with
  | nil => exact ⟨⟨.nil, nofun, nofun⟩, fun _ _ _ _ _ => nofun⟩
  | cons item items ih =>
    obtain ⟨hfirst, hordered'⟩ := List.pairwise_cons.1 hordered
    obtain ⟨⟨body, hbody, htrim⟩, htrimmed'⟩ := List.forall_mem_cons.1 htrimmed
    obtain ⟨⟨hle, hge⟩, hbounds'⟩ := List.forall_mem_cons.1 hbounds
    cases himport : isImport item with
    | false =>
      obtain ⟨hranged, hclear⟩ := ih htrimmed' hordered' hlower hbounds'
      rw [partsFrom_cons source upper lower items himport]
      refine ⟨⟨?_, ?_, ?_⟩, ?_⟩
      · exact List.pairwise_cons.2 ⟨hclear _ body hbody htrim hfirst, hranged.ordered⟩
      · exact List.forall_mem_cons.2 ⟨⟨hle, hge⟩, hranged.bounds⟩
      · refine List.forall_mem_cons.2 ⟨fun himport' => ?_, hranged.removed⟩
        cases himport.symm.trans himport'
      · intro t body' ht htrim' hbefore
        obtain ⟨hbefore, hbefore'⟩ := List.forall_mem_cons.1 hbefore
        exact List.forall_mem_cons.2 ⟨hbefore, hclear t body' ht htrim' hbefore'⟩
    | true =>
      cases item with
      | exportDefault | exportDefaultDecl | exportDecl | exportNames | exportAll | statement =>
        cases himport
      | imports span specifiers module =>
        obtain ⟨range, hrange, hr⟩ := removalRange_eq_ok ⟨body, hbody⟩ hlower hupper hle hge
        have hget : (removalRange source span lower upper).toOption.getD span = range := by
          rw [show removalRange source span lower upper = .ok range from hrange]
          rfl
        have hrangeLe : range.start ≤ range.stop :=
          (hr.start_le.trans hbody.start_le_stop).trans hr.le_stop
        have hbounds₁ : ∀ x ∈ items, range.stop ≤ (itemSpan x).start ∧ (itemSpan x).stop ≤ upper := by
          intro x hx
          obtain ⟨body', hbody', htrim'⟩ := htrimmed' x hx
          exact ⟨hr.after _ body' hbody' htrim' (hfirst x hx), (hbounds' x hx).2⟩
        obtain ⟨hranged, hclear⟩ := ih htrimmed' hordered' hr.isBoundary_stop hbounds₁
        simp only [partsFrom, hget]
        refine ⟨⟨?_, ?_, ?_⟩, ?_⟩
        · exact List.pairwise_cons.2 ⟨fun x hx => (hranged.bounds x hx).1, hranged.ordered⟩
        · refine List.forall_mem_cons.2 ⟨⟨hr.lower_le, hr.le_upper⟩, fun x hx => ?_⟩
          obtain ⟨hge', hle'⟩ := hranged.bounds x hx
          exact ⟨hr.lower_le.trans (hrangeLe.trans hge'), hle'⟩
        · exact List.forall_mem_cons.2 ⟨fun _ => ⟨lower, hrange, hr⟩, hranged.removed⟩
        · intro t body' ht htrim' hbefore
          obtain ⟨hbefore, hbefore'⟩ := List.forall_mem_cons.1 hbefore
          exact List.forall_mem_cons.2 ⟨hr.before t body' ht htrim' hbefore,
            hclear t body' ht htrim' hbefore'⟩

/-- The parts of items that stand in the source follow each other like the items, apart from anything
that ends before the items and has no blanks at its end. -/
theorem partsFrom_arranged (items : List ModuleItem) {source : Text} {lower upper : Nat}
    (hplaced : ∀ item ∈ items, ItemPlaced source 0 item)
    (hordered : items.Pairwise fun x y => (itemSpan x).stop ≤ (itemSpan y).start)
    (hlower : isBoundary source lower = true) (hupper : isBoundary source upper = true)
    (hbounds : ∀ item ∈ items, lower ≤ (itemSpan item).start ∧ (itemSpan item).stop ≤ upper) :
    Arranged source ⟨lower, upper⟩ (partsFrom source upper lower items) ∧
      ∀ t body, StandsAt source 0 t body → Trimmed body →
        (∀ item ∈ items, t.stop ≤ (itemSpan item).start) →
        ∀ x ∈ partsFrom source upper lower items, t.stop ≤ x.range.start := by
  obtain ⟨hranged, hclear⟩ := partsFrom_ranged items (fun x hx => (hplaced x hx).span) hordered
    hlower hupper hbounds
  refine ⟨⟨fun x hx => ?_, hranged.ordered, hranged.bounds⟩, hclear⟩
  obtain ⟨hmem, hlast, hrange⟩ := mem_partsFrom hx
  cases himport : isImport x.item with
  | false =>
    obtain ⟨item, range, isLast⟩ := x
    obtain rfl : range = itemSpan item := hrange himport
    exact fits_of_itemPlaced (hplaced _ hmem) himport isLast
  | true =>
    obtain ⟨body, hbody, htrim⟩ := (hplaced _ hmem).span
    obtain ⟨lower', -, hr⟩ := hranged.removed x hx himport
    have hlt : x.range.start < x.range.stop :=
      (hr.start_le.trans_lt (hbody.start_lt_stop htrim.ne_nil)).trans_le hr.le_stop
    -- Nothing is kept of an import.
    have hkept : x.keptStart = x.range.stop := by
      obtain ⟨item, range, isLast⟩ := x
      cases item with
      | imports => rfl
      | exportDefault | exportDefaultDecl | exportDecl | exportNames | exportAll | statement =>
        cases himport
    refine ⟨hlt, hr.isBoundary_start, hr.isBoundary_stop, hkept ▸ hr.isBoundary_stop,
      hkept ▸ hlt.le, hkept.le, hlast, fun himport' => ?_⟩
    cases himport.symm.trans himport'

/-- A whole text as the script that it is read as. -/
def wholeScript (source : Text) : Option ScriptBlock :=
  (readModule source 0).map fun m => ⟨m, ⟨0, byteLength source⟩⟩

/-- What is read as a script stands in its text. -/
theorem wholeScript_placed {source : Text} {block : ScriptBlock} (h : wholeScript source = some block) :
    ModulePlaced source 0 block.content ∧ Placed source 0 block.span ∧
      ∀ item ∈ block.content.items,
        block.span.start ≤ (itemSpan item).start ∧ (itemSpan item).stop ≤ block.span.stop := by
  obtain ⟨m, hm, rfl⟩ := Option.map_eq_some_iff.1 h
  have hplaced := Grammar.standard_sound.module _ _ _ hm
  refine ⟨hplaced, ⟨source, [], [], (List.append_nil _).symm, rfl, (Nat.zero_add _).symm⟩, ?_⟩
  intro item hitem
  obtain ⟨body, hbody, -⟩ := (hplaced.items item hitem).span
  exact ⟨Nat.zero_le _, Nat.zero_add (byteLength source) ▸ hbody.stop_le⟩

/-- Indented exports, a default export before the last item, and an import behind it. -/
def crowdedScript : Text :=
  "  export var a, b\nexport default \x7b\x7d\nexport * as c from 'd'; import 'e'".toList

/-- What becomes of it: the import is removed with the blank before it. -/
def crowdedScriptLinked : Text :=
  "  var a, b\n  exports.a = a;\n  exports.b = b;\nvar template = \x7b\x7d\n".toList ++
    "exports.c = require( 'd' );\n\nreturn template;".toList

/-- A name with a character that is neither a letter nor a digit. -/
def dottedExport : Text := "export var a·b = 1".toList

end TemplateCompiler
