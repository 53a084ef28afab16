import TemplateCompiler.Component.Script
import TemplateCompiler.Proofs.Component.Removal

/-!
# Linking scripts

The exports of a script are rewritten each inside of its own span, after the imports have been
removed. The spans of the items are apart from each other and from what was removed, so none of these
edits is refused.

## What this module delivers

* `linkItems_settles`, `linkDefault_eq_ok`: the exports of a module.
* `linkScript_settles`: a whole script.
-/

set_option autoImplicit false

namespace TemplateCompiler

open Script

/-! ## Named exports -/

theorem indentAt_eq_ok {b : EditBuffer} {offset : Nat}
    (h : Text.isBoundary b.source offset = true) : ∃ indent, indentAt b offset = .ok indent := by
  obtain ⟨before, after, hsource, hlen⟩ := Text.isBoundary_iff.1 h
  have htake : Text.take? offset b.source = some before :=
    Text.take?_eq_some_iff.2 ⟨after, hsource, hlen⟩
  simp only [indentAt, lineIndent?, htake, Option.map_some]
  exact ⟨_, rfl⟩

/-- An exported declaration is rewritten inside of its span. -/
theorem linkDeclaration_eq_ok {b : EditBuffer} (hb : b.Anchored) {span : Span} {declStart : Nat}
    (names : List Text) (hspan : Placed b.source 0 span)
    (hdecl : Placed b.source 0 ⟨declStart, span.stop⟩) (hle : span.start ≤ declStart)
    (hclear : b.Clear span) :
    ∃ b', linkDeclaration span declStart names b = .ok b' ∧ b.Overwritten span b' := by
  obtain ⟨body, hbody⟩ := hspan
  obtain ⟨inner, hinner⟩ := hdecl
  have hinnerLe : declStart ≤ span.stop := hinner.start_le_stop
  obtain ⟨b₁, h₁, ho⟩ := hb.overwrite [] hbody.isBoundary_start hinner.isBoundary_start hle
    (hclear.mono (Nat.le_refl _) hinnerLe)
  have hsource : b₁.source = b.source := ho.source
  obtain ⟨indent, hindent⟩ : ∃ indent, indentAt b₁ span.start = .ok indent := by
    apply indentAt_eq_ok
    rw [hsource]
    exact hbody.isBoundary_start
  have hinsert : ∀ (e : EditBuffer) (name : Text), e.Anchored →
      Text.isBoundary e.source span.stop = true →
      ∃ e', e.insertLeft span.stop ("\n".toList ++ indent ++ exportAssignment name name) = .ok e' ∧
        e.Inserted e' :=
    fun e name he hstop => he.insertLeft _ hstop
  obtain ⟨b₂, h₂, hi⟩ := ho.anchored.foldlM_insert
    (fun source _ => Text.isBoundary source span.stop = true) hinsert names
    (fun _ _ => by rw [hsource]; exact hbody.isBoundary_stop)
  refine ⟨b₂, ?_, (ho.mono (t := span) (Nat.le_refl _) hinnerLe).inserted hi⟩
  exact bind_eq_ok_iff.2 ⟨b₁, h₁, bind_eq_ok_iff.2 ⟨indent, hindent, h₂⟩⟩

/-! ## The items of a module -/

/-- A default export that stands in the source and has not been touched yet. -/
structure DefaultItem.Ready (b : EditBuffer) (d : DefaultItem) : Prop where
  placed : ItemPlaced b.source 0 (.exportDefault d.span d.value)
  clear : b.Clear d.span

/-- The named exports of some items are rewritten, and the default export is left for later. -/
theorem linkItems_settles (items : List ModuleItem) (found : Option DefaultItem) {b : EditBuffer}
    (hb : b.Anchored) (hplaced : ∀ item ∈ items, ItemPlaced b.source 0 item)
    (hordered : items.Pairwise fun x y => (itemSpan x).stop ≤ (itemSpan y).start)
    (hclear : ∀ item ∈ items, isImport item = false → b.Clear (itemSpan item))
    (hfound : ∀ d ∈ found, d.Ready b ∧ ∀ item ∈ items, d.span.stop ≤ (itemSpan item).start) :
    Settles CompileError.IsInternal
      (fun r => r.2.source = b.source ∧ r.2.Anchored ∧ ∀ d ∈ r.1, d.Ready r.2)
      (linkItems found items b) := by
  induction items generalizing found b with
  | nil => exact ⟨rfl, hb, fun d hd => (hfound d hd).1⟩
  | cons item items ih =>
    obtain ⟨hfirst, hrest⟩ := List.pairwise_cons.1 hordered
    have hplaced' : ∀ x ∈ items, ItemPlaced b.source 0 x :=
      fun x hx => hplaced x (List.mem_cons_of_mem _ hx)
    have hclear' : ∀ x ∈ items, isImport x = false → b.Clear (itemSpan x) :=
      fun x hx => hclear x (List.mem_cons_of_mem _ hx)
    have hfound' : ∀ d ∈ found, d.Ready b ∧ ∀ x ∈ items, d.span.stop ≤ (itemSpan x).start :=
      fun d hd => ⟨(hfound d hd).1, fun x hx => (hfound d hd).2 x (List.mem_cons_of_mem _ hx)⟩
    -- After an overwrite inside of the first item everything known of the others still holds.
    have hnext : ∀ b₁, b.Overwritten (itemSpan item) b₁ →
        Settles CompileError.IsInternal
          (fun r => r.2.source = b.source ∧ r.2.Anchored ∧ ∀ d ∈ r.1, d.Ready r.2)
          (linkItems found items b₁) := by
      intro b₁ ho
      rw [← ho.source] at hplaced' ⊢
      refine ih found ho.anchored hplaced' hrest ?_ ?_
      · intro x hx himport
        exact ho.clear _ (hclear' x hx himport) (Or.inl (hfirst x hx))
      · intro d hd
        obtain ⟨hready, hbefore⟩ := hfound d hd
        refine ⟨⟨by rw [ho.source]; exact hready.placed, ?_⟩, (hfound' d hd).2⟩
        exact ho.clear _ hready.clear (Or.inr (hbefore item List.mem_cons_self))
    have hitem := hplaced item List.mem_cons_self
    obtain ⟨body, hbody, -⟩ := hitem.span
    cases item with
    | imports | statement => exact ih found hb hplaced' hrest hclear' hfound'
    | exportDefaultDecl | exportAll => exact fun h => h
    | exportDefault span value =>
      rw [linkItems]
      split
      · exact fun h => h
      · refine ih _ hb hplaced' hrest hclear' ?_
        intro d hd
        cases hd
        exact ⟨⟨hitem, hclear _ List.mem_cons_self rfl⟩, hfirst⟩
    | exportDecl span declStart decl =>
      obtain ⟨hdecl, hle⟩ := hitem.exported declStart rfl
      obtain ⟨b₁, h₁, ho⟩ := linkDeclaration_eq_ok hb decl.declaredNames ⟨body, hbody⟩ hdecl hle
        (hclear _ List.mem_cons_self rfl)
      exact (settles_ofEdit h₁ ho).bind hnext
    | exportNames span specifiers source =>
      obtain ⟨b₁, h₁, ho⟩ := hb.overwrite (exportStatements source specifiers)
        hbody.isBoundary_start hbody.isBoundary_stop hbody.start_le_stop
        (hclear _ List.mem_cons_self rfl)
      exact (settles_ofEdit h₁ ho).bind hnext

/-! ## The default export -/

theorem mem_of_lastStop? {m : Module} {stop : Nat} (h : lastStop? m = some stop) :
    ∃ item ∈ m.items, (itemSpan item).stop = stop := by
  obtain ⟨item, hitem, hstop⟩ := Option.map_eq_some_iff.1 h
  exact ⟨item, List.mem_reverse.1 (List.mem_of_find?_eq_some hitem), hstop⟩

/-- The default export becomes the result of the script. -/
theorem linkDefault_eq_ok {m : Module} {b : EditBuffer} {d : DefaultItem} (hb : b.Anchored)
    (hm : ModulePlaced b.source 0 m) (hd : d.Ready b) :
    ∃ r, linkDefault m d b = .ok r ∧ r.2.source = b.source ∧ r.2.Anchored := by
  obtain ⟨body, hbody, -⟩ := hd.placed.span
  obtain ⟨⟨inner, hinner⟩, hle⟩ := hd.placed.exported _ rfl
  have hover : ∀ text, ∃ b', b.overwrite d.span.start d.value.span.start text = .ok b' ∧
      b.Overwritten ⟨d.span.start, d.value.span.start⟩ b' :=
    fun text => hb.overwrite text hbody.isBoundary_start hinner.isBoundary_start hle
      (hd.clear.mono (Nat.le_refl _) hinner.start_le_stop)
  by_cases hfinal : d.isFinal = true
  · obtain ⟨b₁, h₁, ho⟩ := hover "return ".toList
    refine ⟨(.final, b₁), ?_, ho.source, ho.anchored⟩
    simp only [linkDefault, hfinal, if_true]
    exact bind_eq_ok_iff.2 ⟨b₁, h₁, rfl⟩
  · obtain ⟨indent, hindent⟩ := indentAt_eq_ok hbody.isBoundary_start
    obtain ⟨b₁, h₁, ho⟩ := hover "var template = ".toList
    cases hstop : lastStop? m with
    | none =>
      refine ⟨(.bound, b₁), ?_, ho.source, ho.anchored⟩
      simp only [linkDefault, hfinal, hstop]
      exact bind_eq_ok_iff.2 ⟨indent, hindent, bind_eq_ok_iff.2 ⟨b₁, h₁, rfl⟩⟩
    | some stop =>
      obtain ⟨item, hitem, rfl⟩ := mem_of_lastStop? hstop
      obtain ⟨body', hbody', -⟩ := (hm.items item hitem).span
      obtain ⟨b₂, h₂, hi⟩ := ho.anchored.insertLeft
        ("\n\n".toList ++ indent ++ "return template;".toList)
        (by rw [ho.source]; exact hbody'.isBoundary_stop)
      refine ⟨(.bound, b₂), ?_, hi.source.trans ho.source, hi.anchored⟩
      simp only [linkDefault, hfinal, hstop]
      exact bind_eq_ok_iff.2 ⟨indent, hindent, bind_eq_ok_iff.2 ⟨b₁, h₁,
        bind_eq_ok_iff.2 ⟨b₂, h₂, rfl⟩⟩⟩

/-! ## Scripts -/

theorem isImport_or_disjoint_of_ordered {items : List ModuleItem}
    (hordered : items.Pairwise fun x y => (itemSpan x).stop ≤ (itemSpan y).start)
    {x y : ModuleItem} (hx : x ∈ items) (hy : y ∈ items) (hne : isImport x ≠ isImport y) :
    (itemSpan x).stop ≤ (itemSpan y).start ∨ (itemSpan y).stop ≤ (itemSpan x).start := by
  induction items with
  | nil => cases hx
  | cons z items ih =>
    obtain ⟨hfirst, hrest⟩ := List.pairwise_cons.1 hordered
    rcases List.mem_cons.1 hx with rfl | hx'
    · rcases List.mem_cons.1 hy with rfl | hy'
      · exact absurd rfl hne
      · exact Or.inl (hfirst y hy')
    · rcases List.mem_cons.1 hy with rfl | hy'
      · exact Or.inr (hfirst x hx')
      · exact ih hrest hx' hy'

/-- The exports of a module are rewritten once nothing but its imports has been touched. -/
theorem linkExports_settles {m : Module} {b : EditBuffer} (hb : b.Anchored)
    (hm : ModulePlaced b.source 0 m)
    (hclear : ∀ item ∈ m.items, isImport item = false → b.Clear (itemSpan item)) :
    Settles CompileError.IsInternal (fun r => r.2.2.source = b.source ∧ r.2.2.Anchored)
      (linkExports m b) := by
  have hitems := linkItems_settles m.items none hb hm.items hm.ordered hclear
    (fun d hd => nomatch hd)
  refine hitems.bind ?_
  rintro ⟨found, b₁⟩ ⟨hsource, hb₁, hready⟩
  cases found with
  | none => exact ⟨hsource, hb₁⟩
  | some d =>
    obtain ⟨⟨kind, b₂⟩, h₂, hsource₂, hb₂⟩ :=
      linkDefault_eq_ok hb₁ (by rw [hsource]; exact hm) (hready d rfl)
    cases hconfig : extractConfig d.value with
    | error e =>
      simp only [hconfig]
      exact fun h => h
    | ok config =>
      simp only [hconfig, h₂]
      exact ⟨hsource₂.trans hsource, hb₂⟩

/-- The imports and exports of a script that stands in the source are turned into edits. -/
theorem linkScript_settles {block : ScriptBlock} {b : EditBuffer} (hb : b.Anchored)
    (hclear : ∀ t, b.Clear t) (hm : ModulePlaced b.source 0 block.content)
    (hspan : Placed b.source 0 block.span)
    (hbounds : ∀ item ∈ block.content.items,
      block.span.start ≤ (itemSpan item).start ∧ (itemSpan item).stop ≤ block.span.stop) :
    Settles CompileError.IsInternal
      (fun r => r.1.body = block.span ∧ r.2.source = b.source ∧ r.2.Anchored)
      (linkScript block b) := by
  obtain ⟨body, hbody⟩ := hspan
  obtain ⟨records, b₁, h₁, hsource, hb₁, hkeep⟩ := removeImportsFrom_eq_ok block.content.items 0 hb
    (fun x hx => (hm.items x hx).span) hm.ordered hbody.isBoundary_start hbody.isBoundary_stop hbounds (hclear _)
  have hclear₁ : ∀ item ∈ block.content.items, isImport item = false →
      b₁.Clear (itemSpan item) := by
    intro item hitem hno
    obtain ⟨body', hbody', htrim⟩ := (hm.items item hitem).span
    refine hkeep _ body' hbody' htrim (hclear _) fun x hx hyes => ?_
    exact isImport_or_disjoint_of_ordered hm.ordered hx hitem (by rw [hno, hyes]; decide)
  rw [← hsource] at hm ⊢
  have hremoved : removeImports block.content block.span b = .ok (records, b₁) := h₁
  simp only [linkScript, hremoved]
  refine (linkExports_settles hb₁ hm hclear₁).bind ?_
  rintro ⟨kind, config, b₂⟩ ⟨hsource₂, hb₂⟩
  exact ⟨rfl, hsource₂, hb₂⟩

end TemplateCompiler
