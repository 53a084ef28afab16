import TemplateCompiler.Proofs.Component.Linking
import TemplateCompiler.Proofs.Edit.Locality

/-!
# Linking a script edits nothing but the script

Removing imports takes the blanks around them along, and exports are rewritten and followed by
assignments. All of these edits show in the span of the script and none shows outside of it.

## What this module delivers

* `removeImportsFrom_tidy`, `linkItems_tidy`, `linkDefault_tidy`: what each part of the linking edits.
* `linkScript_tidy`: the edits of a linked script stay in its span.
-/

set_option autoImplicit false

namespace TemplateCompiler

open Script

variable {b b' : EditBuffer} {s : Span}

/-! ## Imports -/

/-- Imports are removed with blanks of the script only. -/
theorem removeImportsFrom_tidy (items : List ModuleItem) {number lower : Nat}
    {records : List ImportRecord} (hb : b.Tidy s)
    (hplaced : ∀ item ∈ items, ItemPlaced b.source 0 item)
    (hordered : items.Pairwise fun x y => (itemSpan x).stop ≤ (itemSpan y).start)
    (hlower : Text.isBoundary b.source lower = true)
    (hupper : Text.isBoundary b.source s.stop = true)
    (hbounds : ∀ item ∈ items, lower ≤ (itemSpan item).start ∧ (itemSpan item).stop ≤ s.stop)
    (hs : s.start ≤ lower)
    (h : removeImportsFrom s.stop number lower items b = .ok (records, b')) :
    b'.Tidy s := by
  induction items generalizing number lower b records with
  | nil =>
    cases h
    exact hb
  | cons item items ih =>
    obtain ⟨hfirst, hrest⟩ := List.pairwise_cons.1 hordered
    have hplaced' : ∀ x ∈ items, ItemPlaced b.source 0 x :=
      fun x hx => hplaced x (List.mem_cons_of_mem _ hx)
    have hbounds' : ∀ x ∈ items, lower ≤ (itemSpan x).start ∧ (itemSpan x).stop ≤ s.stop :=
      fun x hx => hbounds x (List.mem_cons_of_mem _ hx)
    cases item with
    | imports span specifiers source =>
      obtain ⟨body, hbody, htrim⟩ := (hplaced _ List.mem_cons_self).span
      obtain ⟨hle, hge⟩ := hbounds _ List.mem_cons_self
      change lower ≤ span.start at hle
      change span.stop ≤ s.stop at hge
      have hlt : span.start < span.stop := hbody.start_lt_stop htrim.ne_nil
      obtain ⟨range, hrange, hr⟩ := removalRange_eq_ok ⟨body, hbody⟩ hlower hupper hle hge
      obtain ⟨range', hrange', h⟩ := bind_eq_ok_iff.1 h
      cases hrange.symm.trans hrange'
      obtain ⟨b₁, h₁, h⟩ := bind_eq_ok_iff.1 h
      obtain ⟨⟨records', b₂⟩, h₂, h⟩ := bind_eq_ok_iff.1 h
      cases h
      -- The range starts no later than the import, which is not empty.
      have hstart : range.start ≤ span.start := hr.start_le
      have hstop : span.stop ≤ range.stop := hr.le_stop
      have hb₁ : b₁.Tidy s := hb.overwrite h₁ (Nat.le_trans hs hr.lower_le) (by omega)
      have hsource : b₁.source = b.source := EditBuffer.overwrite_source h₁
      rw [← hsource] at hplaced' hupper
      refine ih hb₁ hplaced' hrest (hsource ▸ hr.isBoundary_stop) hupper ?_ ?_ h₂
      · intro x hx
        obtain ⟨body', hbody', htrim'⟩ := (hplaced' x hx).span
        exact ⟨hr.after _ body' (hsource ▸ hbody') htrim' (hfirst x hx), (hbounds' x hx).2⟩
      · omega
    | exportDefault | exportDefaultDecl | exportDecl | exportNames | exportAll | statement =>
      exact ih hb hplaced' hrest hlower hupper hbounds' hs h

/-! ## Exports -/

/-- The span of an item that is not empty and lies in the span of a script. -/
structure ItemInside (s span : Span) : Prop where
  start_le : s.start ≤ span.start
  start_lt : span.start < span.stop
  stop_le : span.stop ≤ s.stop

theorem linkDeclaration_tidy {span : Span} {declStart : Nat} {names : List Text} (hb : b.Tidy s)
    (hspan : ItemInside s span) (h : linkDeclaration span declStart names b = .ok b') :
    b'.Tidy s := by
  obtain ⟨hstart, hlt, hstop⟩ := hspan
  obtain ⟨b₁, h₁, h'⟩ := bind_eq_ok_iff.1 h
  obtain ⟨indent, -, hnames⟩ := bind_eq_ok_iff.1 h'
  have hb₁ : b₁.Tidy s := hb.overwrite h₁ hstart (Nat.lt_of_lt_of_le hlt hstop)
  clear h h' h₁
  induction names generalizing b₁ with
  | nil =>
    cases hnames
    exact hb₁
  | cons name names ih =>
    rw [List.foldlM_cons] at hnames
    obtain ⟨b₂, h₂, hrest⟩ := bind_eq_ok_iff.1 hnames
    exact ih b₂ hrest (hb₁.insertLeft h₂ (Nat.lt_of_le_of_lt hstart hlt) hstop)

/-- Named exports are rewritten inside of the script, and the default export is one of its items. -/
theorem linkItems_tidy (items : List ModuleItem) {found found' : Option DefaultItem}
    (hb : b.Tidy s) (hitems : ∀ item ∈ items, ItemInside s (itemSpan item))
    (hfound : ∀ d ∈ found, ItemInside s d.span)
    (h : linkItems found items b = .ok (found', b')) :
    b'.Tidy s ∧ ∀ d ∈ found', ItemInside s d.span := by
  induction items generalizing found b with
  | nil =>
    cases h
    exact ⟨hb, hfound⟩
  | cons item items ih =>
    have hitem := hitems item List.mem_cons_self
    have hitems' : ∀ x ∈ items, ItemInside s (itemSpan x) :=
      fun x hx => hitems x (List.mem_cons_of_mem _ hx)
    cases item with
    | imports | statement => exact ih hb hitems' hfound h
    | exportDefaultDecl | exportAll => cases h
    | exportDefault span value =>
      rw [linkItems] at h
      split at h
      · cases h
      · refine ih hb hitems' ?_ h
        intro d hd
        cases hd
        exact hitem
    | exportDecl span declStart decl =>
      obtain ⟨b₁, h₁, h⟩ := bind_eq_ok_iff.1 h
      exact ih (linkDeclaration_tidy hb hitem (ofEdit_eq_ok h₁)) hitems' hfound h
    | exportNames span specifiers source =>
      obtain ⟨b₁, h₁, h⟩ := bind_eq_ok_iff.1 h
      have hb₁ := hb.overwrite (ofEdit_eq_ok h₁) hitem.start_le
        (Nat.lt_of_lt_of_le hitem.start_lt hitem.stop_le)
      exact ih hb₁ hitems' hfound h

theorem linkDefault_tidy {m : Module} {d : DefaultItem} {kind : DefaultExport} (hb : b.Tidy s)
    (hitems : ∀ item ∈ m.items, ItemInside s (itemSpan item)) (hd : ItemInside s d.span)
    (h : linkDefault m d b = .ok (kind, b')) : b'.Tidy s := by
  have hlt := Nat.lt_of_lt_of_le hd.start_lt hd.stop_le
  unfold linkDefault at h
  by_cases hfinal : d.isFinal = true
  · simp only [hfinal, if_true] at h
    obtain ⟨b₁, h₁, h⟩ := bind_eq_ok_iff.1 h
    cases h
    exact hb.overwrite h₁ hd.start_le hlt
  · simp only [hfinal] at h
    obtain ⟨indent, -, h⟩ := bind_eq_ok_iff.1 h
    obtain ⟨b₁, h₁, h⟩ := bind_eq_ok_iff.1 h
    have hb₁ : b₁.Tidy s := hb.overwrite h₁ hd.start_le hlt
    cases hstop : lastStop? m with
    | none =>
      simp only [hstop] at h
      cases h
      exact hb₁
    | some stop =>
      simp only [hstop] at h
      obtain ⟨b₂, h₂, h⟩ := bind_eq_ok_iff.1 h
      cases h
      obtain ⟨item, hitem, rfl⟩ := mem_of_lastStop? hstop
      have hinside := hitems item hitem
      exact hb₁.insertLeft h₂ (Nat.lt_of_le_of_lt hinside.start_le hinside.start_lt)
        hinside.stop_le

theorem linkExports_tidy {m : Module} {kind : DefaultExport} {config : Config} (hb : b.Tidy s)
    (hitems : ∀ item ∈ m.items, ItemInside s (itemSpan item))
    (h : linkExports m b = .ok (kind, config, b')) : b'.Tidy s := by
  obtain ⟨⟨found, b₁⟩, h₁, h⟩ := bind_eq_ok_iff.1 h
  have hnone : ∀ d ∈ (none : Option DefaultItem), ItemInside s d.span := fun d hd => nomatch hd
  obtain ⟨hb₁, hfound⟩ := linkItems_tidy m.items hb hitems hnone h₁
  cases found with
  | none =>
    cases h
    exact hb₁
  | some d =>
    obtain ⟨config', -, h⟩ := bind_eq_ok_iff.1 h
    obtain ⟨⟨kind', b₂⟩, h₂, h⟩ := bind_eq_ok_iff.1 h
    cases h
    exact linkDefault_tidy hb₁ hitems (hfound d rfl) (ofEdit_eq_ok h₂)

/-! ## Scripts -/

/-- The edits of a linked script stay in its span. -/
theorem linkScript_tidy {block : ScriptBlock} {script : ComponentScript} {source : Text}
    (hm : ModulePlaced source 0 block.content) (hspan : Placed source 0 block.span)
    (hbounds : ∀ item ∈ block.content.items,
      block.span.start ≤ (itemSpan item).start ∧ (itemSpan item).stop ≤ block.span.stop)
    (h : linkScript block (.ofText source) = .ok (script, b')) :
    b'.Tidy block.span ∧ script.body = block.span := by
  obtain ⟨body, hbody⟩ := hspan
  obtain ⟨⟨records, b₁⟩, h₁, h⟩ := bind_eq_ok_iff.1 h
  obtain ⟨⟨kind, config, b₂⟩, h₂, h⟩ := bind_eq_ok_iff.1 h
  cases h
  have hb₁ : b₁.Tidy block.span :=
    removeImportsFrom_tidy block.content.items (EditBuffer.tidy_ofText source block.span) hm.items
      hm.ordered hbody.isBoundary_start hbody.isBoundary_stop hbounds (Nat.le_refl _)
      (ofEdit_eq_ok h₁)
  have hitems : ∀ item ∈ block.content.items, ItemInside block.span (itemSpan item) := by
    intro item hitem
    obtain ⟨body', hbody', htrim⟩ := (hm.items item hitem).span
    exact ⟨(hbounds item hitem).1, hbody'.start_lt_stop htrim.ne_nil, (hbounds item hitem).2⟩
  exact ⟨linkExports_tidy hb₁ hitems h₂, rfl⟩

end TemplateCompiler
