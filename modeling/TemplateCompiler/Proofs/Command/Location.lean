import TemplateCompiler.Command.Run
import TemplateCompiler.Proofs.Compilation
import TemplateCompiler.Proofs.Template.Pointing
import TemplateCompiler.Proofs.Template.Violations
import TemplateCompiler.Proofs.Text.Lines

/-!
# Where errors are located

The command prints an error with a line and a column, which it counts from the start of the span of
the error. It would fall back to the end of the file if that start were no place to cut the source
at. It never has to: every stage of a compilation reports the span of something that was read, and
all that is read stands in the source.

## What this module delivers

* `CompileError.Misplaced`: an error that does not point into the source.
* `ElementPlaced`: the spans of an element that errors are reported at.
* `validate_pointed`, `linkScript_located`, `renderTemplate_located`: the stages behind the readers.
* `compileWith_error_located`: the place that is printed with an error.
-/

set_option autoImplicit false

namespace TemplateCompiler

open Script Text

variable {g : Grammar} {source : Text}

/-! ## Elements -/

theorem PointsInto.trans {a b c : Nat} (h : PointsInto source ⟨a, b⟩)
    (h' : PointsInto source ⟨b, c⟩) : PointsInto source ⟨a, c⟩ :=
  ⟨Nat.le_trans h.ordered h'.ordered, h'.inside, h.boundary⟩

theorem PointsInto.widen {a b c d : Nat} (h : PointsInto source ⟨a, b⟩) (hle : b ≤ c)
    (h' : PointsInto source ⟨c, d⟩) : PointsInto source ⟨a, d⟩ := by
  have hab : a ≤ b := h.ordered
  have hcd : c ≤ d := h'.ordered
  refine ⟨?_, h'.inside, h.boundary⟩
  show a ≤ d
  omega

theorem ValueLaid.pointsInto {span : Span} {parts : List AttributePart}
    (h : ValueLaid g source span parts) : PointsInto source span := by
  cases h with
  | quoted _ hraw _ _ => exact .of_standsAt hraw
  | bare hraw _ _ _ => exact .of_standsAt hraw

theorem AttributeLaid.pointsInto {a : Attribute} (h : AttributeLaid g source a) :
    PointsInto source a.span := by
  cases h with
  | switch _ h => exact .of_standsAt h
  | valued _ _ h hvalue => exact (PointsInto.of_standsAt h).trans hvalue.pointsInto

theorem AttributesLaid.pointsInto {lo hi : Nat} {attrs : List Attribute}
    (h : AttributesLaid g source lo hi attrs) :
    lo ≤ hi ∧ ∀ a ∈ attrs, PointsInto source a.span := by
  induction h with
  | nil _ h => exact ⟨h.start_le_stop, fun a ha => nomatch ha⟩
  | @cons lo hi blanks a more _ h ha _ ih =>
    have hspan := ha.pointsInto
    refine ⟨?_, ?_⟩
    · have hblanks : lo ≤ a.span.start := h.start_le_stop
      exact Nat.le_trans hblanks (Nat.le_trans hspan.ordered ih.1)
    · intro b hb
      rcases List.mem_cons.1 hb with rfl | hb
      · exact hspan
      · exact ih.2 b hb

theorem TagLaid.pointsInto {span : Span} {name : Text} {attrs : List Attribute}
    {selfClosing : Bool} (h : TagLaid g source span name attrs selfClosing) :
    PointsInto source span ∧ ∀ a ∈ attrs, PointsInto source a.span := by
  obtain ⟨lo, hi, hname, hattrs, hend⟩ := h.laid
  obtain ⟨hle, hspans⟩ := hattrs.pointsInto
  exact ⟨(PointsInto.of_standsAt hname).widen hle (.of_standsAt hend), hspans⟩

/-- The span of an element and those of its attributes point into the source. -/
def ElementPlaced (source : Text) : Node → Prop
  | .element _ attrs _ span => PointsInto source span ∧ ∀ a ∈ attrs, PointsInto source a.span
  | .text _ _ | .mustache _ _ | .ifBlock _ _ _ _ | .eachBlock _ _ _ _ _ => True

theorem Tiles.le {lo hi : Nat} {spans : List Span} (h : Tiles lo hi spans) : lo ≤ hi := by
  induction spans generalizing lo with
  | nil => exact Nat.le_of_eq h
  | cons s spans ih =>
    obtain ⟨-, hlt, hrest⟩ := h
    have hle := ih hrest
    omega

theorem mem_preorderOf {nodes : List Node} {m : Node} (h : m ∈ preorderOf nodes) :
    ∃ n ∈ nodes, m ∈ n.preorder := by
  rw [preorderOf_eq_flatMap] at h
  exact List.mem_flatMap.1 h

mutual

/-- The elements of a node that is laid out in a source are placed there. -/
theorem NodeLaid.elements {n : Node} : NodeLaid g source n →
    ∀ m ∈ n.preorder, ElementPlaced source m
  | .text _, m, hm | .mustache _, m, hm => by
    rw [Node.preorder] at hm
    rw [List.mem_singleton.1 hm]
    trivial
  | .single _ htag, m, hm => by
    rw [Node.preorder, preorderOf] at hm
    rw [List.mem_singleton.1 hm]
    exact htag.pointsInto
  | .element _ htag htiles hchildren _ hclose, m, hm => by
    rw [Node.preorder] at hm
    rcases List.mem_cons.1 hm with rfl | hm
    · obtain ⟨hspan, hattrs⟩ := htag.pointsInto
      exact ⟨hspan.widen htiles.le (.of_standsAt hclose), hattrs⟩
    · obtain ⟨n, hn, hm⟩ := mem_preorderOf hm
      exact (hchildren n hn).elements m hm
  | .ifBlock _ hbody, m, hm => hbody.elements m hm
  | .eachBlock _ _ hchildren _, m, hm => by
    rw [Node.preorder] at hm
    rcases List.mem_cons.1 hm with rfl | hm
    · trivial
    · obtain ⟨n, hn, hm⟩ := mem_preorderOf hm
      exact (hchildren n hn).elements m hm

theorem IfLaid.elements {lo : Nat} {n : Node} : IfLaid g source lo n →
    ∀ m ∈ n.preorder, ElementPlaced source m
  | .plain _ hchildren _, m, hm => by
    rw [Node.preorder, alternativePreorder, List.append_nil] at hm
    rcases List.mem_cons.1 hm with rfl | hm
    · trivial
    · obtain ⟨n, hn, hm⟩ := mem_preorderOf hm
      exact (hchildren n hn).elements m hm
  | .alternative _ hchildren _ _ hother _, m, hm => by
    rw [Node.preorder, alternativePreorder] at hm
    rcases List.mem_cons.1 hm with rfl | hm
    · trivial
    rcases List.mem_append.1 hm with hm | hm
    · obtain ⟨n, hn, hm⟩ := mem_preorderOf hm
      exact (hchildren n hn).elements m hm
    · obtain ⟨n, hn, hm⟩ := mem_preorderOf hm
      exact (hother n hn).elements m hm
  | .further _ hchildren _ hbody, m, hm => by
    rw [Node.preorder, alternativePreorder] at hm
    rcases List.mem_cons.1 hm with rfl | hm
    · trivial
    rcases List.mem_append.1 hm with hm | hm
    · obtain ⟨n, hn, hm⟩ := mem_preorderOf hm
      exact (hchildren n hn).elements m hm
    · rw [preorderOf, preorderOf, List.append_nil] at hm
      exact hbody.elements m hm

end

/-- The elements of a template that is read are placed in its source, and so is its style. -/
theorem readTemplate_elements {t : Template} (h : readTemplate g source = .ok t) :
    (∀ m ∈ preorderOf t.nodes, ElementPlaced source m) ∧
      ∀ span, t.style = some span → PointsInto source span := by
  obtain ⟨r, hr, -, rfl⟩ := readTemplate_reads h
  obtain ⟨tiles, htiles⟩ := hr.laid (Cursor.at_start source)
  refine ⟨?_, ?_⟩
  · intro m hm
    obtain ⟨n, hn, hm⟩ := mem_preorderOf hm
    rw [htiles.nodes] at hn
    obtain ⟨tile, htile, hn⟩ := List.mem_flatMap.1 hn
    cases htiles.laid tile htile with
    | node hlaid =>
      rw [List.mem_singleton.1 hn] at hm
      exact hlaid.elements m hm
    | raw | rawSingle => cases hn
  · intro span hspan
    have hmem : span ∈ r.found.style.toList := Option.mem_toList.2 hspan
    rw [htiles.styles] at hmem
    obtain ⟨tile, htile, hcontent⟩ := List.mem_flatMap.1 hmem
    cases htiles.laid tile htile with
    | node => cases hcontent
    | raw _ _ hstands =>
      rw [Tile.contents] at hcontent
      split at hcontent
      · rw [List.mem_singleton.1 hcontent]
        exact .of_standsAt hstands
      · cases hcontent
    | @rawSingle _ _ extent _ htag =>
      -- A style that closes itself is empty, and stands behind its tag.
      rw [Tile.contents] at hcontent
      split at hcontent
      · rw [List.mem_singleton.1 hcontent]
        obtain ⟨lo, hi, -, -, hend⟩ := htag.laid
        exact ⟨Nat.le_refl _, (PointsInto.of_standsAt hend).inside, hend.isBoundary_stop⟩
      · cases hcontent

/-! ## Validation -/

/-- A binding of an each block, at any depth, stands in the source. -/
theorem readTemplate_bindings {t : Template} (h : readTemplate g source = .ok t) :
    ∀ m ∈ preorderOf t.nodes, NodeRules source m := by
  obtain ⟨r, hr, -, rfl⟩ := readTemplate_reads h
  have hrules := hr.rules (Cursor.at_start source)
  intro m hm
  rcases mem_preorderOf_iff.1 hm with hm | ⟨inner, hinner, hm⟩
  · exact hrules.each m hm
  · exact (hrules.inner inner hinner).each m hm

/-- A broken rule is reported at an attribute or at a binding. -/
theorem Offends.pointsInto {n : Node} {e : TemplateError} (h : Offends n e)
    (hplaced : ElementPlaced source n) (hrules : NodeRules source n) :
    PointsInto source e.span := by
  cases h with
  | repeated => exact hplaced.2 _ (by simp)
  | item => exact .of_standsAt hrules.1.stands
  | index | duplicate => exact .of_standsAt (hrules.2 _ rfl).stands

/-- What a grammar places in the text of a script points into the source. -/
theorem ScriptRead.pointsInto {block : ScriptBlock} (hg : g.PlacesSpans)
    (h : ScriptRead g source block) :
    ∀ span ∈ reportedSpans block.content, PointsInto source span := by
  obtain ⟨content, ⟨before, after, hsource, hstart, hstop⟩, hm⟩ := h
  intro span hspan
  have hwithin : Cursor.Within source ⟨block.span.start, content⟩ :=
    ⟨before, after, hsource, by rw [hstart, Nat.zero_add]⟩
  exact .of_placed hwithin (hg.module _ _ _ hm span hspan)

theorem SecondDefault.mem_reportedSpans {m : Module} {span : Span}
    (h : SecondDefault m.items span) : span ∈ reportedSpans m := by
  obtain ⟨before, first, between, second, after, firstSpan, hitems, -, hsecond, -⟩ := h
  have hmem : second ∈ m.items := by simp [hitems]
  have hspan := itemSpan_mem_reportedSpans hmem
  cases hsecond with
  | value | declaration => exact hspan

theorem validate_pointed {t : Template} (h : readTemplate g source = .ok t) :
    Pointed g source (validate t) := by
  cases hvalidate : validate t with
  | ok => exact .ok _
  | error e =>
    rintro (⟨hg, -, hnot⟩ | ⟨-, hstray⟩)
    swap
    · exact (validate_neverStray t).not_error hvalidate hstray
    rcases (validate_reports t e).1 hvalidate with hnodes | ⟨-, script, span, hscript, hspan, rfl⟩
    · obtain ⟨before, n, after, hpreorder, -, hn⟩ := hnodes
      have hmem : n ∈ preorderOf t.nodes := by simp [hpreorder]
      exact hnot
        (hn.pointsInto ((readTemplate_elements h).1 n hmem) (readTemplate_bindings h n hmem))
    · have hread := (readTemplate_exprs h Scope.root).2 script hscript
      exact hnot (hread.pointsInto hg span hspan.mem_reportedSpans)

/-! ## Errors of a compilation -/

/-- An error that comes from the grammar of scripts: a text that does not follow it. -/
def CompileError.IsSyntax : CompileError → Prop
  | .template e => e.fault = .malformedScript
  | .script _ | .render _ | .edit _ => False

/-- An error that does not point into the source, and is not one of the grammar of scripts. -/
def CompileError.Misplaced (source : Text) (err : CompileError) : Prop :=
  ¬ err.IsSyntax ∧ ∃ span, err.span? = some span ∧ ¬ PointsInto source span

section Stages

variable {α : Type}

theorem Pointed.located {x : Except TemplateError α} (hg : g.PlacesSpans)
    (hx : Pointed g source x) :
    Settles (CompileError.Misplaced source) (fun a => x = .ok a) (ofTemplate x) := by
  cases x with
  | ok a => exact Settles.of_ok rfl rfl
  | error e =>
    rintro ⟨hread, span, hspan, hnot⟩
    cases hspan
    exact hx (.inl ⟨hg, hread, hnot⟩)

theorem located_ofScript {x : Except ScriptError α}
    (hx : ∀ e, x = .error e → PointsInto source e.span) :
    Settles (CompileError.Misplaced source) (fun a => x = .ok a) (ofScript x) := by
  cases x with
  | ok a => exact Settles.of_ok rfl rfl
  | error e =>
    rintro ⟨-, span, hspan, hnot⟩
    cases hspan
    exact hnot (hx e rfl)

theorem located_ofRender {x : Except RenderError α}
    (hx : ∀ e, x = .error e → PointsInto source e.span) :
    Settles (CompileError.Misplaced source) (fun a => x = .ok a) (ofRender x) := by
  cases x with
  | ok a => exact Settles.of_ok rfl rfl
  | error e =>
    rintro ⟨-, span, hspan, hnot⟩
    cases hspan
    exact hnot (hx e rfl)

/-- A refused edit has no span. -/
theorem located_ofEdit (x : Except EditFault α) :
    Settles (CompileError.Misplaced source) (fun _ => True) (ofEdit x) := by
  cases x with
  | ok a => exact Settles.of_ok rfl trivial
  | error e =>
    rintro ⟨-, span, hspan, -⟩
    cases hspan

end Stages

/-! ## Scripts -/

/-- An export that is not supported is reported at its item, and the default export that is found is
one of the items. -/
theorem linkItems_located (items : List ModuleItem) (found : Option DefaultItem) (b : EditBuffer)
    (hitems : ∀ item ∈ items, PointsInto source (itemSpan item)) :
    Settles (CompileError.Misplaced source)
      (fun r => ∀ d ∈ r.1, d ∈ found ∨ .exportDefault d.span d.value ∈ items)
      (linkItems found items b) := by
  induction items generalizing found b with
  | nil => exact fun d hd => .inl hd
  | cons item items ih =>
    have hrest : ∀ item ∈ items, PointsInto source (itemSpan item) :=
      fun item hitem => hitems item (List.mem_cons_of_mem _ hitem)
    have hitem := hitems item List.mem_cons_self
    have hrefused : ∀ fault, ¬ CompileError.Misplaced source (.script ⟨fault, itemSpan item⟩) := by
      rintro fault ⟨-, span, hspan, hnot⟩
      cases hspan
      exact hnot hitem
    have hmore : ∀ b', Settles (CompileError.Misplaced source)
        (fun r => ∀ d ∈ r.1, d ∈ found ∨ .exportDefault d.span d.value ∈ item :: items)
        (linkItems found items b') := by
      intro b'
      refine (ih found b' hrest).mono fun r hr d hd => ?_
      exact (hr d hd).imp_right (List.mem_cons_of_mem _)
    unfold linkItems
    cases item with
    | exportDefault span value =>
      dsimp only
      split
      · exact hrefused _
      · refine (ih _ b hrest).mono fun r hr d hd => ?_
        rcases hr d hd with hd | hd
        · cases hd
          exact .inr List.mem_cons_self
        · exact .inr (List.mem_cons_of_mem _ hd)
    | exportDefaultDecl | exportAll => exact hrefused _
    | exportDecl | exportNames => exact (located_ofEdit _).bind fun b' _ => hmore b'
    | imports | statement => exact hmore b

/-- Exports are refused at an item or at a part of the default export. -/
theorem linkExports_located {m : Module} (b : EditBuffer)
    (hspans : ∀ span ∈ reportedSpans m, PointsInto source span) :
    Settles (CompileError.Misplaced source) (fun _ => True) (linkExports m b) := by
  have hitems : ∀ item ∈ m.items, PointsInto source (itemSpan item) :=
    fun item hitem => hspans _ (itemSpan_mem_reportedSpans hitem)
  refine (linkItems_located m.items none b hitems).bind ?_
  rintro ⟨found, edits⟩ hfound
  cases found with
  | none => trivial
  | some d =>
    have hvalue : .exportDefault d.span d.value ∈ m.items := (hfound d rfl).resolve_left nofun
    refine (located_ofScript fun e he => ?_).bind fun config _ => ?_
    · have hrefused := (extractConfig_reports d.value e).1 he
      exact hspans _ (literalSpans_subset_reportedSpans hvalue hrefused.mem_literalSpans)
    · exact (located_ofEdit _).bind fun _ _ => trivial

theorem linkScript_located {block : ScriptBlock} (b : EditBuffer)
    (hspans : ∀ span ∈ reportedSpans block.content, PointsInto source span) :
    Settles (CompileError.Misplaced source) (fun _ => True) (linkScript block b) := by
  refine (located_ofEdit _).bind fun r _ => ?_
  exact (linkExports_located r.2 hspans).bind fun _ _ => trivial

theorem linkTemplateScript_located {t : Template} (hg : g.PlacesSpans) (b : EditBuffer)
    (h : readTemplate g source = .ok t) :
    Settles (CompileError.Misplaced source) (fun _ => True) (linkTemplateScript t b) := by
  unfold linkTemplateScript
  cases hscript : t.script with
  | none => trivial
  | some block =>
    have hread := (readTemplate_exprs h Scope.root).2 block hscript
    exact (linkScript_located b (hread.pointsInto hg)).bind fun _ _ => trivial

/-! ## Rendering -/

/-- A span of an element among some nodes or in them. -/
def IsElementSpan (nodes : List Node) (span : Span) : Prop :=
  ∃ name attrs children, .element name attrs children span ∈ nodes

theorem IsElementSpan.mono {nodes nodes' : List Node} {span : Span} (h : IsElementSpan nodes span)
    (hsub : ∀ n ∈ nodes, n ∈ nodes') : IsElementSpan nodes' span := by
  obtain ⟨name, attrs, children, hn⟩ := h
  exact ⟨name, attrs, children, hsub _ hn⟩

mutual

/-- What cannot be rendered is an element of the tree. -/
theorem nodeCode_eq_error {config : Config} {e : RenderError} :
    (n : Node) → nodeCode config n = .error e → IsElementSpan n.preorder e.span
  | .element name attrs children span, h => by
    unfold nodeCode at h
    rw [Node.preorder]
    split at h
    · split at h
      · cases h
      · cases h
        exact ⟨_, _, _, List.mem_cons_self⟩
    · split at h
      · cases h
      · split at h
        · cases h
        · rename_i child more
          rw [preorderOf]
          rcases bind_eq_error_iff.1 h with h | ⟨first, -, h⟩
          · exact (nodeCode_eq_error child h).mono (by simp +contextual)
          rcases bind_eq_error_iff.1 h with h | ⟨rest, -, h⟩
          · exact (nodesCode_eq_error more h).mono (by simp +contextual)
          · cases h
  | .text _ _, h | .mustache _ _, h => by
    rw [nodeCode] at h
    cases h
  | .ifBlock _ children alternative _, h => by
    rw [nodeCode] at h
    rw [Node.preorder]
    rcases bind_eq_error_iff.1 h with h | ⟨yes, -, h⟩
    · exact (nodesCode_eq_error children h).mono (by simp +contextual)
    rcases bind_eq_error_iff.1 h with h | ⟨no, -, h⟩
    · exact (alternativeCode_eq_error alternative h).mono (by simp +contextual)
    · cases h
  | .eachBlock _ _ _ children _, h => by
    rw [nodeCode] at h
    rw [Node.preorder]
    rcases bind_eq_error_iff.1 h with h | ⟨body, -, h⟩
    · exact (nodesCode_eq_error children h).mono (by simp +contextual)
    · cases h

theorem nodesCode_eq_error {config : Config} {e : RenderError} :
    (nodes : List Node) → nodesCode config nodes = .error e →
    IsElementSpan (preorderOf nodes) e.span
  | [], h => by
    rw [nodesCode] at h
    cases h
  | n :: rest, h => by
    rw [nodesCode] at h
    rw [preorderOf]
    rcases bind_eq_error_iff.1 h with h | ⟨code, -, h⟩
    · exact (nodeCode_eq_error n h).mono (by simp +contextual)
    rcases bind_eq_error_iff.1 h with h | ⟨more, -, h⟩
    · exact (nodesCode_eq_error rest h).mono (by simp +contextual)
    · cases h

theorem alternativeCode_eq_error {config : Config} {e : RenderError} :
    (alternative : Option (List Node)) → alternativeCode config alternative = .error e →
      IsElementSpan (alternativePreorder alternative) e.span
  | none, h => by
    rw [alternativeCode] at h
    cases h
  | some nodes, h => by
    rw [alternativeCode] at h
    rw [alternativePreorder]
    exact nodesCode_eq_error nodes h

end

theorem renderBlocks_eq_error {config : Config} {nodes : List Node} {e : RenderError}
    (h : renderBlocks config nodes = .error e) : IsElementSpan (preorderOf nodes) e.span := by
  unfold renderBlocks at h
  induction nodes with
  | nil => cases h
  | cons n rest ih =>
    rw [List.mapM_cons] at h
    rw [preorderOf]
    rcases bind_eq_error_iff.1 h with h | ⟨block, -, h⟩
    · rcases bind_eq_error_iff.1 h with h | ⟨code, -, h⟩
      · exact (nodeCode_eq_error n h).mono (by simp +contextual)
      · cases h
    rcases bind_eq_error_iff.1 h with h | ⟨blocks, -, h⟩
    · exact (ih h).mono (by simp +contextual)
    · cases h

theorem renderTemplate_located {t : Template} (hg : g.PlacesSpans)
    (h : readTemplate g source = .ok t) :
    Settles (CompileError.Misplaced source) (fun _ => True) (renderTemplate t source) := by
  refine (linkTemplateScript_located hg _ h).bind fun r _ => ?_
  refine (located_ofRender fun e he => ?_).bind fun blocks _ => ?_
  · obtain ⟨name, attrs, children, hmem⟩ := renderBlocks_eq_error he
    exact ((readTemplate_elements h).1 _ hmem).1
  · exact (located_ofEdit _).bind fun _ _ => trivial

/-! ## Compilations -/

/-- No error of a compilation is misplaced. -/
theorem compileWith_located (hg : g.PlacesSpans) (source : Text) :
    Settles (CompileError.Misplaced source) (fun _ => True) (compileWith g source) := by
  refine ((readTemplate_pointed g source).located hg).bind fun t ht => ?_
  refine ((validate_pointed ht).located hg).bind fun _ _ => ?_
  refine (located_ofScript fun e he => ?_).bind fun _ _ => ?_
  · unfold rejectStyle at he
    split at he
    · rename_i hstyle
      cases he
      exact (readTemplate_elements ht).2 _ hstyle
    · cases he
  · refine (renderTemplate_located hg ht).bind fun r _ => ?_
    exact located_ofEdit _

/-- At a place of the source, the position that is shown is the one that is counted. -/
theorem shownPosition_eq {before after : Text} :
    shownPosition (before ++ after) (byteLength before) =
      ⟨before.count '\n' + 1, byteLength (before.rtakeWhile (· != '\n')) + 1⟩ := by
  have htake : take? (byteLength before) (before ++ after) = some before :=
    take?_eq_some_iff.2 ⟨after, rfl, rfl⟩
  have hcounted := Position.advance_counted [] before
  have hzero : Position.counted [] = ⟨0, 0⟩ := rfl
  rw [hzero, List.nil_append] at hcounted
  rw [shownPosition, htake, Option.getD_some]
  rw [hcounted, Position.counted]

/-- With a sound grammar no edit is refused, so that every error has a span. -/
theorem compileWith_spanned (hg : g.Sound) {err : CompileError}
    (h : compileWith g source = .error err) : ∃ span, err.span? = some span := by
  have hexternal := (compileWith_settles hg source).not_error h
  cases err with
  | template e | script e | render e => exact ⟨e.span, rfl⟩
  | edit fault => exact absurd trivial hexternal

/-- The place that is printed with an error is real. If a compilation fails, and not because a
script or an expression does not follow its grammar, the span of the error lies in the source,
counted from one, and starts on a character boundary. So the line that is printed is the number of
line feeds before that place, and the column the number of bytes behind the last of them, both
counted from one. Every error has such a span if the trees of the grammar stand in their text. -/
theorem compileWith_error_located (hg : g.PlacesSpans) {err : CompileError}
    (h : compileWith g source = .error err) (hread : ¬ err.IsSyntax) (input : Text) :
    (∀ span, err.span? = some span →
      1 ≤ span.lo ∧ span.lo ≤ span.hi ∧ span.hi ≤ byteLength source + 1 ∧
      isBoundary source (span.lo - 1) = true ∧
      ∃ before after, source = before ++ after ∧ byteLength before = span.lo - 1 ∧
        locatedMessage input source err =
          input ++ ":".toList ++ ofNat (before.count '\n' + 1) ++ ":".toList ++
            ofNat (byteLength (before.rtakeWhile (· != '\n')) + 1) ++ ": ".toList ++ err.message) ∧
      (g.Sound → ∃ span, err.span? = some span) := by
  refine ⟨?_, fun hsound => compileWith_spanned hsound h⟩
  intro span hspan
  have hpoints : PointsInto source span := by
    by_contra hnot
    exact (compileWith_located hg source).not_error h ⟨hread, span, hspan, hnot⟩
  refine ⟨Nat.le_add_left 1 _, Nat.succ_le_succ hpoints.ordered, Nat.succ_le_succ hpoints.inside,
    hpoints.boundary, ?_⟩
  obtain ⟨before, after, rfl, hbefore⟩ := isBoundary_iff.1 hpoints.boundary
  refine ⟨before, after, rfl, hbefore, ?_⟩
  rw [locatedMessage, hspan]
  dsimp only
  rw [← hbefore, shownPosition_eq, positionText]
  simp only [List.append_assoc]

/-- A text with a character of two bytes, and on the third line another one before a property that
is no function. -/
def umlautBefore : Text :=
  "é\n<script>\nexport default \x7b 'ü': 1, data: 1 \x7d</script>".toList

theorem compileWith_error_located_umlautBefore : ∃ err, Grammar.standard.PlacesSpans ∧
    compileWith .standard umlautBefore = .error err ∧ ¬ err.IsSyntax ∧
    err.span? = some ⟨38, 45⟩ ∧ isBoundary umlautBefore 38 = true ∧
    positionText (shownPosition umlautBefore 38) = "3:27".toList ∧
    ∃ before after, umlautBefore = before ++ after ∧ byteLength before = 38 ∧
      locatedMessage "a.html".toList umlautBefore err =
        "a.html".toList ++ ":".toList ++ ofNat (before.count '\n' + 1) ++ ":".toList ++
          ofNat (byteLength (before.rtakeWhile (· != '\n')) + 1) ++ ": ".toList ++ err.message := by
  have hg := Grammar.standard_placesSpans
  have hchars : umlautBefore = _ := Text.HasChars.literal
  have herror : compileWith .standard umlautBefore =
      .error (.script ⟨.invalidProperty "data".toList, ⟨38, 45⟩⟩) := by
    rw [hchars]
    decide +kernel
  obtain ⟨hlocated, -⟩ := compileWith_error_located hg herror id "a.html".toList
  obtain ⟨-, -, -, hboundary, hmessage⟩ := hlocated ⟨38, 45⟩ rfl
  exact ⟨_, hg, herror, id, rfl, hboundary, by decide +kernel, hmessage⟩

end TemplateCompiler
