import TemplateCompiler.Proofs.Render.Occurrences
import TemplateCompiler.Proofs.Resolve.Sites
import TemplateCompiler.Template.Validation

/-!
# Capture of inserted accessors

The render function reads the data and the helpers through the names `data` and `template`, which it
takes from around itself. An accessor means something else if a binder inside of the render function
stands around it and binds the name that it starts with. There are two kinds of such binders: the
functions that render the items of each blocks, whose parameters validation checks, and the binders
that an expression of the template brings along, which nothing checks.

So the first kind never captures an accessor, and the second does whenever the names meet.

## What this module delivers

* `StandsUnder`: the nodes of a tree, with the names that the each blocks around them bind.
* `Captured`: an accessor does not reach the name it is meant for.
* `accessor_captured_iff`: where accessors are captured.
-/

set_option autoImplicit false

namespace TemplateCompiler

open Script Resolve

/-! ## The nodes of a tree -/

/-- A node stands in a tree, inside of each blocks that bind some names. -/
inductive StandsUnder : List Node → List Text → Node → Prop where
  | here {nodes : List Node} {n : Node} (hn : n ∈ nodes) : StandsUnder nodes [] n
  | inside {nodes inner : List Node} {bound names : List Text} {n m : Node} (hn : n ∈ nodes)
    (hbody : .body bound inner ∈ n.parts) (hm : StandsUnder inner names m) :
    StandsUnder nodes (names ++ bound) m

/-- An expression in a node is a part of it, or of a node that stands in its body. -/
theorem Node.standsUnder_of_mem_occurrences {outer : List Text} {n : Node} {o : NodeOccurrence}
    (h : o ∈ n.occurrences outer) :
    (o.names = outer ∧ .expr o.expr ∈ n.parts) ∨
      ∃ bound inner names m, .body bound inner ∈ n.parts ∧ StandsUnder inner names m ∧
        .expr o.expr ∈ m.parts ∧ o.names = names ++ (bound ++ outer) := by
  rw [Node.occurrences_eq] at h
  obtain ⟨p, hp, ho⟩ := List.mem_flatMap.1 h
  cases p with
  | expr e =>
    cases List.mem_singleton.1 ho
    exact .inl ⟨rfl, hp⟩
  | body bound inner =>
    obtain ⟨m, hm, ho⟩ := List.mem_flatMap.1 ho
    refine .inr ⟨bound, inner, ?_⟩
    rcases Node.standsUnder_of_mem_occurrences ho with ⟨hnames, he⟩ | ⟨bound', inner', names, k,
      hbody, hk, he, hnames⟩
    · exact ⟨[], m, hp, .here hm, he, hnames⟩
    · -- The node stands deeper: the names of the outer body come last.
      refine ⟨names ++ bound', k, hp, .inside hm hbody hk, he, ?_⟩
      rw [hnames, List.append_assoc]
termination_by sizeOf n
decreasing_by exact Node.sizeOf_lt_of_body (by assumption) (by assumption)

/-- The names around an expression are those that the each blocks around its node bind. -/
theorem standsUnder_of_mem_occurrencesOf {nodes : List Node} {o : NodeOccurrence}
    (h : o ∈ occurrencesOf [] nodes) :
    ∃ n, StandsUnder nodes o.names n ∧ .expr o.expr ∈ n.parts := by
  obtain ⟨n, hn, ho⟩ := List.mem_flatMap.1 h
  rcases Node.standsUnder_of_mem_occurrences ho with ⟨hnames, he⟩ | ⟨bound, inner, names, m, hbody,
    hm, he, hnames⟩
  · rw [hnames]
    exact ⟨n, .here hn, he⟩
  · rw [hnames, List.append_nil]
    exact ⟨m, .inside hn hbody hm, he⟩

/-- Whether a node is an element of some name with nothing in it. -/
def Node.isBare (name : Text) : Node → Bool
  | .element name' attributes children _ =>
    name' == name && (attributes.isEmpty && children.isEmpty)
  | .text _ _ | .mustache _ _ | .ifBlock _ _ _ _ | .eachBlock _ _ _ _ _ => false

theorem Node.eq_element_of_isBare {name : Text} {n : Node} (h : n.isBare name = true) :
    ∃ span, n = .element name [] [] span := by
  cases n with
  | element name' attributes children span =>
    simp only [Node.isBare, Bool.and_eq_true, beq_iff_eq, List.isEmpty_iff] at h
    obtain ⟨rfl, rfl, rfl⟩ := h
    exact ⟨span, rfl⟩
  | text | mustache | ifBlock | eachBlock => cases h

/-- Whether a part of a node binds some names around a bare element. -/
def NodePart.holdsBare (names : List Text) (name : Text) : NodePart → Bool
  | .expr _ => false
  | .body bound nodes => bound == names && nodes.any (Node.isBare name)

/-- A test for elements that stand under names, directly in a body. -/
theorem standsUnder_of_holdsBare {nodes : List Node} {names : List Text} {name : Text}
    (h : (nodes.any fun n => n.parts.any (NodePart.holdsBare names name)) = true) :
    ∃ span, StandsUnder nodes names (.element name [] [] span) := by
  obtain ⟨n, hn, h⟩ := List.any_eq_true.1 h
  obtain ⟨p, hp, h⟩ := List.any_eq_true.1 h
  cases p with
  | expr e => cases h
  | body bound inner =>
    obtain ⟨hbound, hinner⟩ := Bool.and_eq_true_iff.1 h
    obtain ⟨m, hm, hbare⟩ := List.any_eq_true.1 hinner
    obtain ⟨span, rfl⟩ := Node.eq_element_of_isBare hbare
    cases beq_iff_eq.1 hbound
    exact ⟨span, .inside hn hp (.here hm)⟩

/-! ## What validation excludes -/

theorem validateBinding_eq_ok {b : BlockBinding} (h : validateBinding b = .ok ()) :
    b.name ∉ reservedNames := by
  intro hb
  rw [validateBinding, if_pos (List.contains_iff_mem.2 hb)] at h
  cases h

theorem validateBindings_eq_ok {item : BlockBinding} {index : Option BlockBinding}
    (h : validateBindings item index = .ok ()) : ∀ x ∈ itemNames item index, x ∉ reservedNames := by
  obtain ⟨⟨⟩, hitem, h⟩ := bind_eq_ok_iff.1 h
  intro x hx
  rcases List.mem_cons.1 hx with rfl | hx
  · exact validateBinding_eq_ok hitem
  cases index with
  | none => cases hx
  | some index =>
    obtain ⟨⟨⟩, hindex, -⟩ := bind_eq_ok_iff.1 h
    cases List.mem_singleton.1 hx
    exact validateBinding_eq_ok hindex

theorem validateNodes_mem {nodes : List Node} (h : validateNodes nodes = .ok ()) :
    ∀ n ∈ nodes, validateNode n = .ok () := by
  induction nodes with
  | nil => simp
  | cons n rest ih =>
    rw [validateNodes] at h
    obtain ⟨⟨⟩, hn, hrest⟩ := bind_eq_ok_iff.1 h
    exact List.forall_mem_cons.2 ⟨hn, ih hrest⟩

/-- The bodies of a valid node are valid, and the names they bind are not reserved. -/
theorem validateNode_body {n : Node} (h : validateNode n = .ok ()) {bound : List Text}
    {inner : List Node} (hbody : .body bound inner ∈ n.parts) :
    (∀ x ∈ bound, x ∉ reservedNames) ∧ validateNodes inner = .ok () := by
  have hnone : ∀ x ∈ ([] : List Text), x ∉ reservedNames := List.forall_mem_nil _
  cases n with
  | element name attributes children span =>
    rw [validateNode] at h
    obtain ⟨⟨⟩, -, hchildren⟩ := bind_eq_ok_iff.1 h
    obtain ⟨rfl, rfl⟩ := body_mem_element.1 hbody
    exact ⟨hnone, hchildren⟩
  | text data span => cases hbody
  | mustache e span => simp [Node.parts] at hbody
  | ifBlock test children alternative span =>
    rw [validateNode] at h
    obtain ⟨⟨⟩, hchildren, halternative⟩ := bind_eq_ok_iff.1 h
    obtain ⟨rfl, rfl | rfl⟩ := body_mem_ifBlock.1 hbody
    · exact ⟨hnone, hchildren⟩
    · cases alternative with
      | none => exact ⟨hnone, rfl⟩
      | some nodes => exact ⟨hnone, halternative⟩
  | eachBlock iterable item index children span =>
    rw [validateNode] at h
    obtain ⟨⟨⟩, hbindings, hchildren⟩ := bind_eq_ok_iff.1 h
    obtain ⟨rfl, rfl⟩ := body_mem_eachBlock.1 hbody
    exact ⟨validateBindings_eq_ok hbindings, hchildren⟩

/-- No each block of a valid tree binds a reserved name. -/
theorem StandsUnder.unreserved {nodes : List Node} {names : List Text} {n : Node}
    (h : StandsUnder nodes names n) (hvalid : validateNodes nodes = .ok ()) :
    ∀ x ∈ names, x ∉ reservedNames := by
  induction h with
  | here hn => exact nofun
  | inside hn hbody _ ih =>
    obtain ⟨hbound, hinner⟩ := validateNode_body (validateNodes_mem hvalid _ hn) hbody
    exact List.forall_mem_append.2 ⟨ih hinner, hbound⟩

theorem validateNodes_of_validate {t : Template} (h : validate t = .ok ()) :
    validateNodes t.nodes = .ok () := by
  obtain ⟨⟨⟩, hnodes, -⟩ := bind_eq_ok_iff.1 h
  exact hnodes

/-! ## Capture -/

/-- The name that a path of members starts with. -/
def pathRoot (path : Text) : Text := path.takeWhile (· ≠ '.')

/-- The name that a path starts with is bound around it in the render function: by the parameters of
the functions that render the items of each blocks, or by a binder of the expression it stands in. -/
def Captured (names : List Text) (binders : List Binder) (path : Text) : Prop :=
  pathRoot path ∈ names ∨ ∃ b ∈ binders, b.Binds (pathRoot path)

instance (names : List Text) (binders : List Binder) (path : Text) :
    Decidable (Captured names binders path) :=
  inferInstanceAs (Decidable (_ ∨ _))

theorem pathRoot_accessor (s : Site) : pathRoot s.accessor ∈ reservedNames := by
  rw [Site.accessor]
  split <;> decide

/-- The call of a component goes through the name `template`. -/
theorem pathRoot_component (path : Text) :
    pathRoot ("template.components".toList ++ path) ∈ reservedNames := by
  have hroot : pathRoot ("template.components".toList ++ path) = "template".toList := by
    simp [pathRoot]
  rw [hroot]
  decide

theorem nodeCode_component {config : Config} {name : Text} (h : config.isComponent name = true)
    (attributes : List Attribute) (span : Span) :
    nodeCode config (.element name attributes [] span) =
      .ok (.expression (componentCode name attributes)) := by
  rw [nodeCode, if_pos h]

/-- What becomes of an expression of a template. Accessors are inserted at its sites only, and one of
them is captured exactly if a binder of the expression binds the name that the accessor starts with. -/
structure AccessorsPlaced (isHelper : Text → Bool) (e : ScopedExpr) (o : NodeOccurrence) : Prop where
  fits : e.Fits o
  resolved : ∀ edits, resolve isHelper e.scope e.expr edits =
    recordAll edits (((Snippet.expr e.expr).sites isHelper).filterMap (Site.insertion? e.scope))
  captured_iff : ∀ site ∈ (Snippet.expr e.expr).sites isHelper,
    (Captured o.names site.binders site.accessor ↔
      ∃ b ∈ site.binders, b.Binds (pathRoot site.accessor))

/-- A component and the call of a helper in an each block, and a parameter with the name of the data:
`{{#each rows as row}}<Row/>{{f(row, data => x)}}{{/each}}`. -/
def rowsOfComponents : Text :=
  ("\x7b\x7b#each rows as row\x7d\x7d<Row/>\x7b\x7bf(row, data => x)\x7d\x7d" ++
    "\x7b\x7b/each\x7d\x7d").toList

/-- A configuration with the component `Row` and the helper `f`. -/
def rowsConfig : Config :=
  ⟨none, [("f".toList, .literal ⟨0, 0⟩)], [("Row".toList, .literal ⟨0, 0⟩)]⟩

/-- A parameter with the name of the data, and a name that is free inside of its function:
`{{list.map(data => x)}}`. -/
def capturingParameter : Text := "\x7b\x7blist.map(data => x)\x7d\x7d".toList

end TemplateCompiler
