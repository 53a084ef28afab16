import Mathlib.Data.List.Induction
import Mathlib.Data.List.Nodup
import TemplateCompiler.Proofs.FirstFault
import TemplateCompiler.Proofs.Template.Invariants
import TemplateCompiler.Template.Validation

/-!
# What validation reports

Validation goes over a tree in document order and stops at the first rule that is broken. Its
outcome is said here without the order in which it works: a template is valid exactly if each node
of it, at any depth, keeps its own rules and the script has one default export at most. A template
that is not valid gets the error of the first node that breaks a rule, and only if no node does the
one of the second default export.

## What this module delivers

* `Lawful`, `Offends`: the rules for one node, and the error of the first one that it breaks.
* `preorder`: the nodes of a tree in document order.
* `SecondDefault`, `OneDefault`: the default exports of a script.
* `validate_outcome`: what validation answers for every template.
-/

set_option autoImplicit false

namespace TemplateCompiler

open Script

/-! ## Rules -/

/-- A name that the generated code relies on. -/
def IsReserved (name : Text) : Prop :=
  name = "data".toList ∨ name = "template".toList ∨ name = "rendered".toList

/-- The rules for one node, without those for the nodes in it. -/
def Lawful : Node → Prop
  | .element _ attrs _ _ => (attrs.map Attribute.name).Nodup
  | .eachBlock _ item index _ _ =>
    ¬ IsReserved item.name ∧ ∀ b ∈ index, ¬ IsReserved b.name ∧ b.name ≠ item.name
  | .text _ _ | .mustache _ _ | .ifBlock _ _ _ _ => True

/-- The error of the first rule that a node breaks. -/
inductive Offends : Node → TemplateError → Prop where
  /-- An attribute has the name of one before it, and those before it have different names. -/
  | repeated {name : Text} {before after : List Attribute} {a : Attribute} {children : List Node}
    {span : Span} (hbefore : (before.map Attribute.name).Nodup)
    (ha : a.name ∈ before.map Attribute.name) :
    Offends (.element name (before ++ a :: after) children span)
      ⟨.duplicateAttribute a.name, a.span⟩
  | item {iterable : Expr} {item : BlockBinding} {index : Option BlockBinding}
    {children : List Node} {span : Span} (hitem : IsReserved item.name) :
    Offends (.eachBlock iterable item index children span) ⟨.reservedName item.name, item.span⟩
  | index {iterable : Expr} {item index : BlockBinding} {children : List Node} {span : Span}
    (hitem : ¬ IsReserved item.name) (hindex : IsReserved index.name) :
    Offends (.eachBlock iterable item (some index) children span)
      ⟨.reservedName index.name, index.span⟩
  | duplicate {iterable : Expr} {item index : BlockBinding} {children : List Node} {span : Span}
    (hitem : ¬ IsReserved item.name) (hindex : ¬ IsReserved index.name)
    (heq : index.name = item.name) :
    Offends (.eachBlock iterable item (some index) children span)
      ⟨.duplicateBinding index.name, index.span⟩

mutual

/-- A node and the nodes in it in document order: the condition of a block before its alternative.
-/
def Node.preorder : Node → List Node
  | .element name attrs children span => .element name attrs children span :: preorderOf children
  | .text data span => [.text data span]
  | .mustache e span => [.mustache e span]
  | .ifBlock test children alternative span =>
    .ifBlock test children alternative span ::
      (preorderOf children ++ alternativePreorder alternative)
  | .eachBlock iterable item index children span =>
    .eachBlock iterable item index children span :: preorderOf children

/-- Some nodes and the nodes in them in document order. -/
def preorderOf : List Node → List Node
  | [] => []
  | n :: rest => n.preorder ++ preorderOf rest

/-- The nodes of an alternative in document order. -/
def alternativePreorder : Option (List Node) → List Node
  | none => []
  | some nodes => preorderOf nodes

end

/-- An item is a default export of either form, with a span. -/
inductive ExportsDefault : ModuleItem → Span → Prop where
  | value {span : Span} {value : Expr} : ExportsDefault (.exportDefault span value) span
  | declaration {span : Span} : ExportsDefault (.exportDefaultDecl span) span

/-- Of any two items one is no default export. -/
def OneDefault (items : List ModuleItem) : Prop :=
  items.Pairwise fun a b => ∀ span, ExportsDefault a span → ∀ span', ¬ ExportsDefault b span'

/-- The span of the second default export among some items. -/
def SecondDefault (items : List ModuleItem) (span : Span) : Prop :=
  ∃ before first between second after firstSpan,
    items = before ++ first :: (between ++ second :: after) ∧ ExportsDefault first firstSpan ∧
      ExportsDefault second span ∧
      ∀ item ∈ before ++ between, ∀ other, ¬ ExportsDefault item other

/-! ## Attributes -/

/-- The error of the first attribute whose name was seen before. -/
theorem validateAttributes_reports {seen : List Text} (hseen : seen.Nodup)
    (attrs : List Attribute) :
    Reports (validateAttributes seen attrs) fun e => ∃ before a after,
      attrs = before ++ a :: after ∧ (before.map Attribute.name ++ seen).Nodup ∧
        a.name ∈ before.map Attribute.name ++ seen ∧ e = ⟨.duplicateAttribute a.name, a.span⟩ := by
  induction attrs generalizing seen with
  | nil =>
    refine (Reports.ok ()).congr fun e => ⟨False.elim, ?_⟩
    rintro ⟨before, a, after, hattrs, -⟩
    cases before <;> cases hattrs
  | cons a rest ih =>
    rw [validateAttributes]
    split
    · rename_i ha
      rw [List.contains_iff_mem] at ha
      refine (Reports.error _).congr fun e => ?_
      constructor
      · rintro rfl
        exact ⟨[], a, rest, rfl, hseen, ha, rfl⟩
      · rintro ⟨before, b, after, hattrs, hnodup, hb, rfl⟩
        cases before with
        | nil =>
          cases hattrs
          rfl
        | cons c before =>
          -- The attribute itself would be among those with different names.
          cases hattrs
          rw [List.map_cons, List.cons_append, List.nodup_cons] at hnodup
          exact absurd (List.mem_append_right _ ha) hnodup.1
    · rename_i ha
      rw [List.contains_iff_mem] at ha
      refine (ih (List.nodup_cons.2 ⟨ha, hseen⟩)).congr fun e => ?_
      constructor
      · rintro ⟨before, b, after, rfl, hnodup, hb, rfl⟩
        refine ⟨a :: before, b, after, rfl, List.nodup_middle.1 hnodup, ?_, rfl⟩
        exact List.perm_middle.mem_iff.1 hb
      · rintro ⟨before, b, after, hattrs, hnodup, hb, rfl⟩
        cases before with
        | nil =>
          cases hattrs
          exact absurd hb ha
        | cons c before =>
          cases hattrs
          exact ⟨before, b, after, rfl, List.nodup_middle.2 hnodup, List.perm_middle.mem_iff.2 hb,
            rfl⟩

/-- Names that are not all different have a first one that repeats one before it. -/
theorem exists_repeated {attrs : List Attribute} (h : ¬ (attrs.map Attribute.name).Nodup) :
    ∃ before a after, attrs = before ++ a :: after ∧ (before.map Attribute.name).Nodup ∧
      a.name ∈ before.map Attribute.name := by
  induction attrs using List.reverseRecOn with
  | nil => exact absurd List.nodup_nil h
  | append_singleton attrs a ih =>
    by_cases hattrs : (attrs.map Attribute.name).Nodup
    · refine ⟨attrs, a, [], rfl, hattrs, ?_⟩
      by_contra ha
      apply h
      rw [List.map_append, List.map_singleton, List.nodup_append]
      refine ⟨hattrs, List.nodup_singleton _, ?_⟩
      rintro name hname _ hsingle rfl
      exact ha (List.mem_singleton.1 hsingle ▸ hname)
    · obtain ⟨before, b, after, rfl, hbefore, hb⟩ := ih hattrs
      exact ⟨before, b, after ++ [a], by simp, hbefore, hb⟩

/-! ## Nodes -/

/-- A node keeps its rules exactly if it breaks none of them. -/
theorem forall_not_offends_iff {n : Node} : (∀ e, ¬ Offends n e) ↔ Lawful n := by
  cases n with
  | element name attrs children span =>
    constructor
    · intro h
      by_contra hnodup
      obtain ⟨before, a, after, rfl, hbefore, ha⟩ := exists_repeated hnodup
      exact h _ (.repeated hbefore ha)
    · intro hnodup e he
      cases he with
      | @repeated _ before after a _ _ hbefore ha =>
        rw [Lawful, List.map_append, List.map_cons, List.nodup_append] at hnodup
        exact hnodup.2.2 _ ha _ List.mem_cons_self rfl
  | eachBlock iterable item index children span =>
    constructor
    · intro h
      have hitem : ¬ IsReserved item.name := fun hitem => h _ (.item hitem)
      refine ⟨hitem, fun b hb => ?_⟩
      cases hb
      have hindex : ¬ IsReserved b.name := fun hindex => h _ (.index hitem hindex)
      exact ⟨hindex, fun heq => h _ (.duplicate hitem hindex heq)⟩
    · rintro ⟨hitem, hindex⟩ e he
      cases he with
      | item h => exact hitem h
      | index _ h => exact (hindex _ rfl).1 h
      | duplicate _ _ heq => exact (hindex _ rfl).2 heq
  | text | mustache | ifBlock => exact ⟨fun _ => trivial, fun _ e he => nomatch he⟩

theorem isReserved_iff {name : Text} : reservedNames.contains name = true ↔ IsReserved name := by
  rw [List.contains_iff_mem, reservedNames, IsReserved]
  simp only [List.mem_cons, List.not_mem_nil, or_false]

theorem validateAttributes_offends (name : Text) (attrs : List Attribute) (children : List Node)
    (span : Span) :
    Reports (validateAttributes [] attrs) (Offends (.element name attrs children span)) := by
  refine (validateAttributes_reports List.nodup_nil attrs).congr fun e => ?_
  simp only [List.append_nil]
  constructor
  · rintro ⟨before, a, after, rfl, hbefore, ha, rfl⟩
    exact .repeated hbefore ha
  · intro h
    cases h with
    | repeated hbefore ha => exact ⟨_, _, _, rfl, hbefore, ha, rfl⟩

theorem validateBinding_reports (b : BlockBinding) :
    Reports (validateBinding b) fun e =>
      IsReserved b.name ∧ e = ⟨.reservedName b.name, b.span⟩ := by
  unfold validateBinding
  split
  · rename_i h
    refine (Reports.error _).congr fun e => ?_
    exact ⟨fun he => ⟨isReserved_iff.1 h, he⟩, fun he => he.2⟩
  · rename_i h
    refine (Reports.ok ()).congr fun e => ?_
    exact ⟨False.elim, fun he => h (isReserved_iff.2 he.1)⟩

/-- The names of an each block are checked in the order of the rules. -/
theorem validateBindings_offends (iterable : Expr) (item : BlockBinding)
    (index : Option BlockBinding) (children : List Node) (span : Span) :
    Reports (validateBindings item index)
      (Offends (.eachBlock iterable item index children span)) := by
  cases index with
  | none =>
    refine ((validateBinding_reports item).bind_ok (f := id)).congr fun e => ?_
    constructor
    · rintro ⟨hitem, rfl⟩
      exact .item hitem
    · intro h
      cases h with
      | item hitem => exact ⟨hitem, rfl⟩
  | some index =>
    have hlast : Reports (if index.name = item.name
        then Except.error (TemplateError.mk (.duplicateBinding index.name) index.span)
        else .ok ()) fun e =>
          index.name = item.name ∧ e = ⟨.duplicateBinding index.name, index.span⟩ := by
      split
      · rename_i heq
        exact (Reports.error _).congr fun e => ⟨fun he => ⟨heq, he⟩, fun he => he.2⟩
      · rename_i hne
        exact (Reports.ok ()).congr fun e => ⟨False.elim, fun he => hne he.1⟩
    refine ((validateBinding_reports item).bind fun _ _ =>
      (validateBinding_reports index).bind fun _ _ => hlast).congr fun e => ?_
    constructor
    · rintro (⟨hitem, rfl⟩ | ⟨hitem, ⟨hindex, rfl⟩ | ⟨hindex, heq, rfl⟩⟩)
      · exact .item hitem
      · exact .index (fun h => hitem _ ⟨h, rfl⟩) hindex
      · exact .duplicate (fun h => hitem _ ⟨h, rfl⟩) (fun h => hindex _ ⟨h, rfl⟩) heq
    · intro h
      cases h with
      | item hitem => exact .inl ⟨hitem, rfl⟩
      | index hitem hindex => exact .inr ⟨fun _ h => hitem h.1, .inl ⟨hindex, rfl⟩⟩
      | duplicate hitem hindex heq =>
        exact .inr ⟨fun _ h => hitem h.1, .inr ⟨fun _ h => hindex h.1, heq, rfl⟩⟩

/-! ## Trees -/

theorem reports_nil : Reports (.ok () : Except TemplateError Unit) (FirstFault Offends []) :=
  (Reports.ok ()).congr fun _ => ⟨False.elim, fun h => not_firstFault_nil h⟩

/-- A node that keeps its rules leaves the first fault to the nodes behind it. -/
theorem firstFault_cons_of_lawful (n : Node) {nodes : List Node} {e : TemplateError}
    (hn : Lawful n) : FirstFault Offends (n :: nodes) e ↔ FirstFault Offends nodes e := by
  have hnone := forall_not_offends_iff.2 hn
  rw [firstFault_cons_iff]
  constructor
  · rintro (h | ⟨-, h⟩)
    · exact absurd h (hnone e)
    · exact h
  · intro h
    exact .inr ⟨hnone, h⟩

mutual

theorem validateNode_reports :
    (n : Node) → Reports (validateNode n) (FirstFault Offends n.preorder)
  | .element name attrs children span => by
    rw [validateNode, Node.preorder]
    exact ((validateAttributes_offends name attrs children span).bind fun _ _ =>
      validateNodes_reports children).congr fun e => firstFault_cons_iff.symm
  | .text data span => by
    rw [validateNode, Node.preorder]
    exact reports_nil.congr fun e => (firstFault_cons_of_lawful (.text data span) trivial).symm
  | .mustache e span => by
    rw [validateNode, Node.preorder]
    exact reports_nil.congr fun _ => (firstFault_cons_of_lawful (.mustache e span) trivial).symm
  | .ifBlock test children alternative span => by
    rw [validateNode, Node.preorder]
    refine ((validateNodes_reports children).bind fun _ _ =>
      validateAlternative_reports alternative).congr fun e => ?_
    rw [firstFault_cons_of_lawful (.ifBlock test children alternative span) trivial,
      firstFault_append_iff]
  | .eachBlock iterable item index children span => by
    rw [validateNode, Node.preorder]
    exact ((validateBindings_offends iterable item index children span).bind fun _ _ =>
      validateNodes_reports children).congr fun e => firstFault_cons_iff.symm

theorem validateNodes_reports :
    (nodes : List Node) → Reports (validateNodes nodes) (FirstFault Offends (preorderOf nodes))
  | [] => by
    rw [validateNodes, preorderOf]
    exact reports_nil
  | n :: rest => by
    rw [validateNodes, preorderOf]
    exact ((validateNode_reports n).bind fun _ _ => validateNodes_reports rest).congr
      fun e => firstFault_append_iff.symm

theorem validateAlternative_reports :
    (alternative : Option (List Node)) →
      Reports (validateAlternative alternative)
        (FirstFault Offends (alternativePreorder alternative))
  | none => by
    rw [validateAlternative, alternativePreorder]
    exact reports_nil
  | some nodes => by
    rw [validateAlternative, alternativePreorder]
    exact validateNodes_reports nodes

end

theorem preorderOf_eq_flatMap (nodes : List Node) :
    preorderOf nodes = nodes.flatMap Node.preorder := by
  induction nodes with
  | nil => rfl
  | cons n rest ih => rw [preorderOf, List.flatMap_cons, ih]

/-- A node comes before the nodes of its bodies. -/
theorem Node.preorder_eq (n : Node) : n.preorder = n :: n.bodies.flatMap preorderOf := by
  cases n with
  | element | eachBlock | text | mustache => simp [Node.preorder, Node.bodies]
  | ifBlock test children alternative span =>
    cases alternative <;> simp [Node.preorder, Node.bodies, alternativePreorder]

theorem Inner.mono {nodes nodes' inner : List Node} (hsub : ∀ n ∈ nodes, n ∈ nodes')
    (h : Inner nodes inner) : Inner nodes' inner := by
  cases h with
  | body hn hbody => exact .body (hsub _ hn) hbody
  | deeper hn hbody h => exact .deeper (hsub _ hn) hbody h

mutual

theorem mem_bodies_of_mem_preorder {n : Node} : (m : Node) → n ∈ m.preorder →
    n = m ∨ ∃ body ∈ m.bodies, n ∈ body ∨ ∃ inner, Inner body inner ∧ n ∈ inner
  | .element _ _ children _, h | .eachBlock _ _ _ children _, h => by
    rw [Node.preorder] at h
    rcases List.mem_cons.1 h with rfl | h
    · exact .inl rfl
    · exact .inr ⟨children, List.mem_singleton_self _, inner_of_mem_preorderOf children h⟩
  | .text _ _, h | .mustache _ _, h => by
    rw [Node.preorder] at h
    exact .inl (List.mem_singleton.1 h)
  | .ifBlock _ children none _, h => by
    rw [Node.preorder, alternativePreorder, List.append_nil] at h
    rcases List.mem_cons.1 h with rfl | h
    · exact .inl rfl
    · exact .inr ⟨children, List.mem_cons_self, inner_of_mem_preorderOf children h⟩
  | .ifBlock _ children (some other) _, h => by
    rw [Node.preorder, alternativePreorder] at h
    rcases List.mem_cons.1 h with rfl | h
    · exact .inl rfl
    · rcases List.mem_append.1 h with h | h
      · exact .inr ⟨children, List.mem_cons_self, inner_of_mem_preorderOf children h⟩
      · exact .inr ⟨other, List.mem_cons_of_mem _ (List.mem_singleton_self _),
          inner_of_mem_preorderOf other h⟩

theorem inner_of_mem_preorderOf {n : Node} : (nodes : List Node) → n ∈ preorderOf nodes →
    n ∈ nodes ∨ ∃ inner, Inner nodes inner ∧ n ∈ inner
  | [], h => by
    rw [preorderOf] at h
    cases h
  | m :: rest, h => by
    rw [preorderOf] at h
    rcases List.mem_append.1 h with h | h
    · rcases mem_bodies_of_mem_preorder m h with rfl | ⟨body, hbody, h | ⟨inner, hinner, h⟩⟩
      · exact .inl List.mem_cons_self
      · exact .inr ⟨body, .body List.mem_cons_self hbody, h⟩
      · exact .inr ⟨inner, .deeper List.mem_cons_self hbody hinner, h⟩
    · rcases inner_of_mem_preorderOf rest h with h | ⟨inner, hinner, h⟩
      · exact .inl (List.mem_cons_of_mem _ h)
      · exact .inr ⟨inner, hinner.mono fun _ => List.mem_cons_of_mem _, h⟩

end

theorem mem_preorderOf_of_mem {nodes : List Node} {n m : Node} (hm : m ∈ nodes)
    (hn : n ∈ m.preorder) : n ∈ preorderOf nodes := by
  rw [preorderOf_eq_flatMap]
  exact List.mem_flatMap.2 ⟨m, hm, hn⟩

/-- The nodes of a tree in document order are those at its top and those of the bodies at any depth.
-/
theorem mem_preorderOf_iff {nodes : List Node} {n : Node} :
    n ∈ preorderOf nodes ↔ n ∈ nodes ∨ ∃ inner, Inner nodes inner ∧ n ∈ inner := by
  have hself : ∀ m : Node, m ∈ m.preorder := by
    intro m
    rw [m.preorder_eq]
    exact List.mem_cons_self
  constructor
  · exact inner_of_mem_preorderOf nodes
  · rintro (h | ⟨inner, hinner, h⟩)
    · exact mem_preorderOf_of_mem h (hself n)
    · induction hinner with
      | body hm hbody =>
        refine mem_preorderOf_of_mem hm ?_
        rw [Node.preorder_eq]
        exact List.mem_cons_of_mem _
          (List.mem_flatMap.2 ⟨_, hbody, mem_preorderOf_of_mem h (hself n)⟩)
      | deeper hm hbody _ ih =>
        refine mem_preorderOf_of_mem hm ?_
        rw [Node.preorder_eq]
        exact List.mem_cons_of_mem _ (List.mem_flatMap.2 ⟨_, hbody, ih h⟩)

/-! ## Default exports -/

theorem defaultExport?_eq_some_iff {item : ModuleItem} {span : Span} :
    defaultExport? item = some span ↔ ExportsDefault item span := by
  constructor
  · intro h
    cases item with
    | exportDefault =>
      cases h
      exact .value
    | exportDefaultDecl =>
      cases h
      exact .declaration
    | imports | exportDecl | exportNames | exportAll | statement => cases h
  · intro h
    cases h <;> rfl

theorem defaultExport?_eq_none_iff {item : ModuleItem} :
    defaultExport? item = none ↔ ∀ span, ¬ ExportsDefault item span := by
  simp only [← defaultExport?_eq_some_iff, Option.eq_none_iff_forall_ne_some, ne_eq]

theorem secondDefault_iff {items : List ModuleItem} {span : Span} :
    SecondDefault items span ↔
      ∃ first rest, items.filterMap defaultExport? = first :: span :: rest := by
  simp only [List.filterMap_eq_cons_iff, defaultExport?_eq_some_iff, defaultExport?_eq_none_iff]
  constructor
  · rintro ⟨before, first, between, second, after, firstSpan, rfl, hfirst, hsecond, hothers⟩
    refine ⟨firstSpan, _, before, first, _, rfl, ?_, hfirst, between, second, after, rfl, ?_,
      hsecond, rfl⟩
    · exact fun item hitem => hothers item (List.mem_append_left _ hitem)
    · exact fun item hitem => hothers item (List.mem_append_right _ hitem)
  · rintro ⟨firstSpan, _, before, first, _, rfl, hbefore, hfirst, between, second, after, rfl,
      hbetween, hsecond, -⟩
    refine ⟨before, first, between, second, after, firstSpan, rfl, hfirst, hsecond, ?_⟩
    intro item hitem
    rcases List.mem_append.1 hitem with hitem | hitem
    · exact hbefore item hitem
    · exact hbetween item hitem

/-- A script has one default export at most exactly if it has no second one. -/
theorem forall_not_secondDefault_iff {items : List ModuleItem} :
    (∀ span, ¬ SecondDefault items span) ↔ OneDefault items := by
  have hpairs : OneDefault items ↔ (items.filterMap defaultExport?).Pairwise fun _ _ => False := by
    rw [List.pairwise_filterMap]
    simp only [OneDefault, defaultExport?_eq_some_iff]
  rw [hpairs]
  simp only [secondDefault_iff]
  cases items.filterMap defaultExport? with
  | nil => simp
  | cons first rest =>
    cases rest with
    | nil => simp
    | cons second rest =>
      constructor
      · intro h
        exact absurd ⟨first, rest, rfl⟩ (h second)
      · intro h
        exact absurd List.mem_cons_self ((List.pairwise_cons.1 h).1 second)

theorem validateScript_reports (m : Module) :
    Reports (validateScript m) fun e =>
      ∃ span, SecondDefault m.items span ∧ e = ⟨.duplicateDefaultExport, span⟩ := by
  simp only [secondDefault_iff]
  unfold validateScript
  split
  · rename_i first second rest hexports
    refine (Reports.error _).congr fun e => ?_
    constructor
    · rintro rfl
      exact ⟨second, ⟨first, rest, hexports⟩, rfl⟩
    · rintro ⟨span, ⟨first', rest', heq⟩, rfl⟩
      cases hexports.symm.trans heq
      rfl
  · rename_i hexports
    refine (Reports.ok ()).congr fun e => ⟨False.elim, ?_⟩
    rintro ⟨span, ⟨first, rest, heq⟩, -⟩
    exact hexports _ _ _ heq

/-! ## Templates -/

/-- The error of a second default export of a template's script. -/
def ScriptOffends (t : Template) (e : TemplateError) : Prop :=
  ∃ script span, t.script = some script ∧ SecondDefault script.content.items span ∧
    e = ⟨.duplicateDefaultExport, span⟩

theorem validate_reports (t : Template) :
    Reports (validate t) fun e => FirstFault Offends (preorderOf t.nodes) e ∨
      (∀ e', ¬ FirstFault Offends (preorderOf t.nodes) e') ∧ ScriptOffends t e := by
  refine (validateNodes_reports t.nodes).bind fun _ _ => ?_
  unfold ScriptOffends
  cases t.script with
  | none =>
    refine (Reports.ok ()).congr fun e => ⟨False.elim, ?_⟩
    rintro ⟨script, span, hscript, -⟩
    cases hscript
  | some script =>
    refine (validateScript_reports script.content).congr fun e => ?_
    constructor
    · rintro ⟨span, hspan, rfl⟩
      exact ⟨script, span, rfl, hspan, rfl⟩
    · rintro ⟨script', span, hscript, hspan, rfl⟩
      cases hscript
      exact ⟨span, hspan, rfl⟩

theorem forall_not_firstFault_offends_iff {nodes : List Node} :
    (∀ e, ¬ FirstFault Offends nodes e) ↔ ∀ n ∈ nodes, Lawful n := by
  simp only [forall_not_firstFault_iff, forall_not_offends_iff]

theorem forall_not_scriptOffends_iff {t : Template} :
    (∀ e, ¬ ScriptOffends t e) ↔ ∀ script ∈ t.script, OneDefault script.content.items := by
  simp only [← forall_not_secondDefault_iff]
  constructor
  · intro h script hscript span hspan
    exact h _ ⟨script, span, hscript, hspan, rfl⟩
  · rintro h e ⟨script, span, hscript, hspan, -⟩
    exact h script hscript span hspan

theorem validate_eq_ok_iff {t : Template} :
    validate t = .ok () ↔ (∀ n ∈ preorderOf t.nodes, Lawful n) ∧
      ∀ script ∈ t.script, OneDefault script.content.items := by
  have hok : validate t = .ok () ↔ ∃ u, validate t = .ok u :=
    ⟨fun h => ⟨(), h⟩, fun ⟨_, h⟩ => h⟩
  rw [hok, (validate_reports t).exists_ok_iff, ← forall_not_firstFault_offends_iff,
    ← forall_not_scriptOffends_iff]
  constructor
  · intro h
    have hnodes : ∀ e, ¬ FirstFault Offends (preorderOf t.nodes) e := fun e he => h e (.inl he)
    exact ⟨hnodes, fun e he => h e (.inr ⟨hnodes, he⟩)⟩
  · rintro ⟨hnodes, hscript⟩ e (he | ⟨-, he⟩)
    · exact hnodes e he
    · exact hscript e he

/-- A template is valid exactly if at any depth each node keeps its rules and its script has one
default export at most. Any other template gets the error of the first node in document order that
breaks a rule or, if all of them keep theirs, that of the second default export. -/
theorem validate_outcome (t : Template) :
    (validate t = .ok () ↔
      (∀ n ∈ t.nodes, Lawful n) ∧ (∀ inner, Inner t.nodes inner → ∀ n ∈ inner, Lawful n) ∧
        ∀ script ∈ t.script, OneDefault script.content.items) ∧
      ∀ e, validate t = .error e ↔
        (∃ before n after, preorderOf t.nodes = before ++ n :: after ∧
          (∀ m ∈ before, Lawful m) ∧ Offends n e) ∨
        (∀ n ∈ preorderOf t.nodes, Lawful n) ∧ ∃ script span, t.script = some script ∧
          SecondDefault script.content.items span ∧ e = ⟨.duplicateDefaultExport, span⟩ := by
  constructor
  · rw [validate_eq_ok_iff, ← and_assoc]
    refine and_congr_left fun _ => ?_
    -- The nodes in document order are those at the top and those of the bodies.
    simp only [mem_preorderOf_iff]
    constructor
    · intro h
      exact ⟨fun n hn => h n (.inl hn), fun inner hinner n hn => h n (.inr ⟨inner, hinner, hn⟩)⟩
    · rintro ⟨htop, hinner⟩ n (hn | ⟨inner, h, hn⟩)
      · exact htop n hn
      · exact hinner inner h n hn
  · intro e
    rw [validate_reports t e, forall_not_firstFault_offends_iff]
    simp only [FirstFault, forall_not_offends_iff, ScriptOffends]

/-- A block in the alternative of another one that binds a reserved name, behind an element whose
attributes differ and before one that repeats an attribute, with two default exports in the script.
-/
def manyOffences : Text :=
  ("<script>export default 1; export default 2</script><p a b=\"c\">\x7b\x7b#if d\x7d\x7d" ++
    "\x7b\x7belse\x7d\x7d\x7b\x7b#each e as f, data\x7d\x7d<i g g/>\x7b\x7b/each\x7d\x7d" ++
    "\x7b\x7b/if\x7d\x7d</p>").toList

theorem validate_outcome_manyOffences : ∃ t, readTemplate .standard manyOffences = .ok t ∧
    validate t = .error ⟨.reservedName "data".toList, ⟨95, 99⟩⟩ ∧
    ∃ before n after, preorderOf t.nodes = before ++ n :: after ∧ (∀ m ∈ before, Lawful m) ∧
      Offends n ⟨.reservedName "data".toList, ⟨95, 99⟩⟩ := by
  have hchars : manyOffences = _ := Text.HasChars.append (.append .literal .literal) .literal
  have hread : (readTemplate .standard manyOffences).toOption.map (fun t =>
      decide (validate t = .error ⟨.reservedName "data".toList, ⟨95, 99⟩⟩)) = some true := by
    rw [hchars]
    decide +kernel
  obtain ⟨t, ht, hvalidate⟩ := Option.map_eq_some_iff.1 hread
  have ht := toOption_eq_some_iff.1 ht
  have hvalidate := of_decide_eq_true hvalidate
  refine ⟨t, ht, hvalidate, ?_⟩
  rcases ((validate_outcome t).2 _).1 hvalidate with h | ⟨-, script, span, -, -, herr⟩
  · exact h
  · cases herr

end TemplateCompiler
