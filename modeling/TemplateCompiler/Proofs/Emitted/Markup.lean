import TemplateCompiler.Proofs.Emitted.Weight
import TemplateCompiler.Script.Grammar
import TemplateCompiler.Template.Validation

/-!
# The markup in emitted code

What the template literals of emitted code stand for: the markup of the template, with the names and
texts as they are, a double quote in the value of an attribute as a reference, and one hole for every
expression, block and component. The literals say so exactly if no name of an attribute that is
written into them has a backquote, a backslash or the beginning of a hole in it, and no text has a
carriage return, which a literal would turn into a line feed.

## What this module delivers

* `nodeMarkup`: the markup of a node, with its holes.
* `literalPart_blockAtoms`: the literals of the atoms of a statement are the markup of its node.
* `renderBlocks_lex_iff`: when statements are read as their atoms.
* `statements_read_as_markup_iff`: when the statements of a template say its markup.
-/

set_option autoImplicit false

namespace TemplateCompiler.Emitted

open Script

/-! ## Markup -/

/-- Whether an atom belongs to a template literal or marks the bounds of one or of a hole. -/
@[simp] def Atom.isLiteral : Atom → Bool
  | .literalOpen | .cooked _ | .literalClose | .holeOpen | .holeClose => true
  | .code _ | .source _ | .quoteOpen | .quoted _ | .quoteClose | .unpaired => false

/-- The template literals in some atoms, without the code around them and in their holes. -/
def literalPart (atoms : List Atom) : List Atom :=
  atoms.filter Atom.isLiteral

/-- The markup of a part of a value: a text, or one hole. -/
def partMarkup (value : Text → Text) : AttributePart → List Atom
  | .text data => cooked (value data)
  | .expr _ => holeAtoms []

/-- The markup of an attribute. -/
def attributeMarkup (a : Attribute) : List Atom :=
  cooked (' ' :: a.name) ++ match a.value with
    | none => []
    | some parts => cooked "=\"".toList ++ parts.flatMap (partMarkup referenced) ++ [.cooked '"']

/-- The literal that a component receives for an attribute, where the value is neither missing nor a
single expression. -/
def propMarkup (a : Attribute) : List Atom :=
  match a.value with
  | none | some [.expr _] => []
  | some parts => literalAtoms (parts.flatMap (partMarkup id))

mutual

/-- The markup of a node: text of a literal, or an expression with the literals in it. -/
def nodeMarkup (config : Config) : Node → Shape
  | .element name attrs children _ =>
    if config.isComponent name then .expression (attrs.flatMap propMarkup)
    else .literal (cooked ('<' :: name) ++ attrs.flatMap attributeMarkup ++
      if isVoidElement name then cooked ">".toList
      else if children.isEmpty then cooked "/>".toList
      else cooked ">".toList ++ nodesMarkup config children
        ++ cooked ("</".toList ++ name ++ ">".toList))
  | .text data _ => .literal (cooked data)
  | .mustache _ _ => .expression []
  | .ifBlock _ children alternative _ =>
    .expression (literalAtoms (nodesMarkup config children)
      ++ literalAtoms (alternativeMarkup config alternative))
  | .eachBlock _ _ _ children _ => .expression (literalAtoms (nodesMarkup config children))

/-- The markup of some nodes in a template literal. -/
def nodesMarkup (config : Config) : List Node → List Atom
  | [] => []
  | n :: rest => (nodeMarkup config n).inLiteral ++ nodesMarkup config rest

/-- The markup of an alternative in a template literal. -/
def alternativeMarkup (config : Config) : Option (List Node) → List Atom
  | none => []
  | some nodes => nodesMarkup config nodes

end

/-! ## The literals of atoms -/

@[simp] theorem literalPart_nil : literalPart [] = [] := rfl

@[simp] theorem literalPart_cons (a : Atom) (x : List Atom) :
    literalPart (a :: x) = if a.isLiteral then a :: literalPart x else literalPart x :=
  List.filter_cons

@[simp] theorem literalPart_append (x y : List Atom) :
    literalPart (x ++ y) = literalPart x ++ literalPart y :=
  List.filter_append ..

@[simp] theorem literalPart_cooked (t : Text) : literalPart (cooked t) = cooked t := by
  rw [literalPart, List.filter_eq_self]
  intro a ha
  obtain ⟨c, -, rfl⟩ := List.mem_map.1 ha
  rfl

@[simp] theorem literalPart_coded (t : Text) : literalPart (coded t) = [] := by
  rw [literalPart, List.filter_eq_nil_iff]
  intro a ha
  obtain ⟨c, -, rfl⟩ := List.mem_map.1 ha
  nofun

@[simp] theorem literalPart_quoted (t : Text) : literalPart (t.map .quoted) = [] := by
  rw [literalPart, List.filter_eq_nil_iff]
  intro a ha
  obtain ⟨c, -, rfl⟩ := List.mem_map.1 ha
  nofun

@[simp] theorem literalPart_stringAtoms (t : Text) : literalPart (stringAtoms t) = [] := by
  simp [stringAtoms]

@[simp] theorem literalPart_parenAtoms (x : List Atom) :
    literalPart (parenAtoms x) = literalPart x := by
  simp [parenAtoms]

@[simp] theorem literalPart_holeAtoms (x : List Atom) :
    literalPart (holeAtoms x) = holeAtoms (literalPart x) := by
  simp [holeAtoms]

@[simp] theorem literalPart_literalAtoms (x : List Atom) :
    literalPart (literalAtoms x) = literalAtoms (literalPart x) := by
  simp [literalAtoms]

@[simp] theorem literalPart_exprAtoms (e : Expr) : literalPart (exprAtoms e) = [] := by
  unfold exprAtoms
  split
  all_goals rfl

@[simp] theorem literalPart_iterableAtoms (e : Expr) : literalPart (iterableAtoms e) = [] := by
  unfold iterableAtoms
  split
  all_goals rfl

@[simp] theorem literalPart_parts (value : Text → Text) (parts : List AttributePart) :
    literalPart (parts.flatMap (partAtoms value)) = parts.flatMap (partMarkup value) := by
  induction parts with
  | nil => rfl
  | cons part parts ih =>
    rw [List.flatMap_cons, List.flatMap_cons, literalPart_append, ih]
    cases part with
    | text data => simp [partAtoms, partMarkup]
    | expr e => simp [partAtoms, partMarkup]

theorem literalPart_attributeAtoms (a : Attribute) :
    literalPart (attributeAtoms a) = attributeMarkup a := by
  unfold attributeAtoms attributeMarkup
  cases a.value with
  | none => simp
  | some parts => simp

theorem literalPart_tagAtoms (name : Text) (attrs : List Attribute) :
    literalPart (tagAtoms name attrs) = cooked ('<' :: name) ++ attrs.flatMap attributeMarkup := by
  have hattrs : literalPart (attrs.flatMap attributeAtoms) = attrs.flatMap attributeMarkup := by
    induction attrs with
    | nil => rfl
    | cons a attrs ih =>
      rw [List.flatMap_cons, List.flatMap_cons, literalPart_append, literalPart_attributeAtoms, ih]
  rw [tagAtoms, literalPart_append, hattrs, literalPart_cooked]

@[simp] theorem literalPart_keyAtoms (name : Text) : literalPart (keyAtoms name) = [] := by
  unfold keyAtoms
  split
  all_goals simp

@[simp] theorem literalPart_accessAtoms (name : Text) : literalPart (accessAtoms name) = [] := by
  unfold accessAtoms
  split
  all_goals simp

theorem literalPart_propValueAtoms (a : Attribute) :
    literalPart (propValueAtoms a.value) = propMarkup a := by
  unfold propValueAtoms propMarkup
  split
  all_goals simp [*]

theorem literalPart_propsAtoms (separator : Text) (attrs : List Attribute) :
    literalPart (propsAtoms separator attrs) = attrs.flatMap propMarkup := by
  induction attrs generalizing separator with
  | nil => rfl
  | cons a attrs ih =>
    rw [propsAtoms, literalPart_append, ih, literalPart_append, literalPart_propValueAtoms]
    simp

theorem literalPart_componentAtoms (name : Text) (attrs : List Attribute) :
    literalPart (componentAtoms name attrs) = attrs.flatMap propMarkup := by
  have hobject : literalPart (propsObjectAtoms attrs) = attrs.flatMap propMarkup := by
    unfold propsObjectAtoms
    split
    · rename_i hempty
      rw [List.isEmpty_iff.1 hempty]
      rfl
    · simp [literalPart_propsAtoms]
  -- the texts of the code are kept apart from the rules, which would evaluate them
  have hall : ∀ s t u : Text, literalPart (coded s ++ accessAtoms name ++ coded t
      ++ propsObjectAtoms attrs ++ coded u) = attrs.flatMap propMarkup := by
    intro s t u
    simp [hobject]
  exact hall _ _ _

/-! ## The literals of nodes -/

/-- The literals in a shape. -/
def Shape.literals : Shape → Shape
  | .expression atoms => .expression (literalPart atoms)
  | .literal atoms => .literal (literalPart atoms)

theorem literalPart_inLiteral (s : Shape) : literalPart s.inLiteral = s.literals.inLiteral := by
  cases s with
  | expression atoms => exact literalPart_holeAtoms atoms
  | literal atoms => rfl

theorem literalPart_asExpression (s : Shape) :
    literalPart s.asExpression = s.literals.asExpression := by
  cases s with
  | expression atoms => rfl
  | literal atoms => exact literalPart_literalAtoms atoms

mutual

/-- The literals in the atoms of a node are its markup. -/
theorem nodeShape_literals (config : Config) :
    (n : Node) → (nodeShape config n).literals = nodeMarkup config n
  | .element name attrs children span => by
    have hchildren := nodesAtoms_literals config children
    rw [nodeShape, nodeMarkup]
    split
    · rw [Shape.literals, literalPart_componentAtoms]
    · split
      · simp only [Shape.literals, literalPart_append, literalPart_tagAtoms, literalPart_cooked]
      · split
        · simp only [Shape.literals, literalPart_append, literalPart_tagAtoms, literalPart_cooked]
        · simp only [Shape.literals, literalPart_append, literalPart_tagAtoms, literalPart_cooked,
            hchildren, List.append_assoc]
  | .text data span => by
    rw [nodeShape, nodeMarkup, Shape.literals, literalPart_cooked]
  | .mustache e span => by
    rw [nodeShape, nodeMarkup, Shape.literals, literalPart_exprAtoms]
  | .ifBlock test children alternative span => by
    have hthen := nodesAtoms_literals config children
    have helse := alternativeAtoms_literals config alternative
    have hall : ∀ s t : Text, literalPart (parenAtoms [.source test.span] ++ coded s
        ++ literalAtoms (nodesAtoms config children) ++ coded t
        ++ literalAtoms (alternativeAtoms config alternative)) =
        literalAtoms (nodesMarkup config children)
          ++ literalAtoms (alternativeMarkup config alternative) := by
      intro s t
      simp [hthen, helse]
    rw [nodeShape, nodeMarkup, Shape.literals, hall]
  | .eachBlock iterable item index children span => by
    have hbody := nodesAtoms_literals config children
    have hall : ∀ s t u : Text, literalPart (iterableAtoms iterable ++ coded s
        ++ literalAtoms (nodesAtoms config children) ++ coded t ++ stringAtoms [] ++ coded u) =
        literalAtoms (nodesMarkup config children) := by
      intro s t u
      simp [hbody]
    rw [nodeShape, nodeMarkup, Shape.literals, hall]

/-- The literals in the atoms of some nodes are their markup. -/
theorem nodesAtoms_literals (config : Config) :
    (nodes : List Node) → literalPart (nodesAtoms config nodes) = nodesMarkup config nodes
  | [] => rfl
  | n :: rest => by
    rw [nodesAtoms, nodesMarkup, literalPart_append, literalPart_inLiteral,
      nodeShape_literals config n, nodesAtoms_literals config rest]

/-- The literals in the atoms of an alternative are its markup. -/
theorem alternativeAtoms_literals (config : Config) :
    (alternative : Option (List Node)) →
      literalPart (alternativeAtoms config alternative) = alternativeMarkup config alternative
  | none => rfl
  | some nodes => nodesAtoms_literals config nodes

end

/-- The literals of the statement that renders a node are the markup of the node. -/
theorem literalPart_blockAtoms (config : Config) (n : Node) :
    literalPart (blockAtoms config n) = (nodeMarkup config n).asExpression := by
  have hall : ∀ s t : Text, literalPart (coded s ++ (nodeShape config n).asExpression ++ coded t) =
      (nodeMarkup config n).asExpression := by
    intro s t
    simp [literalPart_asExpression, nodeShape_literals]
  exact hall _ _

/-! ## When statements are read as their atoms -/

/-- A statement is read as its atoms exactly if no name and no text in it says something else. -/
theorem renderBlock_lex_iff {config : Config} {n : Node} {block : List Fragment} (hn : NodeFormed n)
    (h : renderBlock config n = .ok block) :
    lex block = some (blockAtoms config n) ↔
      (∀ a ∈ nodeAttributes config n, isVerbatim a.name = true) ∧
        ∀ data ∈ nodeTexts n, '\r' ∉ data := by
  refine ⟨fun hlex => ?_, fun hsafe => renderBlock_lex hn hsafe.1 hsafe.2 h⟩
  -- the statement has all the symbols that its atoms take, so none is missing
  have hweight := lexFrom_weight hlex
  obtain ⟨code, hcode, h⟩ := bind_eq_ok_iff.1 h
  cases h
  have hlacks := ((lacks_code "rendered += ".toList).append
    (nodeCode_lacks n hn hcode).asExpression).append (lacks_code ";".toList)
  rw [symbolsOf_statement] at hweight
  have hle := Nat.le_trans hlacks hweight
  have hnone : nodeFaults config n = 0 := by omega
  rw [nodeFaults, Nat.add_eq_zero_iff, nameFaults_eq_zero_iff, textFaults_eq_zero_iff] at hnone
  exact hnone

theorem renderBlocks_lex_iff {config : Config} {nodes : List Node} {blocks : List (List Fragment)}
    (hn : NodesFormed nodes) (h : renderBlocks config nodes = .ok blocks) :
    blocks.map lex = nodes.map (fun n => some (blockAtoms config n)) ↔
      (∀ a ∈ writtenAttributes config nodes, isVerbatim a.name = true) ∧
        ∀ data ∈ nodesTexts nodes, '\r' ∉ data := by
  induction nodes generalizing blocks with
  | nil =>
    cases h
    exact ⟨fun _ => ⟨nofun, nofun⟩, fun _ => rfl⟩
  | cons n nodes ih =>
    rw [renderBlocks, List.mapM_cons] at h
    obtain ⟨block, hblock, h⟩ := bind_eq_ok_iff.1 h
    obtain ⟨more, hmore, h⟩ := bind_eq_ok_iff.1 h
    cases h
    rw [List.map_cons, List.map_cons, List.cons.injEq, renderBlock_lex_iff hn.1 hblock,
      ih hn.2 hmore, writtenAttributes, nodesTexts, List.forall_mem_append, List.forall_mem_append]
    exact and_and_and_comm

/-- The statements of a template are read as their atoms, whose literals are the markup of the nodes
with one hole for each expression, block and component, exactly if every name of an attribute that is
written into a literal stands for itself there and no text has a carriage return. -/
theorem statements_read_as_markup_iff {g : Grammar} {config : Config} {source : Text} {t : Template}
    {blocks : List (List Fragment)} (hread : readTemplate g source = .ok t)
    (hblocks : renderBlocks config t.nodes = .ok blocks) :
    (blocks.map lex = t.nodes.map (fun n => some (blockAtoms config n)) ↔
      (∀ a ∈ writtenAttributes config t.nodes, isVerbatim a.name = true) ∧
        ∀ data ∈ nodesTexts t.nodes, '\r' ∉ data) ∧
      ∀ n ∈ t.nodes, literalPart (blockAtoms config n) = (nodeMarkup config n).asExpression :=
  ⟨renderBlocks_lex_iff (readTemplate_formed hread) hblocks,
    fun n _ => literalPart_blockAtoms config n⟩

/-- A template with everything that a literal gives a meaning of its own, in texts, in the values of
attributes and next to holes. -/
theorem statements_read_as_markup_escaped : ∃ t blocks,
    readTemplate .standard
      "<p $ a=\"$\x7b`\\$\x7b\x7b b \x7d\x7d$\">$\x7b`\\<br>$\x7b\x7bc\x7d\x7d</p>".toList = .ok t ∧
    renderBlocks .empty t.nodes = .ok blocks ∧
    blocks.map lex = t.nodes.map (fun n => some (blockAtoms .empty n)) := by
  have hok : ((readTemplate .standard
      "<p $ a=\"$\x7b`\\$\x7b\x7b b \x7d\x7d$\">$\x7b`\\<br>$\x7b\x7bc\x7d\x7d</p>".toList).toOption.bind
      fun t => (renderBlocks .empty t.nodes).toOption.map fun _ =>
        decide ((∀ a ∈ writtenAttributes .empty t.nodes, isVerbatim a.name = true) ∧
          ∀ data ∈ nodesTexts t.nodes, '\r' ∉ data)) = some true := by
    decide +kernel
  obtain ⟨t, ht, hok⟩ := Option.bind_eq_some_iff.1 hok
  obtain ⟨blocks, hblocks, hsafe⟩ := Option.map_eq_some_iff.1 hok
  have hread := toOption_eq_some_iff.1 ht
  have hrender := toOption_eq_some_iff.1 hblocks
  exact ⟨t, blocks, hread, hrender,
    (statements_read_as_markup_iff hread hrender).1.2 (of_decide_eq_true hsafe)⟩

/-- A template that is accepted, and whose statements are not read as their markup. -/
def Misread (source : Text) : Prop :=
  ∃ t blocks, readTemplate .standard source = .ok t ∧ validate t = .ok () ∧
    renderBlocks .empty t.nodes = .ok blocks ∧
    blocks.map lex ≠ t.nodes.map (fun n => some (blockAtoms .empty n))

theorem misread_of_eval {source : Text}
    (h : ((readTemplate .standard source).toOption.bind fun t => (validate t).toOption.bind
      fun _ => (renderBlocks .empty t.nodes).toOption.map fun blocks =>
        decide (blocks.map lex = t.nodes.map fun n => some (blockAtoms .empty n))) = some false) :
    Misread source := by
  obtain ⟨t, ht, hrest⟩ := Option.bind_eq_some_iff.1 h
  obtain ⟨u, hu, hrest⟩ := Option.bind_eq_some_iff.1 hrest
  obtain ⟨blocks, hblocks, hne⟩ := Option.map_eq_some_iff.1 hrest
  exact ⟨t, blocks, toOption_eq_some_iff.1 ht, toOption_eq_some_iff.1 hu,
    toOption_eq_some_iff.1 hblocks, of_decide_eq_false hne⟩

/-- Names of attributes with a backquote, a backslash or the beginning of a hole, and a text with a
carriage return. -/
theorem statements_not_read_as_markup :
    Misread "<p a`b></p>".toList ∧ Misread "<p a\\b></p>".toList ∧
      Misread "<p a$\x7bb\x7d></p>".toList ∧ Misread "a\rb".toList :=
  ⟨misread_of_eval (by decide +kernel), misread_of_eval (by decide +kernel),
    misread_of_eval (by decide +kernel), misread_of_eval (by decide +kernel)⟩

end TemplateCompiler.Emitted
