import TemplateCompiler.Proofs.Emitted.Lexical
import TemplateCompiler.Proofs.Outcome
import TemplateCompiler.Proofs.Template.Formed
import TemplateCompiler.Render.Block

/-!
# The atoms of render blocks

What the code of a node is read as: the markup of the node as the value of a template literal, with
the names and texts of the template as they are, and a hole for everything that is evaluated.

The name of an attribute is put into a literal as it is written. It stands for itself only if it has
nothing in it that a literal gives a meaning of its own; the same holds for a carriage return in a
text.

## What this module delivers

* `nodesTexts`, `writtenAttributes`: the texts and names that are put into literals.
* `Shape`, `nodeShape`, `nodesAtoms`: the atoms of nodes.
* `nodeCode_scans`, `nodesCode_scans`: the code of nodes is read as their atoms.
* `renderBlock_lex`: the statement of a node is read as its atoms.
-/

set_option autoImplicit false

namespace TemplateCompiler.Emitted

open Script

/-! ## Texts and names in literals -/

/-- The texts of the parts of a value. -/
def partTexts (parts : List AttributePart) : List Text :=
  parts.filterMap fun
    | .text data => some data
    | .expr _ => none

/-- The texts in the value of an attribute. -/
def attributeTexts (a : Attribute) : List Text :=
  partTexts (a.value.getD [])

mutual

/-- The texts of a node, those in the values of attributes included. -/
def nodeTexts : Node → List Text
  | .element _ attrs children _ => attrs.flatMap attributeTexts ++ nodesTexts children
  | .text data _ => [data]
  | .mustache _ _ => []
  | .ifBlock _ children alternative _ => nodesTexts children ++ alternativeTexts alternative
  | .eachBlock _ _ _ children _ => nodesTexts children

/-- The texts of some nodes. -/
def nodesTexts : List Node → List Text
  | [] => []
  | n :: rest => nodeTexts n ++ nodesTexts rest

/-- The texts of the alternative of a conditional block. -/
def alternativeTexts : Option (List Node) → List Text
  | none => []
  | some nodes => nodesTexts nodes

end

mutual

/-- The attributes of the elements of a node that are no components. -/
def nodeAttributes (config : Config) : Node → List Attribute
  | .element name attrs children _ =>
    (if config.isComponent name then [] else attrs) ++ writtenAttributes config children
  | .text _ _ | .mustache _ _ => []
  | .ifBlock _ children alternative _ =>
    writtenAttributes config children ++ alternativeAttributes config alternative
  | .eachBlock _ _ _ children _ => writtenAttributes config children

/-- The attributes of the elements of some nodes that are no components. -/
def writtenAttributes (config : Config) : List Node → List Attribute
  | [] => []
  | n :: rest => nodeAttributes config n ++ writtenAttributes config rest

/-- The attributes of the elements of an alternative that are no components. -/
def alternativeAttributes (config : Config) : Option (List Node) → List Attribute
  | none => []
  | some nodes => writtenAttributes config nodes

end

/-! ## Atoms -/

/-- The atoms of a text in a template literal. -/
abbrev cooked (t : Text) : List Atom :=
  t.map .cooked

/-- The atoms of a text of code. -/
abbrev coded (t : Text) : List Atom :=
  t.map .code

/-- The atoms of a hole of a template literal. -/
def holeAtoms (inner : List Atom) : List Atom :=
  .holeOpen :: inner ++ [.holeClose]

/-- The atoms of a template literal. -/
def literalAtoms (inner : List Atom) : List Atom :=
  .literalOpen :: inner ++ [.literalClose]

/-- The atoms of a string. -/
def stringAtoms (t : Text) : List Atom :=
  .quoteOpen :: t.map .quoted ++ [.quoteClose]

/-- The atoms between parentheses. -/
def parenAtoms (inner : List Atom) : List Atom :=
  .code '(' :: inner ++ [.code ')']

/-- The atoms of an expression of the source. -/
def exprAtoms (e : Expr) : List Atom :=
  if needsParens e then parenAtoms [.source e.span] else [.source e.span]

/-- The atoms of the collection of an each block. -/
def iterableAtoms (e : Expr) : List Atom :=
  if isMemberSafe e then [.source e.span] else parenAtoms [.source e.span]

/-- The atoms of a part of a value, where `value` tells what a text in it stands for. -/
def partAtoms (value : Text → Text) : AttributePart → List Atom
  | .text data => cooked (value data)
  | .expr e => holeAtoms (exprAtoms e)

/-- The atoms of an attribute of an element. -/
def attributeAtoms (a : Attribute) : List Atom :=
  match a.value with
  | none => cooked (' ' :: a.name)
  | some parts =>
    cooked (' ' :: a.name ++ "=\"".toList) ++ parts.flatMap (partAtoms referenced) ++ [.cooked '"']

/-- The atoms of the beginning of a tag. -/
def tagAtoms (name : Text) (attrs : List Attribute) : List Atom :=
  cooked ('<' :: name) ++ attrs.flatMap attributeAtoms

/-- The atoms of a key of an object. -/
def keyAtoms (name : Text) : List Atom :=
  if isIdentifier name then coded name else stringAtoms name

/-- The atoms of the access to a property. -/
def accessAtoms (name : Text) : List Atom :=
  if isIdentifier name then coded ('.' :: name) else .code '[' :: stringAtoms name ++ [.code ']']

/-- The atoms of what a component receives for an attribute. -/
def propValueAtoms : Option (List AttributePart) → List Atom
  | none => coded "true".toList
  | some [.expr e] => exprAtoms e
  | some parts => literalAtoms (parts.flatMap (partAtoms id))

/-- The atoms of what a component receives for its attributes. -/
def propsAtoms : Text → List Attribute → List Atom
  | _, [] => []
  | separator, a :: rest =>
    coded separator ++ keyAtoms a.name ++ coded ": ".toList ++ propValueAtoms a.value
      ++ propsAtoms ", ".toList rest

/-- The atoms of the object that a component receives. -/
def propsObjectAtoms (attrs : List Attribute) : List Atom :=
  if attrs.isEmpty then [.code '\x7b', .code '\x7d']
  else .code '\x7b' :: propsAtoms " ".toList attrs ++ [.code ' ', .code '\x7d']

/-- The atoms of the call that renders a component. -/
def componentAtoms (name : Text) (attrs : List Attribute) : List Atom :=
  coded "template.components".toList ++ accessAtoms name ++ coded ".render( ".toList
    ++ propsObjectAtoms attrs ++ coded " )".toList

/-- The atoms of a node, as an expression or as the inside of a template literal. -/
inductive Shape where
  | expression (atoms : List Atom)
  | literal (atoms : List Atom)

/-- The atoms of a node in a template literal. -/
def Shape.inLiteral : Shape → List Atom
  | .expression atoms => holeAtoms atoms
  | .literal atoms => atoms

/-- The atoms of a node as an expression. -/
def Shape.asExpression : Shape → List Atom
  | .expression atoms => atoms
  | .literal atoms => literalAtoms atoms

mutual

/-- The atoms of a node. -/
def nodeShape (config : Config) : Node → Shape
  | .element name attrs children _ =>
    if config.isComponent name then .expression (componentAtoms name attrs)
    else if isVoidElement name then .literal (tagAtoms name attrs ++ cooked ">".toList)
    else if children.isEmpty then .literal (tagAtoms name attrs ++ cooked "/>".toList)
    else .literal (tagAtoms name attrs ++ cooked ">".toList ++ nodesAtoms config children
      ++ cooked ("</".toList ++ name ++ ">".toList))
  | .text data _ => .literal (cooked data)
  | .mustache e _ => .expression (exprAtoms e)
  | .ifBlock test children alternative _ =>
    .expression (parenAtoms [.source test.span] ++ coded " ? ".toList
      ++ literalAtoms (nodesAtoms config children) ++ coded " : ".toList
      ++ literalAtoms (alternativeAtoms config alternative))
  | .eachBlock iterable item index children _ =>
    .expression (iterableAtoms iterable ++ coded (".map( ".toList ++ itemParams item index
      ++ " => ".toList) ++ literalAtoms (nodesAtoms config children) ++ coded " ).join( ".toList
      ++ stringAtoms [] ++ coded " )".toList)

/-- The atoms of some nodes in a template literal. -/
def nodesAtoms (config : Config) : List Node → List Atom
  | [] => []
  | n :: rest => (nodeShape config n).inLiteral ++ nodesAtoms config rest

/-- The atoms of an alternative in a template literal. -/
def alternativeAtoms (config : Config) : Option (List Node) → List Atom
  | none => []
  | some nodes => nodesAtoms config nodes

end

/-- The atoms of the statement that renders a node. -/
def blockAtoms (config : Config) (n : Node) : List Atom :=
  coded "rendered += ".toList ++ (nodeShape config n).asExpression ++ coded ";".toList

/-! ## Names -/

theorem isPlainCode_of_isIdentifierPart {c : Char} (h : isIdentifierPart c = true) :
    isPlainCode c = true := by
  have hno : ∀ c ∈ ['\x60', '\'', '\x7b', '\x7d', '"', '/'], isIdentifierPart c = false := by decide
  cases hplain : isPlainCode c with
  | true => rfl
  | false =>
    have hmem : c ∈ ['\x60', '\'', '\x7b', '\x7d', '"', '/'] := by
      rw [isPlainCode, Bool.not_eq_false'] at hplain
      exact List.contains_iff_mem.1 hplain
    rw [hno c hmem] at h
    cases h

theorem isPlainCode_of_isIdentifier {name : Text} (h : isIdentifier name = true) :
    ∀ c ∈ name, isPlainCode c = true :=
  fun c hc => isPlainCode_of_isIdentifierPart (isIdentifierPart_of_mem h c hc)

theorem isVerbatim_of_plain {t : Text} (h : ∀ c ∈ t, isSpecial c = false ∧ c ≠ '$') :
    isVerbatim t = true := by
  induction t with
  | nil => rfl
  | cons c t ih =>
    obtain ⟨hspecial, hdollar⟩ := h c List.mem_cons_self
    exact isVerbatim_cons_iff.2 ⟨hspecial, fun hc => absurd hc hdollar,
      ih fun d hd => h d (List.mem_cons_of_mem c hd)⟩

theorem isVerbatim_append {s t : Text} (hs : isVerbatim s = true) (ht : isVerbatim t = true)
    (hhead : t.head? ≠ some '\x7b') : isVerbatim (s ++ t) = true := by
  induction s with
  | nil => exact ht
  | cons c s ih =>
    obtain ⟨hspecial, hdollar, hs'⟩ := isVerbatim_cons_iff.1 hs
    refine isVerbatim_cons_iff.2 ⟨hspecial, fun hc => ?_, ih hs'⟩
    cases s with
    | nil => exact hhead
    | cons d s => exact hdollar hc

/-- The names of elements stand for themselves. -/
theorem isVerbatim_of_tagNamed {name : Text} (h : ∀ c ∈ name, isTagNameChar c = true) :
    isVerbatim name = true := by
  refine isVerbatim_of_plain fun c hc => ?_
  have hno : ∀ d ∈ ['\x60', '\\', '\r', '$'], isTagNameChar d = false := by decide
  have hne : ∀ d ∈ ['\x60', '\\', '\r', '$'], c ≠ d := by
    rintro d hd rfl
    have htag := h c hc
    rw [hno c hd] at htag
    cases htag
  simp only [List.forall_mem_cons] at hne
  simp [isSpecial, hne]

/-! ## Parts of the code -/

section Parts

variable {depth : Nat} {below : List Frame}

theorem scans_paren {a : List Symbol} {x : List Atom}
    (h : Scans false (.code depth :: below) a x (.code depth :: below)) :
    Scans false (.code depth :: below) (chars "(".toList ++ a ++ chars ")".toList) (parenAtoms x)
      (.code depth :: below) := by
  have hopen : Scans false (.code depth :: below) (chars ['(']) (coded ['(']) (.code depth :: below) :=
    scans_code (by decide)
  have hclose : Scans false (.code depth :: below) (chars [')']) (coded [')'])
      (.code depth :: below) := scans_code (by decide)
  exact (hopen.append h).append hclose

theorem scans_exprCode (e : Expr) :
    Scans false (.code depth :: below) (symbolsOf (exprCode e)) (exprAtoms e)
      (.code depth :: below) := by
  unfold exprCode exprAtoms
  split
  · exact scans_paren (scans_source e.span)
  · exact scans_source e.span

theorem scans_iterableCode (e : Expr) :
    Scans false (.code depth :: below) (symbolsOf (iterableCode e)) (iterableAtoms e)
      (.code depth :: below) := by
  unfold iterableCode iterableAtoms
  split
  · exact scans_source e.span
  · exact scans_paren (scans_source e.span)

theorem symbolsOf_hole (fragments : List Fragment) :
    symbolsOf (hole fragments) =
      chars "$\x7b".toList ++ symbolsOf fragments ++ chars "\x7d".toList := by
  simp [hole]

theorem symbolsOf_templateLiteral (fragments : List Fragment) :
    symbolsOf (templateLiteral fragments) =
      chars "\x60".toList ++ symbolsOf fragments ++ chars "\x60".toList := by
  simp [templateLiteral]

theorem symbolsOf_tagCode (name : Text) (attrs : List Attribute) :
    symbolsOf (tagCode name attrs) =
      chars ('<' :: name) ++ symbolsOf (attrs.flatMap attributeCode) := by
  simp [tagCode]

theorem symbolsOf_attributeCode {a : Attribute} {parts : List AttributePart}
    (h : a.value = some parts) :
    symbolsOf (attributeCode a) = chars (' ' :: a.name ++ "=\"".toList)
      ++ symbolsOf (parts.flatMap (partCode escapeAttribute)) ++ [.char '"'] := by
  simp [attributeCode, h]

theorem symbolsOf_propsCode (separator : Text) (a : Attribute) (attrs : List Attribute) :
    symbolsOf (propsCode separator (a :: attrs)) =
      chars separator ++ chars (propertyKeyText a.name) ++ chars ": ".toList
        ++ symbolsOf (propValueCode a.value) ++ symbolsOf (propsCode ", ".toList attrs) := by
  simp [propsCode]

theorem symbolsOf_componentCode (name : Text) (attrs : List Attribute) :
    symbolsOf (componentCode name attrs) =
      chars "template.components".toList ++ chars (propertyAccess name) ++ chars ".render( ".toList
        ++ symbolsOf (propsObject attrs) ++ chars " )".toList := by
  simp [componentCode]

theorem symbolsOf_conditional (test : Expr) (yes no : List Fragment) :
    symbolsOf (.ofString "(" :: .slice test.span :: .ofString ") ? \x60" :: yes
      ++ .ofString "\x60 : \x60" :: no ++ [.ofString "\x60"]) =
      chars "(".toList ++ [.slice test.span] ++ chars ")".toList ++ chars " ? ".toList
        ++ symbolsOf (templateLiteral yes) ++ chars " : ".toList
        ++ symbolsOf (templateLiteral no) := by
  simp [templateLiteral]

theorem symbolsOf_loop (iterable : Expr) (params : Text) (body : List Fragment) :
    symbolsOf (iterableCode iterable ++ .text (".map( ".toList ++ params ++ " => \x60".toList) :: body
      ++ [.ofString "\x60 ).join( '' )"]) =
      symbolsOf (iterableCode iterable) ++ chars (".map( ".toList ++ params ++ " => ".toList)
        ++ symbolsOf (templateLiteral body) ++ chars " ).join( ".toList ++ chars (quoteString [])
        ++ chars " )".toList := by
  simp [templateLiteral, quoteString]

theorem symbolsOf_element (name : Text) (attrs : List Attribute) (first rest : List Fragment) :
    symbolsOf (tagCode name attrs ++ .ofString ">" :: first ++ rest
      ++ [.text ("</".toList ++ name ++ ">".toList)]) =
      symbolsOf (tagCode name attrs) ++ [.char '>'] ++ symbolsOf (first ++ rest)
        ++ chars ("</".toList ++ name ++ ">".toList) := by
  simp

theorem symbolsOf_statement (fragments : List Fragment) :
    symbolsOf (.ofString "rendered += " :: fragments ++ [.ofString ";"]) =
      chars "rendered += ".toList ++ symbolsOf fragments ++ chars ";".toList := by
  simp

theorem scans_holeCode {fragments : List Fragment} {x : List Atom}
    (h : Scans false (.code 0 :: .literal :: below) (symbolsOf fragments) x
      (.code 0 :: .literal :: below)) :
    Scans false (.literal :: below) (symbolsOf (hole fragments)) (holeAtoms x)
      (.literal :: below) := by
  rw [symbolsOf_hole]
  exact scans_hole h

theorem scans_templateLiteral {fragments : List Fragment} {x : List Atom}
    (h : Scans true (.literal :: .code depth :: below) (symbolsOf fragments) x
      (.literal :: .code depth :: below)) :
    Scans false (.code depth :: below) (symbolsOf (templateLiteral fragments)) (literalAtoms x)
      (.code depth :: below) := by
  rw [symbolsOf_templateLiteral]
  exact scans_literal h

/-- The parts of a value: a text is followed by a hole or by the end of the value. -/
theorem scans_parts {escape value : Text → Text} {parts : List AttributePart}
    (hescape : ∀ data, '\r' ∉ data → Scans true (.literal :: below) (chars (escape data))
      (cooked (value data)) (.literal :: below))
    (hparts : Separated parts) (hclean : ∀ data, .text data ∈ parts → '\r' ∉ data) :
    Scans true (.literal :: below) (symbolsOf (parts.flatMap (partCode escape)))
      (parts.flatMap (partAtoms value)) (.literal :: below) := by
  induction parts with
  | nil => exact .nil true _
  | cons part parts ih =>
    have hclean' : ∀ data, .text data ∈ parts → '\r' ∉ data :=
      fun data hdata => hclean data (List.mem_cons_of_mem _ hdata)
    rw [List.flatMap_cons, List.flatMap_cons, symbolsOf_append]
    cases part with
    | expr e => exact (scans_holeCode (scans_exprCode e)).append (ih hparts hclean')
    | text data =>
      have hdata := hescape data (hclean data List.mem_cons_self)
      have hcode : symbolsOf (partCode escape (.text data)) = chars (escape data) :=
        List.append_nil _
      rw [hcode]
      cases parts with
      | nil => simpa [partAtoms] using hdata
      | cons part parts =>
        cases part with
        | text data' => exact absurd hparts id
        | expr e =>
          have hnext := ih hparts hclean'
          exact hdata.append_open hnext (by simp [partCode, hole]) (.inr rfl)

theorem mem_attributeTexts {a : Attribute} {data : Text} (h : .text data ∈ a.value.getD []) :
    data ∈ attributeTexts a :=
  List.mem_filterMap.2 ⟨.text data, h, rfl⟩

/-- An attribute of an element whose name stands for itself. -/
theorem scans_attributeCode {a : Attribute} (ha : AttributeFormed a) (hname : isVerbatim a.name = true)
    (hclean : ∀ data ∈ attributeTexts a, '\r' ∉ data) :
    Scans true (.literal :: below) (symbolsOf (attributeCode a)) (attributeAtoms a)
      (.literal :: below) := by
  have hblank : isVerbatim (' ' :: a.name) = true :=
    isVerbatim_cons_iff.2 ⟨rfl, nofun, hname⟩
  have hsep := ha.separated
  have htexts : ∀ data, .text data ∈ a.value.getD [] → '\r' ∉ data :=
    fun data hdata => hclean data (mem_attributeTexts hdata)
  cases hvalue : a.value with
  | none =>
    have hscan := (@scans_verbatim below _ hblank).weaken
    simpa [attributeCode, attributeAtoms, hvalue] using hscan
  | some parts =>
    rw [symbolsOf_attributeCode hvalue]
    simp only [attributeAtoms, hvalue]
    rw [hvalue] at hsep htexts
    have hopen : isVerbatim (' ' :: a.name ++ "=\"".toList) = true :=
      isVerbatim_append hblank rfl (by simp)
    have hparts := @scans_parts below _ _ parts (fun data => scans_escapeAttribute) hsep htexts
    have hclose : Scans false (.literal :: below) [.char '"'] [.cooked '"'] (.literal :: below) :=
      .single fun _ => rfl
    have hends : endsInDollar (' ' :: a.name ++ "=\"".toList) = false := by
      rw [endsInDollar, List.getLast?_append]
      rfl
    have hstart := @scans_verbatim below _ hopen
    rw [hends] at hstart
    have hall := (hstart.append hparts).append_open hclose (by simp) (.inl (by simp))
    exact hall.weaken

/-- The beginning of a tag. What follows it is no brace. -/
theorem scans_tagCode {name : Text} {attrs : List Attribute} (hname : TagNamed name)
    (hattrs : ∀ a ∈ attrs, AttributeFormed a) (hnames : ∀ a ∈ attrs, isVerbatim a.name = true)
    (hclean : ∀ data ∈ attrs.flatMap attributeTexts, '\r' ∉ data) :
    Scans true (.literal :: below) (symbolsOf (tagCode name attrs)) (tagAtoms name attrs)
      (.literal :: below) := by
  have hverbatim : isVerbatim ('<' :: name) = true :=
    isVerbatim_cons_iff.2 ⟨rfl, nofun, isVerbatim_of_tagNamed hname.2⟩
  have hopen := (@scans_verbatim below _ hverbatim).weaken
  have hrest : Scans true (.literal :: below) (symbolsOf (attrs.flatMap attributeCode))
      (attrs.flatMap attributeAtoms) (.literal :: below) ∧
      (symbolsOf (attrs.flatMap attributeCode)).head? ≠ some (.char '\x7b') := by
    induction attrs with
    | nil => exact ⟨.nil true _, nofun⟩
    | cons a attrs ih =>
      simp only [List.forall_mem_cons] at hattrs hnames
      rw [List.flatMap_cons, List.forall_mem_append] at hclean
      obtain ⟨hmore, hhead⟩ := ih hattrs.2 hnames.2 hclean.2
      have ha := @scans_attributeCode below a hattrs.1 hnames.1 hclean.1
      rw [List.flatMap_cons, List.flatMap_cons, symbolsOf_append]
      refine ⟨ha.append_open hmore hhead (.inr rfl), ?_⟩
      unfold attributeCode
      cases a.value <;> simp
  rw [symbolsOf_tagCode]
  exact hopen.append_open hrest.1 hrest.2 (.inr rfl)

/-! ## Components -/

theorem scans_key (name : Text) :
    Scans false (.code depth :: below) (chars (propertyKeyText name)) (keyAtoms name)
      (.code depth :: below) := by
  unfold propertyKeyText keyAtoms
  split
  · rename_i h
    exact scans_code (isPlainCode_of_isIdentifier h)
  · exact scans_quoteString name

theorem scans_access (name : Text) :
    Scans false (.code depth :: below) (chars (propertyAccess name)) (accessAtoms name)
      (.code depth :: below) := by
  unfold propertyAccess accessAtoms
  split
  · rename_i h
    refine scans_code ?_
    rw [List.forall_mem_cons]
    exact ⟨by decide, isPlainCode_of_isIdentifier h⟩
  · have hopen : Scans false (.code depth :: below) (chars ['[']) (coded ['['])
        (.code depth :: below) := scans_code (by decide)
    have hclose : Scans false (.code depth :: below) (chars [']']) (coded [']'])
        (.code depth :: below) := scans_code (by decide)
    rw [chars_append, chars_append]
    exact (hopen.append (scans_quoteString name)).append hclose

theorem scans_propValueCode {a : Attribute} (ha : AttributeFormed a)
    (hclean : ∀ data ∈ attributeTexts a, '\r' ∉ data) :
    Scans false (.code depth :: below) (symbolsOf (propValueCode a.value)) (propValueAtoms a.value)
      (.code depth :: below) := by
  have hsep := ha.separated
  have htexts : ∀ data, .text data ∈ a.value.getD [] → '\r' ∉ data :=
    fun data hdata => hclean data (mem_attributeTexts hdata)
  cases hvalue : a.value with
  | none =>
    have hcode : Scans false (.code depth :: below) (chars "true".toList) (coded "true".toList)
        (.code depth :: below) := scans_code (by decide)
    simpa [propValueCode, propValueAtoms] using hcode
  | some parts =>
    rw [hvalue] at hsep htexts
    have hliteral := scans_templateLiteral (@scans_parts (.code depth :: below) escapeLiteral id parts
      (fun data hdata => (scans_escapeLiteral hdata).weaken) hsep htexts)
    by_cases hone : ∃ e, parts = [.expr e]
    · obtain ⟨e, rfl⟩ := hone
      exact scans_exprCode e
    · have hno : ∀ e, parts = [.expr e] → False := fun e h => hone ⟨e, h⟩
      rw [propValueCode.eq_3 parts hno, propValueAtoms.eq_3 parts hno]
      exact hliteral

theorem scans_propsCode {separator : Text} {attrs : List Attribute}
    (hseparator : ∀ c ∈ separator, isPlainCode c = true)
    (hattrs : ∀ a ∈ attrs, AttributeFormed a)
    (hclean : ∀ data ∈ attrs.flatMap attributeTexts, '\r' ∉ data) :
    Scans false (.code depth :: below) (symbolsOf (propsCode separator attrs))
      (propsAtoms separator attrs) (.code depth :: below) := by
  induction attrs generalizing separator with
  | nil => exact .nil false _
  | cons a attrs ih =>
    rw [List.forall_mem_cons] at hattrs
    rw [List.flatMap_cons, List.forall_mem_append] at hclean
    have hmore := @ih ", ".toList (by decide) hattrs.2 hclean.2
    have hvalue := @scans_propValueCode depth below a hattrs.1 hclean.1
    have hcolon : Scans false (.code depth :: below) (chars ": ".toList) (coded ": ".toList)
        (.code depth :: below) := scans_code (by decide)
    have hkey := (((scans_code hseparator).append (scans_key a.name)).append hcolon).append hvalue
    rw [symbolsOf_propsCode]
    exact hkey.append hmore

/-- The call that renders a component. -/
theorem scans_componentCode {name : Text} {attrs : List Attribute}
    (hattrs : ∀ a ∈ attrs, AttributeFormed a)
    (hclean : ∀ data ∈ attrs.flatMap attributeTexts, '\r' ∉ data) :
    Scans false (.code depth :: below) (symbolsOf (componentCode name attrs))
      (componentAtoms name attrs) (.code depth :: below) := by
  have hstart : Scans false (.code depth :: below) (chars "template.components".toList)
      (coded "template.components".toList) (.code depth :: below) := scans_code (by decide)
  have hrender : Scans false (.code depth :: below) (chars ".render( ".toList)
      (coded ".render( ".toList) (.code depth :: below) := scans_code (by decide)
  have hend : Scans false (.code depth :: below) (chars " )".toList) (coded " )".toList)
      (.code depth :: below) := scans_code (by decide)
  have hobject : Scans false (.code depth :: below) (symbolsOf (propsObject attrs))
      (propsObjectAtoms attrs) (.code depth :: below) := by
    unfold propsObject propsObjectAtoms
    split
    · exact scans_braceOpen.append scans_braceClose
    · have hblank : Scans false (.code (depth + 1) :: below) [.char ' '] [.code ' ']
          (.code (depth + 1) :: below) := .single fun _ => rfl
      have hprops := @scans_propsCode (depth + 1) below " ".toList attrs (by decide) hattrs hclean
      have hinner := (scans_braceOpen.append hprops).append (hblank.append scans_braceClose)
      have hcode : symbolsOf (.ofString "\x7b" :: propsCode " ".toList attrs ++ [.ofString " \x7d"]) =
          [.char '\x7b'] ++ symbolsOf (propsCode " ".toList attrs) ++ ([.char ' '] ++ [.char '\x7d']) := by
        simp
      rw [hcode]
      exact hinner
  rw [symbolsOf_componentCode]
  exact (((hstart.append (scans_access name)).append hrender).append hobject).append hend

end Parts

/-! ## Nodes -/

/-- Code that is read as a shape: as an expression in any code, or as text in any literal. -/
def CodeScans (dollar : Bool) : Code → Shape → Prop
  | .expression fragments, .expression atoms => ∀ depth below,
    Scans false (.code depth :: below) (symbolsOf fragments) atoms (.code depth :: below)
  | .literal fragments, .literal atoms => ∀ below,
    Scans dollar (.literal :: below) (symbolsOf fragments) atoms (.literal :: below)
  | _, _ => False

theorem CodeScans.inLiteral {dollar : Bool} {code : Code} {shape : Shape}
    (h : CodeScans dollar code shape) (below : List Frame) :
    Scans dollar (.literal :: below) (symbolsOf code.inLiteral) shape.inLiteral
      (.literal :: below) := by
  cases code with
  | expression fragments =>
    cases shape with
    | expression atoms => exact (scans_holeCode (h 0 (.literal :: below))).mono
    | literal atoms => exact absurd h id
  | literal fragments =>
    cases shape with
    | expression atoms => exact absurd h id
    | literal atoms => exact h below

theorem CodeScans.asExpression {dollar : Bool} {code : Code} {shape : Shape}
    (h : CodeScans dollar code shape) (depth : Nat) (below : List Frame) :
    Scans false (.code depth :: below) (symbolsOf code.asExpression) shape.asExpression
      (.code depth :: below) := by
  cases code with
  | expression fragments =>
    cases shape with
    | expression atoms => exact h depth below
    | literal atoms => exact absurd h id
  | literal fragments =>
    cases shape with
    | expression atoms => exact absurd h id
    | literal atoms => exact scans_templateLiteral (h _).weaken

/-- Whether the code of a node in a literal can end in a dollar sign. -/
def nodeEndsInDollar : Node → Bool
  | .text data _ => endsInDollar data
  | .element .. | .mustache .. | .ifBlock .. | .eachBlock .. => false

/-- The code of a node in a literal starts with a brace only if the node is a text that does. -/
theorem nodeCode_head {config : Config} {n : Node} {code : Code} (hn : NodeFormed n)
    (h : nodeCode config n = .ok code) :
    ∃ s rest, symbolsOf code.inLiteral = s :: rest ∧
      (s = .char '\x7b' → ∃ data span, n = .text data span ∧ data.head? = some '\x7b') := by
  have hdollar : Symbol.char '$' ≠ .char '\x7b' := by decide
  have hless : Symbol.char '<' ≠ .char '\x7b' := by decide
  have hhole : ∀ fragments, ∃ rest, symbolsOf (hole fragments) = .char '$' :: rest :=
    fun fragments => ⟨_, symbolsOf_hole fragments⟩
  have htag : ∀ name attrs fragments, ∃ rest,
      symbolsOf (tagCode name attrs ++ fragments) = .char '<' :: rest := by
    intro name attrs fragments
    simp [tagCode]
  cases n with
  | element name attrs children span =>
    unfold nodeCode at h
    split at h
    · split at h
      · cases h
        obtain ⟨rest, hrest⟩ := hhole (componentCode name attrs)
        exact ⟨_, rest, hrest, fun hs => absurd hs hdollar⟩
      · cases h
    · split at h
      · cases h
        obtain ⟨rest, hrest⟩ := htag name attrs [.ofString ">"]
        exact ⟨_, rest, hrest, fun hs => absurd hs hless⟩
      · split at h
        · cases h
          obtain ⟨rest, hrest⟩ := htag name attrs [.ofString "/>"]
          exact ⟨_, rest, hrest, fun hs => absurd hs hless⟩
        · obtain ⟨first, -, h⟩ := bind_eq_ok_iff.1 h
          obtain ⟨more, -, h⟩ := bind_eq_ok_iff.1 h
          cases h
          simp only [Code.inLiteral, List.append_assoc]
          obtain ⟨rest, hrest⟩ := htag name attrs _
          exact ⟨_, rest, hrest, fun hs => absurd hs hless⟩
  | text data span =>
    rw [nodeCode] at h
    cases h
    have hcode : symbolsOf (Code.literal [.text (escapeLiteral data)]).inLiteral =
        chars (escapeLiteral data) := List.append_nil _
    rw [hcode]
    cases hescape : escapeLiteral data with
    | nil => exact absurd (escapeLiteral_ne_nil hescape) hn
    | cons c t =>
      refine ⟨_, _, rfl, fun hc => ⟨data, span, rfl, head?_escapeLiteral ?_⟩⟩
      rw [hescape]
      exact congrArg some (Symbol.char.inj hc)
  | mustache e span =>
    rw [nodeCode] at h
    cases h
    obtain ⟨rest, hrest⟩ := hhole (exprCode e)
    exact ⟨_, rest, hrest, fun hs => absurd hs hdollar⟩
  | ifBlock test children alternative span =>
    rw [nodeCode] at h
    obtain ⟨yes, -, h⟩ := bind_eq_ok_iff.1 h
    obtain ⟨no, -, h⟩ := bind_eq_ok_iff.1 h
    cases h
    obtain ⟨rest, hrest⟩ := hhole _
    exact ⟨_, rest, hrest, fun hs => absurd hs hdollar⟩
  | eachBlock iterable item index children span =>
    rw [nodeCode] at h
    obtain ⟨body, -, h⟩ := bind_eq_ok_iff.1 h
    cases h
    obtain ⟨rest, hrest⟩ := hhole _
    exact ⟨_, rest, hrest, fun hs => absurd hs hdollar⟩

/-- Where a node in front of others ends in a dollar sign, the others do not start with a brace. -/
theorem nodesCode_head {config : Config} {n : Node} {rest : List Node} {fragments : List Fragment}
    (hrest : NodesFormed rest) (hseam : Seamless (n :: rest)) (hn : nodeEndsInDollar n = true)
    (h : nodesCode config rest = .ok fragments) :
    (symbolsOf fragments).head? ≠ some (.char '\x7b') := by
  cases rest with
  | nil =>
    rw [nodesCode] at h
    cases h
    intro hhead
    cases hhead
  | cons m rest =>
    rw [nodesCode] at h
    obtain ⟨code, hcode, h⟩ := bind_eq_ok_iff.1 h
    obtain ⟨more, -, h⟩ := bind_eq_ok_iff.1 h
    cases h
    obtain ⟨s, tail, htail, hs⟩ := nodeCode_head hrest.1 hcode
    rw [symbolsOf_append, htail]
    intro hhead
    obtain ⟨data, span, rfl, hdata⟩ := hs (Option.some.inj hhead)
    cases n with
    | text d _ => exact hseam.1 ⟨by simpa [nodeEndsInDollar, endsInDollar] using hn, hdata⟩
    | element | mustache | ifBlock | eachBlock => cases hn

theorem isPlainCode_of_itemParams {item : BlockBinding} {index : Option BlockBinding}
    (hitem : isIdentifier item.name = true) (hindex : ∀ i ∈ index, isIdentifier i.name = true) :
    ∀ c ∈ itemParams item index, isPlainCode c = true := by
  cases index with
  | none => exact isPlainCode_of_isIdentifier hitem
  | some i =>
    rw [itemParams]
    simp only [List.forall_mem_append]
    exact ⟨⟨⟨⟨by decide, isPlainCode_of_isIdentifier hitem⟩, by decide⟩,
      isPlainCode_of_isIdentifier (hindex i rfl)⟩, by decide⟩

/-- The end tag of an element. -/
theorem scans_closingTag {below : List Frame} {name : Text} (hname : TagNamed name) :
    Scans false (.literal :: below) (chars ("</".toList ++ name ++ ">".toList))
      (cooked ("</".toList ++ name ++ ">".toList)) (.literal :: below) := by
  have hverbatim : isVerbatim ("</".toList ++ name ++ ">".toList) = true := by
    refine isVerbatim_append ?_ rfl (by simp)
    exact isVerbatim_cons_iff.2 ⟨rfl, nofun, isVerbatim_cons_iff.2
      ⟨rfl, nofun, isVerbatim_of_tagNamed hname.2⟩⟩
  have hends : endsInDollar ("</".toList ++ name ++ ">".toList) = false := by
    rw [endsInDollar, List.getLast?_append]
    rfl
  have hscan := @scans_verbatim below _ hverbatim
  rw [hends] at hscan
  exact hscan

mutual

/-- The code of a node is read as its atoms. -/
theorem nodeCode_scans {config : Config} {code : Code} :
    (n : Node) → NodeFormed n → (∀ a ∈ nodeAttributes config n, isVerbatim a.name = true) →
      (∀ data ∈ nodeTexts n, '\r' ∉ data) → nodeCode config n = .ok code →
      CodeScans (nodeEndsInDollar n) code (nodeShape config n)
  | .element name attrs children span, hn, hnames, hclean, h => by
    obtain ⟨hname, hattrs, hchildren, hseam, -⟩ := hn
    rw [nodeTexts, List.forall_mem_append] at hclean
    unfold nodeCode at h
    rw [nodeShape]
    split at h
    · rename_i hcomponent
      rw [if_pos hcomponent]
      split at h
      · cases h
        exact fun depth below => scans_componentCode hattrs hclean.1
      · cases h
    · rename_i hcomponent
      rw [if_neg hcomponent]
      rw [nodeAttributes, if_neg hcomponent, List.forall_mem_append] at hnames
      have htag : ∀ below, Scans true (.literal :: below) (symbolsOf (tagCode name attrs))
          (tagAtoms name attrs) (.literal :: below) :=
        fun below => scans_tagCode hname hattrs hnames.1 hclean.1
      have hmark : ∀ below, Scans false (.literal :: below) [.char '>'] [.cooked '>']
          (.literal :: below) := fun below => .single fun _ => rfl
      have hinner : ∀ fragments below, nodesCode config children = .ok fragments →
          Scans true (.literal :: below) (symbolsOf fragments) (nodesAtoms config children)
            (.literal :: below) := fun fragments below hcode =>
        nodesCode_scans below children hchildren hseam hnames.2 hclean.2 hcode
      split at h
      · rename_i hvoid
        rw [if_pos hvoid]
        cases h
        intro below
        rw [symbolsOf_append]
        exact (htag below).append_open (hmark below) (by simp) (.inl (by simp))
      · rename_i hvoid
        rw [if_neg hvoid]
        split at h
        · cases h
          intro below
          have hslash : Scans false (.literal :: below) [.char '/'] [.cooked '/']
              (.literal :: below) := .single fun _ => rfl
          rw [symbolsOf_append]
          exact (htag below).append_open (hslash.append (hmark below)) (by simp) (.inl (by simp))
        · rename_i child more
          obtain ⟨first, hfirst, h⟩ := bind_eq_ok_iff.1 h
          obtain ⟨rest, hrest, h⟩ := bind_eq_ok_iff.1 h
          cases h
          have hcode : nodesCode config (child :: more) = .ok (first.inLiteral ++ rest) := by
            rw [nodesCode]
            exact bind_eq_ok_iff.2 ⟨first, hfirst, bind_eq_ok_iff.2 ⟨rest, hrest, rfl⟩⟩
          intro below
          have hopen := (htag below).append_open (hmark below) (by simp) (.inl (by simp))
          have hclose := @scans_closingTag below name hname
          have hall := (hopen.append (hinner _ below hcode)).append_open hclose (by simp) (.inl (by simp))
          rw [symbolsOf_element]
          exact hall
  | .text data span, hn, hnames, hclean, h => by
    rw [nodeCode] at h
    cases h
    intro below
    have hcode : symbolsOf [.text (escapeLiteral data)] = chars (escapeLiteral data) :=
      List.append_nil _
    rw [hcode]
    exact scans_escapeLiteral (hclean data (List.mem_singleton_self data))
  | .mustache e span, hn, hnames, hclean, h => by
    rw [nodeCode] at h
    cases h
    exact fun depth below => scans_exprCode e
  | .ifBlock test children alternative span, hn, hnames, hclean, h => by
    obtain ⟨hchildren, hseam, halternative⟩ := hn
    rw [nodeTexts, List.forall_mem_append] at hclean
    rw [nodeAttributes, List.forall_mem_append] at hnames
    rw [nodeCode] at h
    obtain ⟨yes, hyes, h⟩ := bind_eq_ok_iff.1 h
    obtain ⟨no, hno, h⟩ := bind_eq_ok_iff.1 h
    cases h
    intro depth below
    have htest := scans_paren (@scans_source depth below test.span)
    have hthen := scans_templateLiteral
      (nodesCode_scans (.code depth :: below) children hchildren hseam hnames.1 hclean.1 hyes)
    have helse := scans_templateLiteral
      (alternativeCode_scans (.code depth :: below) alternative halternative hnames.2 hclean.2 hno)
    have hmark : Scans false (.code depth :: below) (chars " ? ".toList) (coded " ? ".toList)
        (.code depth :: below) := scans_code (by decide)
    have hcolon : Scans false (.code depth :: below) (chars " : ".toList) (coded " : ".toList)
        (.code depth :: below) := scans_code (by decide)
    have hall := (((htest.append hmark).append hthen).append hcolon).append helse
    rw [symbolsOf_conditional]
    exact hall
  | .eachBlock iterable item index children span, hn, hnames, hclean, h => by
    obtain ⟨hitem, hindex, hchildren, hseam⟩ := hn
    rw [nodeCode] at h
    obtain ⟨body, hbody, h⟩ := bind_eq_ok_iff.1 h
    cases h
    intro depth below
    have hmap : Scans false (.code depth :: below)
        (chars (".map( ".toList ++ itemParams item index ++ " => ".toList))
        (coded (".map( ".toList ++ itemParams item index ++ " => ".toList))
        (.code depth :: below) := by
      refine scans_code ?_
      simp only [List.forall_mem_append]
      exact ⟨⟨by decide, isPlainCode_of_itemParams hitem hindex⟩, by decide⟩
    have hliteral := scans_templateLiteral
      (nodesCode_scans (.code depth :: below) children hchildren hseam hnames hclean hbody)
    have hjoin : Scans false (.code depth :: below) (chars " ).join( ".toList)
        (coded " ).join( ".toList) (.code depth :: below) := scans_code (by decide)
    have hend : Scans false (.code depth :: below) (chars " )".toList) (coded " )".toList)
        (.code depth :: below) := scans_code (by decide)
    have hall := (((((scans_iterableCode iterable).append hmap).append hliteral).append hjoin).append
      (scans_quoteString [])).append hend
    rw [symbolsOf_loop]
    exact hall

/-- The code of nodes in a literal is read as their atoms. -/
theorem nodesCode_scans {config : Config} {fragments : List Fragment} (below : List Frame) :
    (nodes : List Node) → NodesFormed nodes → Seamless nodes →
      (∀ a ∈ writtenAttributes config nodes, isVerbatim a.name = true) →
      (∀ data ∈ nodesTexts nodes, '\r' ∉ data) → nodesCode config nodes = .ok fragments →
      Scans true (.literal :: below) (symbolsOf fragments) (nodesAtoms config nodes)
        (.literal :: below)
  | [], hn, hseam, hnames, hclean, h => by
    rw [nodesCode] at h
    cases h
    exact .nil true _
  | n :: rest, hn, hseam, hnames, hclean, h => by
    rw [nodesTexts, List.forall_mem_append] at hclean
    rw [writtenAttributes, List.forall_mem_append] at hnames
    rw [nodesCode] at h
    obtain ⟨code, hcode, h⟩ := bind_eq_ok_iff.1 h
    obtain ⟨more, hmore, h⟩ := bind_eq_ok_iff.1 h
    cases h
    have hfirst := (nodeCode_scans n hn.1 hnames.1 hclean.1 hcode).inLiteral below
    have hrest := nodesCode_scans below rest hn.2 hseam.tail hnames.2 hclean.2 hmore
    rw [symbolsOf_append]
    -- only a text can end in a dollar sign, and then no brace follows
    cases hdollar : nodeEndsInDollar n with
    | false =>
      rw [hdollar] at hfirst
      exact hfirst.append hrest
    | true =>
      rw [hdollar] at hfirst
      exact hfirst.append_open hrest (nodesCode_head hn.2 hseam hdollar hmore) (.inr rfl)

/-- The code of an alternative in a literal is read as its atoms. -/
theorem alternativeCode_scans {config : Config} {fragments : List Fragment} (below : List Frame) :
    (alternative : Option (List Node)) → AlternativeFormed alternative →
      (∀ a ∈ alternativeAttributes config alternative, isVerbatim a.name = true) →
      (∀ data ∈ alternativeTexts alternative, '\r' ∉ data) →
      alternativeCode config alternative = .ok fragments →
      Scans true (.literal :: below) (symbolsOf fragments) (alternativeAtoms config alternative)
        (.literal :: below)
  | none, hn, hnames, hclean, h => by
    rw [alternativeCode] at h
    cases h
    exact .nil true _
  | some nodes, hn, hnames, hclean, h =>
    nodesCode_scans below nodes hn.1 hn.2 hnames hclean h

end

/-! ## Statements -/

/-- The statement that renders a node is read as its atoms. -/
theorem renderBlock_lex {config : Config} {n : Node} {block : List Fragment} (hn : NodeFormed n)
    (hnames : ∀ a ∈ nodeAttributes config n, isVerbatim a.name = true)
    (hclean : ∀ data ∈ nodeTexts n, '\r' ∉ data) (h : renderBlock config n = .ok block) :
    lex block = some (blockAtoms config n) := by
  obtain ⟨code, hcode, h⟩ := bind_eq_ok_iff.1 h
  cases h
  have hstart : Scans false [.code 0] (chars "rendered += ".toList) (coded "rendered += ".toList)
      [.code 0] := scans_code (by decide)
  have hend : Scans false [.code 0] (chars ";".toList) (coded ";".toList) [.code 0] :=
    scans_code (by decide)
  have hvalue := (nodeCode_scans n hn hnames hclean hcode).asExpression 0 []
  refine lex_of_scans ?_
  rw [symbolsOf_statement]
  exact (hstart.append hvalue).append hend

end TemplateCompiler.Emitted
