import TemplateCompiler.Proofs.Render.Capture
import TemplateCompiler.Proofs.Script.Headers

/-!
# Seams between generated and given code

The code of a template is put together from generated text and text of the source, and at two places
a token of the generated text depends on what stands next to it. The brace behind the text of a
script closes the function around it only if the text does not end in a line comment. The header of
an each block is a parameter list only if the names in it are names of the script language. Nothing
in a compilation checks either, so a source can compile to code that is no script.

## What this module delivers

* `ScriptSeam`, `HeaderSeam`: how a script and the header of an each block stand in the code.
* `compileWith_seams`: they do in the code of every source that compiles.
* `compile_malformed`: sources that compile to code that is no script.
-/

set_option autoImplicit false

namespace TemplateCompiler

open Script Text

/-- The text in front of a script, which opens a function around it. -/
def scriptOpening : Text := "(function () \x7b".toList

/-- The text behind a script, which ends the function around it and calls it. -/
def scriptClosing : Text := "\x7d());\n\n".toList

/-- How the text of a script stands in the code. It is what the first segment points to, and stands
between the braces of a function, which is not asynchronous. Where only blanks and comments are left
of the text, the next token of sloppy code is the closing brace exactly if they are closed. -/
structure ScriptSeam (span : Span) (out : Composed) (body after : Text) : Prop where
  emitted : ∃ before seg,
    out.code = before ++ (scriptOpening ++ (body ++ (scriptClosing ++ after))) ∧
    out.segments.head? = some seg ∧ seg.source = span ∧
    seg.generated = ⟨byteLength (before ++ scriptOpening),
      byteLength (before ++ scriptOpening) + byteLength body⟩
  closes_iff : ∀ front gap newline newline' pos stop, body = front ++ gap →
    skipGap .module .blank newline pos gap = some (newline', stop, []) →
    ((∃ l, scan .script newline pos (gap ++ (scriptClosing ++ after)) = some l ∧
      l.token = .braceClose ∧ l.start = pos + byteLength gap) ↔ Blanks true gap)

/-- How the header of an each block stands in the code. Its names are distinct, and sloppy code
reads it as the parameters of an arrow function, which bind these names, exactly if each can be
bound. -/
structure HeaderSeam (item : BlockBinding) (index : Option BlockBinding) (code : Text) : Prop where
  distinct : (itemNames item index).Nodup
  emitted : ∃ before after,
    code = before ++ (".map( ".toList ++ (itemParams item index ++ (" => `".toList ++ after)))
  read_eq : ∀ n pos after,
    (run .script pos (itemParams item index ++ (" => `".toList ++ after))
        (arrowHead (level (n + 2)) sloppyContext)).map patsBoundNames =
      if (itemNames item index).all isBindable then some (itemNames item index) else none

/-! ## Composition -/

section Composition

variable {edits : EditBuffer} {starts : Array Nat}

/-- The code of fragments is that of the first of them, and then that of the others. -/
theorem composeFrom_append {offset : Nat} {pos : Position} {fs gs : List Fragment} {out : Composed}
    (h : composeFrom edits starts offset pos (fs ++ gs) = .ok out) :
    ∃ a b, composeFrom edits starts offset pos fs = .ok a ∧
      composeFrom edits starts (offset + byteLength a.code) (pos.advance a.code) gs = .ok b ∧
      out = ⟨a.code ++ b.code, a.segments ++ b.segments⟩ := by
  induction fs generalizing offset pos out with
  | nil => exact ⟨⟨[], []⟩, out, rfl, h, rfl⟩
  | cons f fs ih =>
    cases f with
    | text t =>
      obtain ⟨r, hr, h⟩ := bind_eq_ok_iff.1 h
      obtain ⟨a, b, ha, hb, rfl⟩ := ih hr
      cases h
      refine ⟨⟨t ++ a.code, a.segments⟩, b, ?_, ?_, by rw [List.append_assoc]⟩
      · rw [composeFrom, ha]
        rfl
      · rw [byteLength_append, Position.advance_append, ← Nat.add_assoc]
        exact hb
    | slice range =>
      obtain ⟨t, ht, h⟩ := bind_eq_ok_iff.1 h
      obtain ⟨r, hr, h⟩ := bind_eq_ok_iff.1 h
      obtain ⟨a, b, ha, hb, rfl⟩ := ih hr
      cases h
      refine ⟨⟨t ++ a.code, ⟨⟨offset, offset + byteLength t⟩, range, pos,
        positionAt starts range.start⟩ :: a.segments⟩, b, ?_, ?_, by rw [List.append_assoc]; rfl⟩
      · rw [composeFrom, ht]
        show (composeFrom edits starts _ _ fs >>= _) = _
        rw [ha]
        rfl
      · rw [byteLength_append, Position.advance_append, ← Nat.add_assoc]
        exact hb

/-- Generated text stands in the code as it is. -/
theorem code_of_text_mem {offset : Nat} {pos : Position} {fragments : List Fragment}
    {out : Composed} (h : composeFrom edits starts offset pos fragments = .ok out) {t : Text}
    (ht : .text t ∈ fragments) : ∃ before after, out.code = before ++ (t ++ after) := by
  obtain ⟨fs, gs, rfl⟩ := List.append_of_mem ht
  obtain ⟨a, b, -, hb, rfl⟩ := composeFrom_append h
  obtain ⟨r, -, hb⟩ := bind_eq_ok_iff.1 hb
  cases hb
  exact ⟨a.code, r.code, rfl⟩

/-- Fragments without a range of the source have no segment. -/
theorem segments_eq_nil {offset : Nat} {pos : Position} {fragments : List Fragment}
    {out : Composed} (h : composeFrom edits starts offset pos fragments = .ok out)
    (hspans : spansOf fragments = []) : out.segments = [] := by
  induction fragments generalizing offset pos out with
  | nil =>
    cases h
    rfl
  | cons f rest ih =>
    cases f with
    | text t =>
      obtain ⟨r, hr, h⟩ := bind_eq_ok_iff.1 h
      cases h
      have hnil : r.segments = [] := ih hr hspans
      exact hnil
    | slice range => cases hspans

end Composition

/-! ## Scripts -/

theorem scriptSeam_of_compose {edits : EditBuffer} {script : ComponentScript}
    {rest : List Fragment} {out : Composed}
    (h : compose edits (scriptFragments script ++ rest) = .ok out) :
    ∃ body after, ScriptSeam script.body out body after := by
  rw [compose, scriptFragments, List.append_assoc] at h
  obtain ⟨a, b, ha, hb, rfl⟩ := composeFrom_append h
  have hsegments := segments_eq_nil ha (spansOf_hoistedFragments _)
  -- The function may be assigned to a variable.
  obtain ⟨assigned, hopening⟩ : ∃ v : Text,
      (if script.defaultExport = .missing then "(function () \x7b"
        else "var template = (function () \x7b").toList = v ++ scriptOpening := by
    split
    · exact ⟨[], rfl⟩
    · exact ⟨"var template = ".toList, by decide⟩
  -- The fragments behind the imports: the opening, the text of the script, and its closing.
  obtain ⟨opened, hopened, hb⟩ := bind_eq_ok_iff.1 hb
  cases hb
  obtain ⟨body, -, hopened⟩ := bind_eq_ok_iff.1 hopened
  obtain ⟨closed, hclosed, hopened⟩ := bind_eq_ok_iff.1 hopened
  cases hopened
  obtain ⟨r, -, hclosed⟩ := bind_eq_ok_iff.1 hclosed
  cases hclosed
  refine ⟨body, r.code, ⟨⟨a.code ++ assigned, _, ?_,
    congrArg List.head? (congrArg (· ++ _) hsegments), rfl, ?_⟩, ?_⟩⟩
  · show a.code ++ (_ ++ (body ++ (scriptClosing ++ r.code))) = _
    rw [hopening, List.append_assoc, List.append_assoc]
  · show Span.mk _ _ = _
    rw [hopening, List.append_assoc, byteLength_append a.code, Nat.zero_add]
  · intro front gap newline newline' pos stop hbody hgap
    have hclosing : scriptClosing = '\x7d' :: "());\n\n".toList := by decide
    rw [hclosing, List.cons_append]
    exact scan_brace_iff hgap _

/-! ## Headers -/

/-- The header of an each block is a parameter list if and only if all of its names can be bound. -/
theorem arrowHead_itemParams {item : BlockBinding} {index : Option BlockBinding}
    (hitem : isIdentifier item.name = true) (hindex : ∀ i ∈ index, isIdentifier i.name = true)
    (n pos : Nat) (after : Text) :
    (run .script pos (itemParams item index ++ (" => `".toList ++ after))
        (arrowHead (level (n + 2)) sloppyContext)).map patsBoundNames =
      if (itemNames item index).all isBindable then some (itemNames item index) else none := by
  cases index with
  | none =>
    have hparams : itemParams item none ++ (" => `".toList ++ after) =
        item.name ++ (' ' :: '=' :: '>' :: ' ' :: '\x60' :: after) := by
      simp [itemParams]
    rw [hparams, arrowHead_name hitem]
    cases hbindable : isBindable item.name with
    | true => simp [itemNames, hbindable, patsBoundNames, Pat.boundNames]
    | false => simp [itemNames, hbindable]
  | some index =>
    have hparams : itemParams item (some index) ++ (" => `".toList ++ after) =
        '(' :: ' ' :: (item.name ++ (',' :: ' ' :: (index.name ++
          (' ' :: ')' :: ' ' :: '=' :: '>' :: ' ' :: '\x60' :: after)))) := by
      simp [itemParams]
    rw [hparams, arrowHead_pair hitem (hindex index rfl)]
    cases hbindable : isBindable item.name with
    | true =>
      cases hbindable' : isBindable index.name with
      | true => simp [itemNames, hbindable, hbindable', patsBoundNames, Pat.boundNames]
      | false => simp [itemNames, hbindable, hbindable']
    | false => simp [itemNames, hbindable]

theorem validateBindings_nodup {item : BlockBinding} {index : Option BlockBinding}
    (h : validateBindings item index = .ok ()) : (itemNames item index).Nodup := by
  cases index with
  | none => simp [itemNames]
  | some index =>
    obtain ⟨⟨⟩, -, h⟩ := bind_eq_ok_iff.1 h
    obtain ⟨⟨⟩, -, h⟩ := bind_eq_ok_iff.1 h
    have hne : index.name ≠ item.name := by
      intro heq
      rw [if_pos heq] at h
      cases h
    simpa [itemNames] using hne.symm

/-! ## The nodes of a tree in its code -/

theorem nodesFormed_mem {nodes : List Node} (h : NodesFormed nodes) :
    ∀ n ∈ nodes, NodeFormed n := by
  induction nodes with
  | nil => simp
  | cons n rest ih => exact List.forall_mem_cons.2 ⟨h.1, ih h.2⟩

/-- The bodies of a node have their shape with it. -/
theorem NodeFormed.body {n : Node} (h : NodeFormed n) {bound : List Text} {inner : List Node}
    (hbody : .body bound inner ∈ n.parts) : NodesFormed inner := by
  cases n with
  | element name attributes children span =>
    obtain ⟨-, rfl⟩ := body_mem_element.1 hbody
    exact h.2.2.1
  | text data span => cases hbody
  | mustache e span => simp [Node.parts] at hbody
  | ifBlock test children alternative span =>
    obtain ⟨-, rfl | rfl⟩ := body_mem_ifBlock.1 hbody
    · exact h.1
    · cases alternative with
      | none => trivial
      | some nodes => exact h.2.2.1
  | eachBlock iterable item index children span =>
    obtain ⟨-, rfl⟩ := body_mem_eachBlock.1 hbody
    exact h.2.2.1

variable {config : Config} {all : List Fragment}

/-- The code of a node is among some fragments. -/
def Emits (config : Config) (all : List Fragment) (n : Node) : Prop :=
  ∃ code, nodeCode config n = .ok code ∧ code.fragments ⊆ all

theorem Code.fragments_subset_inLiteral (code : Code) : code.fragments ⊆ code.inLiteral := by
  cases code with
  | expression fragments => simp [Code.inLiteral, hole]
  | literal fragments => simp [Code.inLiteral]

theorem Code.fragments_subset_asExpression (code : Code) : code.fragments ⊆ code.asExpression := by
  cases code with
  | expression fragments => simp [Code.asExpression]
  | literal fragments => simp [Code.asExpression, templateLiteral]

theorem emits_of_nodesCode {nodes : List Node} {fragments : List Fragment}
    (h : nodesCode config nodes = .ok fragments) (hall : fragments ⊆ all) :
    ∀ n ∈ nodes, Emits config all n := by
  induction nodes generalizing fragments with
  | nil => simp
  | cons n rest ih =>
    rw [nodesCode] at h
    obtain ⟨code, hcode, h⟩ := bind_eq_ok_iff.1 h
    obtain ⟨more, hmore, h⟩ := bind_eq_ok_iff.1 h
    cases h
    obtain ⟨hfirst, hrest⟩ := List.append_subset.1 hall
    exact List.forall_mem_cons.2
      ⟨⟨code, hcode, List.Subset.trans code.fragments_subset_inLiteral hfirst⟩, ih hmore hrest⟩

theorem emits_of_renderBlocks {nodes : List Node} {blocks : List (List Fragment)}
    (h : renderBlocks config nodes = .ok blocks) (hall : ∀ block ∈ blocks, block ⊆ all) :
    ∀ n ∈ nodes, Emits config all n := by
  induction nodes generalizing blocks with
  | nil => simp
  | cons n rest ih =>
    rw [renderBlocks, List.mapM_cons] at h
    obtain ⟨block, hblock, h⟩ := bind_eq_ok_iff.1 h
    obtain ⟨more, hmore, h⟩ := bind_eq_ok_iff.1 h
    obtain ⟨code, hcode, hblock⟩ := bind_eq_ok_iff.1 hblock
    cases h
    cases hblock
    obtain ⟨hfirst, hrest⟩ := List.forall_mem_cons.1 hall
    refine List.forall_mem_cons.2 ⟨⟨code, hcode, ?_⟩, ih hmore hrest⟩
    intro f hf
    apply hfirst
    simp [code.fragments_subset_asExpression hf]

/-- What stands in the body of a node is in the code of the node. Elements that emit no children
have none. -/
theorem Emits.body {n : Node} (h : Emits config all n) (hformed : NodeFormed n) {bound : List Text}
    {inner : List Node} (hbody : .body bound inner ∈ n.parts) :
    ∀ m ∈ inner, Emits config all m := by
  obtain ⟨code, hcode, hall⟩ := h
  cases n with
  | element name attributes children span =>
    obtain ⟨-, rfl⟩ := body_mem_element.1 hbody
    cases inner with
    | nil => simp
    | cons child more =>
      have hvoid : isVoidElement name = false := by
        rw [Bool.eq_false_iff]
        intro hvoid
        cases hformed.2.2.2.2 hvoid
      rw [nodeCode, hvoid] at hcode
      split at hcode
      · cases hcode
      · obtain ⟨first, hfirst, hcode⟩ := bind_eq_ok_iff.1 hcode
        obtain ⟨rest, hrest, hcode⟩ := bind_eq_ok_iff.1 hcode
        cases hcode
        have hnodes : nodesCode config (child :: more) = .ok (first.inLiteral ++ rest) := by
          rw [nodesCode, hfirst, hrest]
          rfl
        refine emits_of_nodesCode hnodes (fun f hf => hall ?_)
        simp only [List.mem_append] at hf
        simp only [Code.fragments_literal, List.mem_append, List.mem_cons]
        tauto
  | text data span => cases hbody
  | mustache e span => simp [Node.parts] at hbody
  | ifBlock test children alternative span =>
    rw [nodeCode] at hcode
    obtain ⟨yes, hyes, hcode⟩ := bind_eq_ok_iff.1 hcode
    obtain ⟨no, hno, hcode⟩ := bind_eq_ok_iff.1 hcode
    cases hcode
    obtain ⟨-, rfl | rfl⟩ := body_mem_ifBlock.1 hbody
    · refine emits_of_nodesCode hyes (fun f hf => hall ?_)
      simp [hf]
    · cases alternative with
      | none => simp
      | some nodes =>
        refine emits_of_nodesCode hno (fun f hf => hall ?_)
        simp [hf]
  | eachBlock iterable item index children span =>
    obtain ⟨-, rfl⟩ := body_mem_eachBlock.1 hbody
    rw [nodeCode] at hcode
    obtain ⟨body, hbody, hcode⟩ := bind_eq_ok_iff.1 hcode
    cases hcode
    refine emits_of_nodesCode hbody (fun f hf => hall ?_)
    simp [hf]

/-- What holds of the nodes of a tree, and goes down from a node to its bodies, holds at every
depth. -/
theorem StandsUnder.of_body {P : Node → Prop} {nodes : List Node} {names : List Text} {n : Node}
    (h : StandsUnder nodes names n) (hnodes : ∀ m ∈ nodes, P m)
    (hstep : ∀ m, P m → ∀ bound inner, .body bound inner ∈ m.parts → ∀ k ∈ inner, P k) : P n := by
  induction h with
  | here hn => exact hnodes _ hn
  | inside hn hbody _ ih => exact ih (hstep _ (hnodes _ hn) _ _ hbody)

/-- The header of an each block is among the fragments of its code. -/
theorem Emits.header_mem {iterable : Expr} {item : BlockBinding} {index : Option BlockBinding}
    {children : List Node} {span : Span}
    (h : Emits config all (.eachBlock iterable item index children span)) :
    .text (".map( ".toList ++ itemParams item index ++ " => `".toList) ∈ all := by
  obtain ⟨code, hcode, hall⟩ := h
  rw [nodeCode] at hcode
  obtain ⟨body, -, hcode⟩ := bind_eq_ok_iff.1 hcode
  cases hcode
  apply hall
  simp

/-! ## Compilation -/

theorem validate_of_compileWith {g : Grammar} {source : Text} {out : Composed} {t : Template}
    (h : compileWith g source = .ok out) (ht : readTemplate g source = .ok t) :
    validate t = .ok () := by
  obtain ⟨t', ht', h⟩ := bind_eq_ok_iff.1 h
  obtain ⟨⟨⟩, hvalid, -⟩ := bind_eq_ok_iff.1 h
  cases (ofTemplate_eq_ok ht').symm.trans ht
  exact ofTemplate_eq_ok hvalid

theorem linkTemplateScript_body {t : Template} {block : ScriptBlock}
    (hblock : t.script = some block) {edits edits' : EditBuffer} {script : Option ComponentScript}
    (h : linkTemplateScript t edits = .ok (script, edits')) :
    ∃ s, script = some s ∧ s.body = block.span := by
  rw [linkTemplateScript, hblock] at h
  obtain ⟨⟨s, edits₁⟩, hs, h⟩ := bind_eq_ok_iff.1 h
  cases h
  obtain ⟨⟨imports, edits₂⟩, -, hs⟩ := bind_eq_ok_iff.1 hs
  obtain ⟨⟨defaultExport, config, edits₃⟩, -, hs⟩ := bind_eq_ok_iff.1 hs
  cases hs
  exact ⟨_, rfl, rfl⟩

theorem subset_moduleFragments (script : Option ComponentScript) (blocks : List (List Fragment)) :
    ∀ block ∈ blocks, block ⊆ moduleFragments script blocks := by
  intro block hblock f hf
  have hrender : ∀ hasData, f ∈ renderFunction hasData blocks := by
    intro hasData
    simp only [renderFunction, blockLines, List.mem_cons, List.mem_append, List.mem_flatMap]
    exact .inl (.inr (.inr (.inr ⟨block, hblock, .inl (.inr hf)⟩)))
  cases script with
  | none => exact hrender false
  | some script => exact List.mem_append_right _ (hrender _)

/-- In the code of every source that compiles, a brace stands behind the script, and closes it
exactly if the script does not end in an open line comment; and every each block has its header,
which is a parameter list exactly if its names can be bound. -/
theorem compileWith_seams {g : Grammar} {source : Text} {out : Composed}
    (h : compileWith g source = .ok out) :
    ∃ t, readTemplate g source = .ok t ∧
      (∀ block, t.script = some block → ∃ body after, ScriptSeam block.span out body after) ∧
      ∀ names iterable item index children span,
        StandsUnder t.nodes names (.eachBlock iterable item index children span) →
          HeaderSeam item index out.code := by
  obtain ⟨t, script, edits, blocks, final, ht, hlink, hblocks, -, hout⟩ := compileWith_eq_ok h
  refine ⟨t, ht, ?_, ?_⟩
  · intro block hblock
    obtain ⟨s, rfl, hbody⟩ := linkTemplateScript_body hblock hlink
    rw [← hbody]
    exact scriptSeam_of_compose hout
  · intro names iterable item index children span hstands
    have hvalid := validateNodes_of_validate (validate_of_compileWith h ht)
    have hrules := hstands.of_body
      (P := fun n => NodeFormed n ∧ validateNode n = .ok () ∧ Emits _ _ n)
      (fun m hm => ⟨nodesFormed_mem (readTemplate_formed ht) m hm, validateNodes_mem hvalid m hm,
        emits_of_renderBlocks hblocks (subset_moduleFragments script blocks) m hm⟩)
      (fun m hm bound inner hbody k hk => ⟨nodesFormed_mem (hm.1.body hbody) k hk,
        validateNodes_mem (validateNode_body hm.2.1 hbody).2 k hk, hm.2.2.body hm.1 hbody k hk⟩)
    obtain ⟨hformed, hvalid, hemits⟩ := hrules
    rw [validateNode] at hvalid
    obtain ⟨⟨⟩, hbindings, -⟩ := bind_eq_ok_iff.1 hvalid
    refine ⟨validateBindings_nodup hbindings, ?_, arrowHead_itemParams hformed.1 hformed.2.1⟩
    obtain ⟨before, after, hcode⟩ := code_of_text_mem hout hemits.header_mem
    refine ⟨before, after, ?_⟩
    rw [hcode, List.append_assoc, List.append_assoc]

/-- The names that a node binds, if it is an each block. -/
def Node.eachNames? : Node → Option (List Text)
  | .eachBlock _ item index _ _ => some (itemNames item index)
  | .element .. | .text .. | .mustache .. | .ifBlock .. => none

theorem Node.eq_eachBlock {n : Node} {names : List Text} (h : n.eachNames? = some names) :
    ∃ iterable item index children span, n = .eachBlock iterable item index children span ∧
      itemNames item index = names := by
  cases n with
  | eachBlock iterable item index children span =>
    cases h
    exact ⟨iterable, item, index, children, span, rfl, rfl⟩
  | element | text | mustache | ifBlock => cases h

/-- Whether a part of a node holds an each block that binds some names. -/
def NodePart.holdsEach (names : List Text) : NodePart → Bool
  | .body _ nodes => nodes.any fun n => n.eachNames? == some names
  | .expr _ => false

/-- A script that ends in a line comment and the end of its line, and an each block with two names
around one whose name is a keyword. -/
def commentedRows : Text :=
  ("<script>let n = 1 // rows\n</script>\x7b\x7b#each rows as row, i\x7d\x7d" ++
    "\x7b\x7b#each row as new\x7d\x7dx\x7b\x7b/each\x7d\x7d\x7b\x7b/each\x7d\x7d").toList

theorem compileWith_seams_commentedRows :
    ∃ out t block body after, compileWith .standard commentedRows = .ok out ∧
      readTemplate .standard commentedRows = .ok t ∧ t.script = some block ∧
      ScriptSeam block.span out body after ∧
      (∃ item index, itemNames item index = ["row".toList, "i".toList] ∧
        HeaderSeam item index out.code) ∧
      ∃ item index, itemNames item index = ["new".toList] ∧ HeaderSeam item index out.code := by
  have hchars : commentedRows = _ := Text.HasChars.append .literal .literal
  have hok : (compileWith .standard commentedRows).toOption.isSome = true := by
    rw [hchars]
    decide +kernel
  have hshape : (readTemplate .standard commentedRows).toOption.any (fun t =>
      t.script.isSome && t.nodes.any fun n =>
        n.eachNames? == some ["row".toList, "i".toList] &&
          n.parts.any (NodePart.holdsEach ["new".toList])) = true := by
    rw [hchars]
    decide +kernel
  obtain ⟨out, hout⟩ := Option.isSome_iff_exists.1 hok
  have hout := toOption_eq_some_iff.1 hout
  obtain ⟨t, ht, hscripts, hheaders⟩ := compileWith_seams hout
  rw [toOption_eq_some_iff.2 ht] at hshape
  obtain ⟨hscript, hshape⟩ := Bool.and_eq_true_iff.1 hshape
  obtain ⟨block, hblock⟩ := Option.isSome_iff_exists.1 hscript
  obtain ⟨body, after, hseam⟩ := hscripts block hblock
  obtain ⟨n, hn, hshape⟩ := List.any_eq_true.1 hshape
  obtain ⟨houter, hshape⟩ := Bool.and_eq_true_iff.1 hshape
  obtain ⟨p, hp, hinner⟩ := List.any_eq_true.1 hshape
  refine ⟨out, t, block, body, after, hout, ht, hblock, hseam, ?_, ?_⟩
  · obtain ⟨iterable, item, index, children, span, rfl, hnames⟩ :=
      Node.eq_eachBlock (beq_iff_eq.1 houter)
    exact ⟨item, index, hnames, hheaders _ _ _ _ _ _ (.here hn)⟩
  · cases p with
    | expr e => cases hinner
    | body bound inner =>
      obtain ⟨m, hm, hinner⟩ := List.any_eq_true.1 hinner
      obtain ⟨iterable, item, index, children, span, rfl, hnames⟩ :=
        Node.eq_eachBlock (beq_iff_eq.1 hinner)
      exact ⟨item, index, hnames, hheaders _ _ _ _ _ _ (.inside hn hp (.here hm))⟩

/-! ## Code that is no script -/

/-- The statements of a text that is read as a script in sloppy mode. -/
def readScript (text : Text) : Option (List Stmt) :=
  run .script 0 text
    (Reader.manyUntil .eof ((level (text.length + 2)).statement {} true) (text.length + 1))

/-- Whether a source compiles, and whether its code is a script. -/
def compilesToScript (source : String) : Option Bool :=
  (compile source.toList).toOption.map fun out => (readScript out.code).isSome

/-- A line comment at the end of a script, an `await` that is in no function of the script, and a
keyword that is bound compile to code that is no script. With the end of the line, within an
asynchronous function, and with another name it is one. -/
theorem compile_malformed :
    compilesToScript "<script>//x</script>" = some false ∧
      compilesToScript "<script>//x\n</script>" = some true ∧
      compilesToScript "<script>await x</script>" = some false ∧
      compilesToScript "<script>async () => await x</script>" = some true ∧
      compilesToScript "\x7b\x7b#each xs as class\x7d\x7da\x7b\x7b/each\x7d\x7d" =
        some false ∧
      compilesToScript "\x7b\x7b#each xs as klass\x7d\x7da\x7b\x7b/each\x7d\x7d" =
        some true := by
  refine ⟨?_, ?_, ?_, ?_, ?_, ?_⟩ <;> decide +kernel

end TemplateCompiler
