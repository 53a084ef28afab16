import Mathlib.Data.List.DropRight
import TemplateCompiler.Proofs.Template.Formed
import TemplateCompiler.Proofs.Template.Tiling

/-!
# Rules that every tree keeps

What later stages take for granted about a tree, at any depth of it. Scripts and styles are no
elements, void elements are empty, names are names, the texts of a value are not empty and stand
between expressions. A text that is no comment is a run of the source in which no markup starts, and
it goes on up to the next markup; so where two of them are neighbours, something that is not in the
tree stands between them, and that is a script or a style.

## What this module delivers

* `isComment`, `OpensTag`, `PlainText`: texts that are no comments.
* `AttributeRules`, `BindingRules`, `NodeRules`: the rules for one node.
* `Inner`: the lists of nodes inside of a tree, at any depth.
* `ReadsNodes.rules`, `readTemplate_rules`: trees that are read keep the rules.
-/

set_option autoImplicit false

namespace TemplateCompiler

open Script Text

variable {g : Grammar} {source : Text}

/-! ## Rules -/

/-- Whether the data of a text is a comment. -/
def isComment (data : Text) : Bool :=
  startsWith data "<!--".toList

/-- A tag, a closing tag or a comment starts at the start of a text. -/
inductive OpensTag : Text → Prop where
  | tag {x : Char} {t : Text} (hx : isAsciiLetter x = true) : OpensTag ('<' :: x :: t)
  | closing {t : Text} : OpensTag ('<' :: '/' :: t)
  | comment {t : Text} : OpensTag ('<' :: '!' :: '-' :: '-' :: t)

/-- A text of the source that no mustache and, behind its first character, no tag or comment starts
in. It starts where no markup does and goes on up to the next markup or the end of the source. -/
structure PlainText (source data : Text) (span : Span) : Prop where
  ne_nil : data ≠ []
  braces : ∀ before rest, data ≠ before ++ '\x7b' :: '\x7b' :: rest
  tags : ∀ before rest, before ≠ [] → data = before ++ rest → ¬ OpensTag rest
  bounded : ∃ before after, source = before ++ (data ++ after) ∧ span.start = byteLength before ∧
    span.stop = span.start + byteLength data ∧ startsMarkup (data ++ after) = false ∧
    (startsMarkup after = true ∨ after = [])

/-- An attribute with a name, and with texts in its value that are not empty and do not follow each
other. -/
structure AttributeRules (a : Attribute) : Prop where
  name_ne_nil : a.name ≠ []
  name_chars : ∀ c ∈ a.name, isAttributeNameChar c = true
  texts_ne_nil : ∀ data, .text data ∈ a.value.getD [] → data ≠ []
  separated : Separated (a.value.getD [])

/-- A binding is an identifier, and its span covers exactly its name. -/
structure BindingRules (source : Text) (b : BlockBinding) : Prop where
  identifier : isIdentifier b.name = true
  stands : StandsAt source 0 b.span b.name

/-- The rules for one node, without those for the nodes in it. -/
def NodeRules (source : Text) : Node → Prop
  | .element name attrs children _ =>
    isRawElement name = false ∧ (isVoidElement name = true → children = []) ∧
      ∀ a ∈ attrs, AttributeRules a
  | .text data span => isComment data = false → PlainText source data span
  | .eachBlock _ item index _ _ =>
    BindingRules source item ∧ ∀ b ∈ index, BindingRules source b
  | .mustache _ _ | .ifBlock _ _ _ _ => True

/-- The lists of nodes that a node holds. -/
def Node.bodies : Node → List (List Node)
  | .element _ _ children _ | .eachBlock _ _ _ children _ => [children]
  | .ifBlock _ children alternative _ => children :: alternative.toList
  | .text _ _ | .mustache _ _ => []

/-- Nodes that are the children of some node of a tree, at any depth. -/
inductive Inner : List Node → List Node → Prop where
  | body {nodes body : List Node} {n : Node} (hn : n ∈ nodes) (hbody : body ∈ n.bodies) :
    Inner nodes body
  | deeper {nodes body inner : List Node} {n : Node} (hn : n ∈ nodes) (hbody : body ∈ n.bodies)
    (h : Inner body inner) : Inner nodes inner

/-- A text that is no comment. -/
def Node.isPlainText : Node → Bool
  | .text data _ => !isComment data
  | .element _ _ _ _ | .mustache _ _ | .ifBlock _ _ _ _ | .eachBlock _ _ _ _ _ => false

/-- The children of a node: each keeps its rules, and no two neighbours are plain texts. -/
structure BodyRules (source : Text) (nodes : List Node) : Prop where
  each : ∀ n ∈ nodes, NodeRules source n
  neighbours : ∀ before after a b, nodes = before ++ a :: b :: after →
    ¬(a.isPlainText = true ∧ b.isPlainText = true)

/-- A tree: its nodes keep their rules, and so do the children of every node in it. -/
structure TreeRules (source : Text) (nodes : List Node) : Prop where
  each : ∀ n ∈ nodes, NodeRules source n
  inner : ∀ inner, Inner nodes inner → BodyRules source inner

/-! ## Texts -/

theorem OpensTag.startsMarkup_append {t : Text} (h : OpensTag t) (after : Text) :
    startsMarkup (t ++ after) = true := by
  rw [startsMarkup_iff]
  cases h with
  | tag hx => exact .inr ⟨_, _, rfl, .inl hx⟩
  | closing => exact .inr ⟨_, _, rfl, .inr (.inl rfl)⟩
  | comment => exact .inr ⟨_, _, rfl, .inr (.inr ⟨_, rfl⟩)⟩

/-- No markup starts inside of what is cut off before the first markup. -/
theorem splitText_plain (t : Text) : ∀ x y, (splitText t).1 = x ++ y → y ≠ [] →
    startsMarkup (y ++ (splitText t).2) = false := by
  induction t with
  | nil =>
    intro x y h hy
    exact absurd (List.append_eq_nil_iff.1 h.symm).2 hy
  | cons c t ih =>
    rw [splitText]
    split
    · intro x y h hy
      exact absurd (List.append_eq_nil_iff.1 h.symm).2 hy
    · rename_i hmarkup
      intro x y h hy
      cases x with
      | nil =>
        rw [List.nil_append] at h
        rw [← h, List.cons_append, ← (splitText_eq t).1]
        simpa using hmarkup
      | cons d x => exact ih x y (List.cons.inj h).2 hy

/-! ## Pieces -/

theorem nextPiece_nil {c : Cursor} (h : c.rest = []) :
    nextPiece g c = .ok (.stop .endOfSource, c) := by
  unfold nextPiece
  rw [h]

theorem nextPiece_braces {c : Cursor} {t : Text} (h : c.rest = '\x7b' :: '\x7b' :: t) :
    nextPiece g c = (do
      let (m, after) ← readMustache g c
      return (m.piece, after)) := by
  unfold nextPiece
  rw [h]
  refine congrArg (readMustache g c >>= ·) (funext fun p => ?_)
  obtain ⟨m, after⟩ := p
  cases m <;> rfl

theorem nextPiece_comment {c : Cursor} {t : Text} (h : c.rest = '<' :: '!' :: '-' :: '-' :: t) :
    nextPiece g c =
      match find? "-->".toList c.rest with
      | none => faultAt .unclosedComment c.pos c.stop
      | some (before, rest) =>
        .ok (.text (before ++ "-->".toList), c.skip (before ++ "-->".toList) (rest.drop 3)) := by
  unfold nextPiece
  rw [h]
  rfl

theorem nextPiece_closing {c : Cursor} {t : Text} (h : c.rest = '<' :: '/' :: t) :
    nextPiece g c = (do
      let (name, after) ← closingTag c
      return (.stop (.closingTag name), after)) := by
  simp only [nextPiece, h]

theorem nextPiece_opening {c : Cursor} {x : Char} {t : Text} (h : c.rest = '<' :: x :: t)
    (hx : isAsciiLetter x = true) :
    nextPiece g c = (do
      let opening ← openingTag g c
      return (.opens opening, opening.after)) := by
  unfold nextPiece
  split
  · rename_i hrest
    rw [h] at hrest
    cases hrest
  · rename_i hrest
    rw [h] at hrest
    cases hrest
  · rename_i hrest
    rw [h] at hrest
    cases hrest
    cases hx
  · rename_i hrest
    rw [h] at hrest
    cases hrest
    cases hx
  · rename_i hrest
    rw [h] at hrest
    cases hrest
    rw [if_pos hx]
  · rename_i hrest
    exact absurd h (hrest x t)

/-- Where no markup starts, a text is read. -/
theorem nextPiece_eq_readText {c : Cursor} (hne : c.rest ≠ []) (h : startsMarkup c.rest = false) :
    nextPiece g c = .ok (.text (readText c).1, (readText c).2) := by
  have hnot : ¬ startsMarkup c.rest = true := by simp [h]
  rw [startsMarkup_iff] at hnot
  unfold nextPiece
  split
  · rename_i hrest
    exact absurd hrest hne
  · rename_i hrest
    exact absurd (.inl ⟨_, hrest⟩) hnot
  · rename_i hrest
    exact absurd (.inr ⟨_, _, hrest, .inr (.inr ⟨_, rfl⟩)⟩) hnot
  · rename_i hrest
    exact absurd (.inr ⟨_, _, hrest, .inr (.inl rfl)⟩) hnot
  · rename_i hrest
    split
    · rename_i hletter
      exact absurd (.inr ⟨_, _, hrest, .inl hletter⟩) hnot
    · rfl
  · rfl

/-- What closes a comment may share the dashes of what opens it, but not more. -/
theorem isComment_of_closed {t before more : Text}
    (h : '<' :: '!' :: '-' :: '-' :: t = before ++ ("-->".toList ++ more)) :
    isComment (before ++ "-->".toList) = true := by
  have hopened : "<!--".toList <+: before ++ "-->".toList := by
    have hlen : 2 ≤ before.length := by
      rcases before with - | ⟨x, - | ⟨y, before⟩⟩
      · cases h
      · cases h
      · simp
    have hwhole : "<!--".toList ++ t = (before ++ "-->".toList) ++ more := by
      rw [List.append_assoc, ← h]
      rfl
    refine List.prefix_of_prefix_length_le ⟨t, hwhole⟩ ⟨more, rfl⟩ ?_
    rw [List.length_append]
    exact Nat.add_le_add_right hlen _ |>.trans' (by decide)
  obtain ⟨rest, hrest⟩ := hopened
  exact startsWith_iff.2 ⟨rest, hrest.symm⟩

/-- Where markup starts, only a comment is read as a text. -/
theorem isComment_of_startsMarkup {c after : Cursor} {data : Text}
    (hmarkup : startsMarkup c.rest = true) (h : nextPiece g c = .ok (.text data, after)) :
    isComment data = true := by
  rcases startsMarkup_iff.1 hmarkup with ⟨t, hopen⟩ | ⟨x, t, hopen, hx | rfl | ⟨u, hcomment⟩⟩
  · rw [nextPiece_braces hopen] at h
    obtain ⟨⟨m, after'⟩, -, h⟩ := bind_eq_ok_iff.1 h
    cases m <;> cases h
  · rw [nextPiece_opening hopen hx] at h
    obtain ⟨tag, -, h⟩ := bind_eq_ok_iff.1 h
    cases h
  · rw [nextPiece_closing hopen] at h
    obtain ⟨⟨name, after'⟩, -, h⟩ := bind_eq_ok_iff.1 h
    cases h
  · rw [hcomment] at hopen
    rw [nextPiece_comment hopen] at h
    split at h
    · cases h
    · rename_i before rest hfind
      cases h
      obtain ⟨hrest, hend⟩ := find?_eq_some hfind
      obtain ⟨more, rfl⟩ := startsWith_iff.1 hend
      exact isComment_of_closed (hopen ▸ hrest)

/-- A text that is no comment is the text up to the next markup. -/
theorem plainText_of_nextPiece {c after : Cursor} {data : Text} (hc : c.At source)
    (h : nextPiece g c = .ok (.text data, after)) (hdata : isComment data = false) :
    PlainText source data ⟨c.pos, after.pos⟩ := by
  have hstart : startsMarkup c.rest = false := by
    rw [Bool.eq_false_iff]
    intro hmarkup
    rw [isComment_of_startsMarkup hmarkup h] at hdata
    cases hdata
  obtain ⟨hlead, hne⟩ := nextPiece_text h
  have hrest : c.rest ≠ [] := by
    rw [hlead.1]
    simp [hne]
  rw [nextPiece_eq_readText hrest hstart] at h
  obtain ⟨x, t, hxt⟩ := List.exists_cons_of_ne_nil hrest
  have hread : readText c = (data, after) := by
    cases h
    rfl
  rw [readText, hxt] at hread
  cases hread
  -- No markup starts anywhere in the text: not where it starts, and not behind that.
  have hplain : ∀ before rest, x :: (splitText t).1 = before ++ rest → rest ≠ [] →
      startsMarkup (rest ++ (splitText t).2) = false := by
    intro before rest hsplit hne
    cases before with
    | nil =>
      rw [List.nil_append] at hsplit
      rw [← hsplit]
      exact hlead.1 ▸ hstart
    | cons d before => exact splitText_plain t before rest (List.cons.inj hsplit).2 hne
  refine ⟨hne, fun before rest hsplit => ?_, fun before rest _ hsplit hopens => ?_, ?_⟩
  · have hfalse := hplain before _ hsplit (List.cons_ne_nil _ _)
    exact Bool.eq_false_iff.1 hfalse (startsMarkup_iff.2 (.inl ⟨_, rfl⟩))
  · have hfalse := hplain before rest hsplit (by rintro rfl; cases hopens)
    exact Bool.eq_false_iff.1 hfalse (hopens.startsMarkup_append _)
  · obtain ⟨before, hsource, hpos⟩ := hc
    refine ⟨before, (splitText t).2, hlead.1 ▸ hsource, hpos.symm, hlead.2, ?_, (splitText_eq t).2⟩
    exact hplain [] _ rfl hne

/-- A text that is no comment goes on up to markup, and no such text starts there. -/
theorem PlainText.stop_ne_start {d e : Text} {s t : Span} (h : PlainText source d s)
    (h' : PlainText source e t) : s.stop ≠ t.start := by
  obtain ⟨before, after, hsource, hstart, hstop, -, hnext⟩ := h.bounded
  obtain ⟨before', after', hsource', hstart', -, hplain, -⟩ := h'.bounded
  intro heq
  have hwhole : (before ++ d) ++ after = before' ++ (e ++ after') := by
    rw [List.append_assoc, ← hsource, hsource']
  have hlen : byteLength (before ++ d) = byteLength before' := by
    rw [byteLength_append]
    omega
  obtain ⟨-, rfl⟩ := append_inj_of_byteLength hwhole hlen
  rcases hnext with hmarkup | hnil
  · rw [hplain] at hmarkup
    cases hmarkup
  · exact h'.ne_nil (List.append_eq_nil_iff.1 hnil).1

/-! ## Attributes -/

theorem consPart_texts_ne_nil {parts : List AttributePart} (x : Char)
    (h : ∀ data, .text data ∈ parts → data ≠ []) :
    ∀ data, .text data ∈ consPart x parts → data ≠ [] := by
  intro data hdata
  unfold consPart at hdata
  split at hdata
  · rcases List.mem_cons.1 hdata with heq | hmem
    · cases heq
      exact List.cons_ne_nil _ _
    · exact h data (List.mem_cons_of_mem _ hmem)
  · rcases List.mem_cons.1 hdata with heq | hmem
    · cases heq
      exact List.cons_ne_nil _ _
    · exact h data hmem

theorem ReadsParts.texts_ne_nil {quote : Option Char} {c stop : Cursor}
    {parts : List AttributePart} (h : ReadsParts g quote c parts stop) :
    ∀ data, .text data ∈ parts → data ≠ [] := by
  induction h with
  | stop => exact fun data hdata => nomatch hdata
  | expr _ _ _ _ ih =>
    intro data hdata
    rcases List.mem_cons.1 hdata with heq | hmem
    · cases heq
    · exact ih data hmem
  | char _ _ _ _ ih => exact consPart_texts_ne_nil _ ih

theorem ReadsAttribute.rules {c after : Cursor} {a : Attribute} (h : ReadsAttribute g c a after) :
    AttributeRules a := by
  have hformed := h.formed
  refine ⟨hformed.name_ne_nil, hformed.name_chars, ?_, hformed.separated⟩
  cases h with
  | switch => exact fun data hdata => nomatch hdata
  | valued _ _ _ hvalue =>
    cases hvalue with
    | quoted _ _ hparts _ => exact hparts.texts_ne_nil
    | bare hparts => exact hparts.texts_ne_nil

theorem ReadsAttributes.rules {c stop : Cursor} {attrs : List Attribute}
    (h : ReadsAttributes g c attrs stop) : ∀ a ∈ attrs, AttributeRules a := by
  induction h with
  | stop => exact fun a ha => nomatch ha
  | cons _ ha _ ih =>
    intro b hb
    rcases List.mem_cons.1 hb with rfl | hb
    · exact ha.rules
    · exact ih b hb

theorem nextPiece_attributes {c after : Cursor} {tag : OpeningTag}
    (h : nextPiece g c = .ok (.opens tag, after)) : ∀ a ∈ tag.attributes, AttributeRules a := by
  have hread := nextPiece_read h
  generalize hp : Piece.opens tag = p at hread
  cases hread with
  | opens htag =>
    cases hp
    obtain ⟨-, -, -, hattrs, -⟩ := htag
    exact hattrs.rules
  | @mustache _ _ m _ _ => exact absurd hp.symm (by cases m <;> nofun)
  | endOfSource | comment | closing | text => cases hp

/-! ## Bindings -/

theorem splitOn_ne_nil (sep : Char) (t : Text) : splitOn sep t ≠ [] := by
  cases t with
  | nil => nofun
  | cons c t =>
    rw [splitOn]
    split
    · nofun
    · split <;> nofun

theorem join_cons (sep piece : Text) {pieces : List Text} (h : pieces ≠ []) :
    join sep (piece :: pieces) = piece ++ sep ++ join sep pieces := by
  cases pieces with
  | nil => exact absurd rfl h
  | cons next pieces => rfl

theorem join_splitOn (sep : Char) (t : Text) : join [sep] (splitOn sep t) = t := by
  induction t with
  | nil => rfl
  | cons c t ih =>
    have hne := splitOn_ne_nil sep t
    rw [splitOn]
    split
    · rename_i hc
      rw [join_cons _ _ hne, ih, beq_iff_eq.1 hc]
      rfl
    · split
      · rename_i hnil
        exact absurd hnil hne
      · rename_i piece pieces hpieces
        rw [← ih, hpieces]
        cases pieces with
        | nil => rfl
        | cons next pieces => rfl

/-- What is left of a piece between the blanks at its ends. -/
theorem trim_within {piece rest : Text} {offset : Nat}
    (h : Cursor.Within source ⟨offset, piece ++ rest⟩) :
    StandsAt source 0 ⟨offset + byteLength (piece.takeWhile isBlank),
      offset + byteLength (piece.takeWhile isBlank) + byteLength (trim isBlank piece)⟩
      (trim isBlank piece) := by
  obtain ⟨before, after, hsource, hpos⟩ := h
  obtain ⟨blanks, hblanks⟩ : trim isBlank piece <+: piece.dropWhile isBlank :=
    List.rdropWhile_prefix isBlank _
  have hpiece : piece = piece.takeWhile isBlank ++ (trim isBlank piece ++ blanks) := by
    rw [hblanks, List.takeWhile_append_dropWhile]
  refine ⟨before ++ piece.takeWhile isBlank, blanks ++ rest ++ after, ?_, ?_, rfl⟩
  · rw [hsource]
    nth_rewrite 1 [hpiece]
    simp only [List.append_assoc]
  · rw [byteLength_append, hpos, Nat.zero_add]

/-- The names that the pieces of a header bind stand where their spans tell. -/
theorem bindingsAt_rules {offset : Nat} {pieces : List Text} {bindings : List BlockBinding}
    (hwithin : pieces ≠ [] → Cursor.Within source ⟨offset, join [','] pieces⟩)
    (h : bindingsAt offset pieces = .ok bindings) : ∀ b ∈ bindings, BindingRules source b := by
  induction pieces generalizing offset bindings with
  | nil =>
    cases h
    exact fun b hb => nomatch hb
  | cons piece pieces ih =>
    have hwithin := hwithin (List.cons_ne_nil _ _)
    unfold bindingsAt at h
    dsimp only at h
    split at h
    · rename_i hname
      obtain ⟨rest, hrest, h⟩ := bind_eq_ok_iff.1 h
      cases h
      have hpiece : ∃ more, Cursor.Within source ⟨offset, piece ++ more⟩ := by
        cases pieces with
        | nil => exact ⟨[], by rw [List.append_nil]; exact hwithin⟩
        | cons next pieces => exact ⟨_, by rw [← List.append_assoc]; exact hwithin⟩
      have hpieces : pieces ≠ [] →
          Cursor.Within source ⟨offset + byteLength piece + 1, join [','] pieces⟩ := by
        intro hne
        rw [join_cons _ _ hne] at hwithin
        refine hwithin.of_leads ⟨rfl, ?_⟩
        rw [byteLength_append, Nat.add_assoc]
        rfl
      obtain ⟨more, hpiece⟩ := hpiece
      intro b hb
      rcases List.mem_cons.1 hb with rfl | hb
      · exact ⟨hname, trim_within hpiece⟩
      · exact ih hpieces hrest b hb
    · cases h

theorem eachHeader_bindings {c : Cursor} {iterable : Expr} {item : BlockBinding}
    {index : Option BlockBinding} (hc : c.Within source)
    (h : eachHeader g c = .ok (.opensEach iterable item index)) :
    BindingRules source item ∧ ∀ b ∈ index, BindingRules source b := by
  unfold eachHeader at h
  split at h
  · cases h
  · rename_i before after hsplit
    obtain ⟨iterable', -, h⟩ := bind_eq_ok_iff.1 h
    obtain ⟨bindings, hbindings, h⟩ := bind_eq_ok_iff.1 h
    have hnames : Cursor.Within source ⟨c.pos + byteLength before + 2, after⟩ := by
      have hread : c.Leads (before ++ "as".toList) ⟨c.pos + byteLength before + 2, after⟩ := by
        refine ⟨?_, ?_⟩
        · rw [splitAs?_eq_some hsplit, List.append_assoc]
          rfl
        · rw [byteLength_append, Nat.add_assoc]
          rfl
      exact hc.of_leads hread
    have hrules := bindingsAt_rules (fun _ => by rw [join_splitOn]; exact hnames) hbindings
    split at h
    · cases h
      exact ⟨hrules _ List.mem_cons_self, fun b hb => nomatch hb⟩
    · cases h
      refine ⟨hrules _ List.mem_cons_self, ?_⟩
      rintro b hb
      cases hb
      exact hrules _ (List.mem_cons_of_mem _ List.mem_cons_self)
    · cases h

theorem map_eq_ok_iff {ε α β : Type} {f : α → β} {x : Except ε α} {b : β} :
    f <$> x = .ok b ↔ ∃ a, x = .ok a ∧ b = f a := by
  cases x with
  | error e => exact ⟨nofun, nofun⟩
  | ok a =>
    constructor
    · intro h
      cases h
      exact ⟨a, rfl, rfl⟩
    · rintro ⟨a', ha, rfl⟩
      cases ha
      rfl

/-- What follows the word `else` is a condition at most. -/
theorem alternative?_eq_ok {c : Cursor} {m : Mustache} (h : alternative? g c = some (.ok m)) :
    m = .alternative ∨ ∃ test, m = .alternativeIf test := by
  unfold alternative? at h
  split at h
  · cases h
    exact .inl rfl
  · dsimp only at h
    split at h
    · split at h
      · obtain ⟨test, -, htest⟩ := map_eq_ok_iff.1 (Option.some.inj h)
        exact .inr ⟨test, htest⟩
      · cases h
    · cases h

/-- A mustache that opens an each block has a header at the end of its content. -/
theorem mustacheOf_opensEach {content : Cursor} {start stop : Nat} {iterable : Expr}
    {item : BlockBinding} {index : Option BlockBinding}
    (h : mustacheOf g content start stop = .ok (.opensEach iterable item index)) :
    ∃ read args, content.Leads read args ∧
      eachHeader g args = .ok (.opensEach iterable item index) := by
  obtain ⟨blanks, hblanks⟩ := content.skipBlanks_leads
  unfold mustacheOf at h
  dsimp only at h
  split at h
  · rename_i t hmark
    have hkeyword := Cursor.span_leads ⟨content.skipBlanks.pos + 1, t⟩ isAsciiAlphanumeric
    unfold blockHeader at h
    dsimp only at h
    split at h
    · obtain ⟨test, -, h⟩ := bind_eq_ok_iff.1 h
      cases h
    · split at h
      · exact ⟨_, _, (hblanks.trans (Cursor.leads_char hmark rfl)).trans hkeyword, h⟩
      · cases h
  · cases h
  · split at h
    · rename_i result hresult
      obtain ⟨t, -, halternative⟩ := Option.bind_eq_some_iff.1 hresult
      subst h
      rcases alternative?_eq_ok halternative with heq | ⟨test, heq⟩ <;> cases heq
    · obtain ⟨e, -, h⟩ := bind_eq_ok_iff.1 h
      cases h

theorem nextPiece_bindings {c after : Cursor} {iterable : Expr} {item : BlockBinding}
    {index : Option BlockBinding} (hc : c.At source)
    (h : nextPiece g c = .ok (.opensEach iterable item index, after)) :
    BindingRules source item ∧ ∀ b ∈ index, BindingRules source b := by
  have hread := nextPiece_read h
  generalize hp : Piece.opensEach iterable item index = p at hread
  cases hread with
  | @mustache content _ m hmustache hm =>
    obtain rfl : Mustache.opensEach iterable item index = m := Mustache.piece_injective hp
    obtain ⟨read, args, hlead, hheader⟩ := mustacheOf_opensEach hm
    obtain ⟨before, hsource, hpos⟩ := hc
    have hwithin : c.Within source := ⟨before, [], by rw [List.append_nil]; exact hsource, hpos⟩
    exact eachHeader_bindings ((hmustache.within hwithin).of_leads hlead) hheader
  | endOfSource | comment | closing | opens | text => cases hp

/-! ## Neighbours -/

theorem Tiles.le_start {lo hi : Nat} {spans : List Span} (h : Tiles lo hi spans) :
    ∀ s ∈ spans, lo ≤ s.start := by
  induction spans generalizing lo with
  | nil => exact fun s hs => nomatch hs
  | cons first spans ih =>
    obtain ⟨hstart, hlt, hrest⟩ := h
    intro s hs
    rcases List.mem_cons.1 hs with rfl | hs
    · exact Nat.le_of_eq hstart.symm
    · have hle := ih hrest s hs
      omega

/-- Of two neighbouring nodes the second starts where the first stops, or else a script or style
starts there. -/
theorem Tiles.neighbours {tiles : List Tile} {lo hi : Nat} {before after : List Node} {a b : Node}
    (h : Tiles lo hi (tiles.map Tile.span))
    (hnodes : tiles.flatMap Tile.nodes = before ++ a :: b :: after) :
    a.span.stop = b.span.start ∨ ∃ name extent content, .raw name extent content ∈ tiles ∧
      extent.start = a.span.stop ∧ extent.stop ≤ b.span.start := by
  induction tiles generalizing lo before with
  | nil =>
    cases before with
    | nil => cases hnodes
    | cons => cases hnodes
  | cons tile tiles ih =>
    obtain ⟨-, -, hrest⟩ := h
    -- A tile in front does not matter if both nodes stand behind it.
    have hlater : ∀ before', tiles.flatMap Tile.nodes = before' ++ a :: b :: after →
        a.span.stop = b.span.start ∨ ∃ name extent content,
          .raw name extent content ∈ tile :: tiles ∧ extent.start = a.span.stop ∧
            extent.stop ≤ b.span.start := by
      intro before' hnodes'
      refine (ih hrest hnodes').imp_right ?_
      rintro ⟨name, extent, content, hmem, hends⟩
      exact ⟨name, extent, content, List.mem_cons_of_mem _ hmem, hends⟩
    cases tile with
    | raw name extent content => exact hlater before hnodes
    | node n =>
      cases before with
      | cons x before => exact hlater before (List.cons.inj hnodes).2
      | nil =>
        obtain ⟨rfl, hnext⟩ : n = a ∧ tiles.flatMap Tile.nodes = b :: after :=
          List.cons.inj hnodes
        -- The first node is found: what follows it decides.
        rcases tiles with - | ⟨⟨m⟩ | ⟨name, extent, content⟩, tiles⟩
        · cases hnext
        · cases hnext
          exact .inl hrest.1.symm
        · obtain ⟨hstart, -, hbehind⟩ := hrest
          have hb : b ∈ tiles.flatMap Tile.nodes := by
            have hnext : tiles.flatMap Tile.nodes = b :: after := hnext
            rw [hnext]
            exact List.mem_cons_self
          obtain ⟨tile, htile, hb⟩ := List.mem_flatMap.1 hb
          have hspan : b.span ∈ tiles.map Tile.span := by
            cases tile with
            | node m =>
              rw [List.mem_singleton.1 hb]
              exact List.mem_map_of_mem htile
            | raw => cases hb
          exact .inr ⟨name, extent, content, List.mem_cons_of_mem _ List.mem_cons_self, hstart,
            hbehind.le_start _ hspan⟩

/-- Of two neighbouring plain texts the second does not start where the first stops. -/
theorem stop_ne_start_of_isPlainText {a b : Node} (ha : NodeRules source a)
    (hb : NodeRules source b) (hplain : a.isPlainText = true ∧ b.isPlainText = true) :
    a.span.stop ≠ b.span.start := by
  cases a with
  | text d s =>
    cases b with
    | text e t =>
      have hd : isComment d = false := by simpa [Node.isPlainText] using hplain.1
      have he : isComment e = false := by simpa [Node.isPlainText] using hplain.2
      exact (ha hd).stop_ne_start (hb he)
    | element | mustache | ifBlock | eachBlock => cases hplain.2
  | element | mustache | ifBlock | eachBlock => cases hplain.1

/-! ## Trees -/

namespace TreeRules

theorem nil : TreeRules source [] where
  each := fun _ hn => nomatch hn
  inner := fun _ h => by cases h <;> contradiction

theorem cons {n : Node} {rest : List Node} (hn : NodeRules source n)
    (hbodies : ∀ body ∈ n.bodies, BodyRules source body ∧ TreeRules source body)
    (hrest : TreeRules source rest) : TreeRules source (n :: rest) where
  each := by
    intro m hm
    rcases List.mem_cons.1 hm with rfl | hm
    · exact hn
    · exact hrest.each m hm
  inner := by
    intro inner h
    cases h with
    | body hm hbody =>
      rcases List.mem_cons.1 hm with rfl | hm
      · exact (hbodies _ hbody).1
      · exact hrest.inner inner (.body hm hbody)
    | deeper hm hbody hinner =>
      rcases List.mem_cons.1 hm with rfl | hm
      · exact (hbodies _ hbody).2.inner inner hinner
      · exact hrest.inner inner (.deeper hm hbody hinner)

end TreeRules

/-- Inside of an element or block nothing stands between two neighbours. -/
theorem ReadsNodes.bodyRules {depth : Nat} {found : Found} {c : Cursor} {r : Children}
    (h : ReadsNodes g (depth + 1) found c r) (hc : c.At source)
    (hrules : TreeRules source r.nodes) :
    BodyRules source r.nodes := by
  refine ⟨hrules.each, ?_⟩
  intro before after a b hnodes hplain
  obtain ⟨tiles, htiles⟩ := h.laid hc
  rcases htiles.covers.neighbours (htiles.nodes.symm.trans hnodes) with heq | hraw
  · have ha := hrules.each a (by simp [hnodes])
    have hb := hrules.each b (by simp [hnodes])
    exact stop_ne_start_of_isPlainText ha hb hplain heq
  · obtain ⟨name, extent, content, hmem, -⟩ := hraw
    rw [htiles.inner (Nat.succ_ne_zero _)] at hmem
    obtain ⟨n, -, hn⟩ := List.mem_map.1 hmem
    cases hn

mutual

/-- Nodes that are read keep the rules. -/
theorem ReadsNodes.rules {depth : Nat} {found : Found} {c : Cursor} {r : Children} :
    ReadsNodes g depth found c r → c.At source → TreeRules source r.nodes
  | .stop _, _ => .nil
  | .text h hrest, hc => by
    obtain ⟨hread, -⟩ := nextPiece_text h
    exact .cons (fun hdata => plainText_of_nextPiece hc h hdata) nofun
      (hrest.rules (hc.of_leads hread))
  | .tag h hrest, hc => by
    obtain ⟨read, hread, -⟩ := nextPiece_leads h
    exact .cons trivial nofun (hrest.rules (hc.of_leads hread))
  | .opensIf h hblock hrest, hc => by
    obtain ⟨read, hread, -⟩ := nextPiece_leads h
    have hheader := hc.of_leads hread
    obtain ⟨block, hlead⟩ := hblock.leads
    obtain ⟨hnode, hbodies⟩ := hblock.rules hheader
    exact .cons hnode hbodies (hrest.rules (hheader.of_leads hlead))
  | .opensEach h hbody _ hrest, hc => by
    obtain ⟨read, hread, -⟩ := nextPiece_leads h
    have hheader := hc.of_leads hread
    obtain ⟨inner, hlead⟩ := hbody.leads
    have htree := hbody.rules hheader
    refine .cons (nextPiece_bindings hc h) ?_ (hrest.rules (hheader.of_leads hlead))
    intro body hmem
    rw [List.mem_singleton.1 hmem]
    exact ⟨hbody.bodyRules hheader htree, htree⟩
  | .raw h _ hblock hrest, hc => by
    obtain ⟨read, hread, -⟩ := nextPiece_leads h
    obtain ⟨block, hlead⟩ := rawBlock_leads hblock
    exact hrest.rules (hc.of_leads (hread.trans hlead))
  | .single h hraw _ hrest, hc => by
    obtain ⟨read, hread, -⟩ := nextPiece_leads h
    refine .cons ⟨hraw, fun _ => rfl, nextPiece_attributes h⟩ ?_ (hrest.rules (hc.of_leads hread))
    intro body hmem
    rw [List.mem_singleton.1 hmem]
    exact ⟨⟨nofun, fun before after a b h => by cases before <;> cases h⟩, .nil⟩
  | .element h hraw hsingle hbody _ hrest, hc => by
    obtain ⟨read, hread, -⟩ := nextPiece_leads h
    have htag := hc.of_leads hread
    obtain ⟨inner, hlead⟩ := hbody.leads
    have htree := hbody.rules htag
    have hvoid := (Bool.or_eq_false_iff.1 hsingle).2
    refine .cons ⟨hraw, fun hv => ?_, nextPiece_attributes h⟩ ?_ (hrest.rules (htag.of_leads hlead))
    · rw [hv] at hvoid
      cases hvoid
    · intro body hmem
      rw [List.mem_singleton.1 hmem]
      exact ⟨hbody.bodyRules htag htree, htree⟩

/-- A conditional block that is read keeps the rules, and so do its bodies. -/
theorem ReadsIf.rules {depth start : Nat} {test : Expr} {found found' : Found} {c after : Cursor}
    {node : Node} :
    ReadsIf g depth test start found c node found' after → c.At source →
      NodeRules source node ∧
        ∀ body ∈ node.bodies, BodyRules source body ∧ TreeRules source body
  | .plain hbody _, hc => by
    refine ⟨trivial, ?_⟩
    have htree := hbody.rules hc
    intro body hmem
    rw [List.mem_singleton.1 hmem]
    exact ⟨hbody.bodyRules hc htree, htree⟩
  | .alternative hbody _ hother _, hc => by
    refine ⟨trivial, ?_⟩
    obtain ⟨read, hread⟩ := hbody.leads
    have hc' := hc.of_leads hread
    have htree := hbody.rules hc
    have htree' := hother.rules hc'
    intro body hmem
    rcases List.mem_cons.1 hmem with rfl | hmem
    · exact ⟨hbody.bodyRules hc htree, htree⟩
    · rw [List.mem_singleton.1 hmem]
      exact ⟨hother.bodyRules hc' htree', htree'⟩
  | .alternativeIf hbody _ hnested, hc => by
    refine ⟨trivial, ?_⟩
    obtain ⟨read, hread⟩ := hbody.leads
    have htree := hbody.rules hc
    obtain ⟨hnode, hbodies⟩ := hnested.rules (hc.of_leads hread)
    have htree' := TreeRules.cons hnode hbodies .nil
    intro body hmem
    rcases List.mem_cons.1 hmem with rfl | hmem
    · exact ⟨hbody.bodyRules hc htree, htree⟩
    · rw [List.mem_singleton.1 hmem]
      refine ⟨⟨htree'.each, fun before after a b h => ?_⟩, htree'⟩
      have hlen := congrArg List.length h
      simp only [List.length_append, List.length_cons, List.length_nil] at hlen
      omega

end

/-- Every tree that is read keeps the rules at any depth. No element is a script or a style, void
elements are empty, attributes and bindings have names, the texts of a value are not empty and do
not follow each other, and no markup starts in a text that is no comment. Two such texts are
neighbours at the top level only, and there a script or a style starts where the first of them
stops. -/
theorem readTemplate_rules {t : Template} (h : readTemplate g source = .ok t) :
    (∀ n ∈ t.nodes, NodeRules source n) ∧
      (∀ inner, Inner t.nodes inner → BodyRules source inner) ∧
      ∀ before after a b, t.nodes = before ++ a :: b :: after →
        a.isPlainText = true ∧ b.isPlainText = true →
        ∃ name extent content, TileLaid g source (.raw name extent content) ∧
          extent.start = a.span.stop ∧ extent.stop ≤ b.span.start := by
  obtain ⟨r, hr, -, rfl⟩ := readTemplate_reads h
  have hstart := Cursor.at_start source
  have hrules := hr.rules hstart
  refine ⟨hrules.each, hrules.inner, ?_⟩
  intro before after a b hnodes hplain
  have hnodes : r.nodes = before ++ a :: b :: after := hnodes
  obtain ⟨tiles, htiles⟩ := hr.laid hstart
  rcases htiles.covers.neighbours (htiles.nodes.symm.trans hnodes) with heq | hraw
  · have ha := hrules.each a (by simp [hnodes])
    have hb := hrules.each b (by simp [hnodes])
    exact absurd heq (stop_ne_start_of_isPlainText ha hb hplain)
  · obtain ⟨name, extent, content, hmem, hends⟩ := hraw
    exact ⟨name, extent, content, htiles.laid _ hmem, hends⟩

/-- Two texts with a style between them, a block with two names, and in it a void element with a
value of two texts around an expression, and a comment whose ends share their dashes between two
texts. -/
def interrupted : Text :=
  ("a<STYLE/>b\x7b\x7b#each l as i , j\x7d\x7d<BR class=\"x\x7b\x7by\x7d\x7d \">" ++
    "c < d<!-->e\x7b\x7b/each\x7d\x7d").toList

theorem readTemplate_rules_interrupted : ∃ t, readTemplate .standard interrupted = .ok t ∧
    t.nodes.map Node.span = [⟨0, 1⟩, ⟨9, 10⟩, ⟨10, 70⟩] ∧
    (∀ n ∈ t.nodes, NodeRules interrupted n) ∧
    (∀ inner, Inner t.nodes inner → BodyRules interrupted inner) ∧
    ∀ before after a b, t.nodes = before ++ a :: b :: after →
      a.isPlainText = true ∧ b.isPlainText = true →
      ∃ name extent content, TileLaid .standard interrupted (.raw name extent content) ∧
        extent.start = a.span.stop ∧ extent.stop ≤ b.span.start := by
  have hchars : interrupted = _ := Text.HasChars.append .literal .literal
  have hread : (readTemplate .standard interrupted).toOption.map
      (fun t => t.nodes.map Node.span) = some [⟨0, 1⟩, ⟨9, 10⟩, ⟨10, 70⟩] := by
    rw [hchars]
    decide +kernel
  obtain ⟨t, ht, hspans⟩ := Option.map_eq_some_iff.1 hread
  have ht := toOption_eq_some_iff.1 ht
  exact ⟨t, ht, hspans, readTemplate_rules ht⟩

end TemplateCompiler
