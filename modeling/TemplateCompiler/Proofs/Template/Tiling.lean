import TemplateCompiler.Proofs.Template.Apart
import TemplateCompiler.Proofs.Template.Layout

/-!
# Reading a template loses nothing

The nodes of a template that is read cover its source, together with the script and the style, and the
children of every element and block cover what stands between its delimiters.

## What this module delivers

* `NodeLaid`, `IfLaid`: nodes that are laid out in a source as their spans say.
* `Tile`, `TileLaid`: what the top level of a source is made of.
* `ReadsNodes.laid`, `ReadsIf.laid`: nodes that are read are laid out so.
* `readTemplate_tiles`: the layout of a whole template.
-/

set_option autoImplicit false

namespace TemplateCompiler

open Script Text

variable {g : Grammar} {source : Text}

/-! ## Nodes -/

mutual

/-- A node at its span, and the nodes in it between its delimiters. -/
inductive NodeLaid (g : Grammar) (source : Text) : Node → Prop where
  | text {data : Text} {span : Span} (h : StandsAt source 0 span data) :
    NodeLaid g source (.text data span)
  | mustache {e : Expr} {span : Span} (h : MustacheLaid g source span (.tag e)) :
    NodeLaid g source (.mustache e span)
  /-- An element that is void or closes itself is no more than its tag. -/
  | single {name : Text} {attrs : List Attribute} {span : Span} {selfClosing : Bool}
    (hsingle : (selfClosing || isVoidElement name) = true)
    (htag : TagLaid g source span name attrs selfClosing) :
    NodeLaid g source (.element name attrs [] span)
  | element {name blanks : Text} {attrs : List Attribute} {children : List Node} {span : Span}
    {lo hi : Nat} (hvoid : isVoidElement name = false)
    (htag : TagLaid g source ⟨span.start, lo⟩ name attrs false)
    (htiles : Tiles lo hi (children.map Node.span))
    (hchildren : ∀ n ∈ children, NodeLaid g source n) (hblanks : Blank blanks)
    (hclose : StandsAt source 0 ⟨hi, span.stop⟩ ("</".toList ++ name ++ blanks ++ ">".toList)) :
    NodeLaid g source (.element name attrs children span)
  | ifBlock {test : Expr} {children : List Node} {alternative : Option (List Node)} {span : Span}
    {lo : Nat} (hheader : MustacheLaid g source ⟨span.start, lo⟩ (.opensIf test))
    (hbody : IfLaid g source lo (.ifBlock test children alternative span)) :
    NodeLaid g source (.ifBlock test children alternative span)
  | eachBlock {iterable : Expr} {item : BlockBinding} {index : Option BlockBinding}
    {children : List Node} {span : Span} {lo hi : Nat}
    (hheader : MustacheLaid g source ⟨span.start, lo⟩ (.opensEach iterable item index))
    (htiles : Tiles lo hi (children.map Node.span))
    (hchildren : ∀ n ∈ children, NodeLaid g source n)
    (hclose : MustacheLaid g source ⟨hi, span.stop⟩ (.closes "each".toList)) :
    NodeLaid g source (.eachBlock iterable item index children span)

/-- A conditional block from the end of its header on. -/
inductive IfLaid (g : Grammar) (source : Text) : Nat → Node → Prop where
  | plain {test : Expr} {children : List Node} {span : Span} {lo hi : Nat}
    (htiles : Tiles lo hi (children.map Node.span))
    (hchildren : ∀ n ∈ children, NodeLaid g source n)
    (hclose : MustacheLaid g source ⟨hi, span.stop⟩ (.closes "if".toList)) :
    IfLaid g source lo (.ifBlock test children none span)
  | alternative {test : Expr} {children other : List Node} {span : Span} {lo hi lo' hi' : Nat}
    (htiles : Tiles lo hi (children.map Node.span))
    (hchildren : ∀ n ∈ children, NodeLaid g source n)
    (helse : MustacheLaid g source ⟨hi, lo'⟩ .alternative)
    (htiles' : Tiles lo' hi' (other.map Node.span))
    (hother : ∀ n ∈ other, NodeLaid g source n)
    (hclose : MustacheLaid g source ⟨hi', span.stop⟩ (.closes "if".toList)) :
    IfLaid g source lo (.ifBlock test children (some other) span)
  /-- A further condition is one block, from its own mustache up to the shared end. -/
  | further {test test' : Expr} {children children' : List Node}
    {alternative' : Option (List Node)} {start stop lo hi lo' : Nat}
    (htiles : Tiles lo hi (children.map Node.span))
    (hchildren : ∀ n ∈ children, NodeLaid g source n)
    (hheader : MustacheLaid g source ⟨hi, lo'⟩ (.alternativeIf test'))
    (hbody : IfLaid g source lo' (.ifBlock test' children' alternative' ⟨hi, stop⟩)) :
    IfLaid g source lo
      (.ifBlock test children (some [.ifBlock test' children' alternative' ⟨hi, stop⟩]) ⟨start, stop⟩)

end

/-! ## The top level -/

/-- What the top level of a source is made of: nodes, and scripts and styles with the span of what
they hold. -/
inductive Tile where
  | node (n : Node)
  | raw (name : Text) (extent content : Span)

namespace Tile

/-- The span of a tile, tags included. -/
def span : Tile → Span
  | .node n => n.span
  | .raw _ extent _ => extent

/-- The nodes among tiles. -/
def nodes : Tile → List Node
  | .node n => [n]
  | .raw .. => []

/-- The contents of the scripts or of the styles among tiles. -/
def contents (kind : Text) : Tile → List Span
  | .node _ => []
  | .raw name _ content => if equalIgnoringCase name kind then [content] else []

end Tile

/-- A tile that is laid out in the source as its spans say. -/
inductive TileLaid (g : Grammar) (source : Text) : Tile → Prop where
  | node {n : Node} (h : NodeLaid g source n) : TileLaid g source (.node n)
  | raw {name text closing : Text} {attrs : List Attribute} {extent content : Span}
    (hname : isRawElement name = true)
    (htag : TagLaid g source ⟨extent.start, content.start⟩ name attrs false)
    (hcontent : StandsAt source 0 content text)
    (hclosing : equalIgnoringCase closing ("</".toList ++ name.map lowerAscii ++ ">".toList) = true)
    (hclose : StandsAt source 0 ⟨content.stop, extent.stop⟩ closing) :
    TileLaid g source (.raw name extent content)
  | rawSingle {name : Text} {attrs : List Attribute} {extent : Span}
    (hname : isRawElement name = true) (htag : TagLaid g source extent name attrs true) :
    TileLaid g source (.raw name extent ⟨extent.stop, extent.stop⟩)

/-! ## Pieces -/

theorem Mustache.piece_injective {m m' : Mustache} (h : m.piece = m'.piece) : m = m' := by
  cases m <;> cases m' <;> cases h <;> rfl

/-- A mustache that is the next piece of a source. -/
theorem nextPiece_mustache {m : Mustache} {c after : Cursor}
    (h : nextPiece g c = .ok (m.piece, after)) (hc : c.At source) :
    MustacheLaid g source ⟨c.pos, after.pos⟩ m := by
  have hread := nextPiece_read h
  generalize hp : m.piece = p at hread
  cases hread with
  | mustache hmustache hm => exact Mustache.piece_injective hp ▸ hmustache.laid hc hm
  | endOfSource | comment | closing | opens | text => cases m <;> cases hp

theorem nextPiece_text {data : Text} {c after : Cursor}
    (h : nextPiece g c = .ok (.text data, after)) : c.Leads data after ∧ data ≠ [] := by
  have hread := nextPiece_read h
  generalize hp : Piece.text data = p at hread
  cases hread with
  | comment hrest =>
    cases hp
    exact ⟨Cursor.skip_leads hrest, by simp⟩
  | text hlead hne =>
    cases hp
    exact ⟨hlead, hne⟩
  | @mustache _ _ m _ _ => exact absurd hp.symm (by cases m <;> nofun)
  | endOfSource | closing | opens => cases hp

/-- An opening tag that is the next piece of a source. -/
theorem nextPiece_opens {tag : OpeningTag} {c after : Cursor}
    (h : nextPiece g c = .ok (.opens tag, after)) (hc : c.At source) :
    TagLaid g source ⟨c.pos, after.pos⟩ tag.name tag.attributes tag.selfClosing := by
  have hread := nextPiece_read h
  generalize hp : Piece.opens tag = p at hread
  cases hread with
  | opens htag =>
    cases hp
    exact htag.laid hc
  | @mustache _ _ m _ _ => exact absurd hp.symm (by cases m <;> nofun)
  | endOfSource | comment | closing | text => cases hp

/-- A closing tag has a name, and blanks behind it. -/
theorem closingTag_blanks {c after : Cursor} {name t : Text} (hopen : c.rest = '<' :: '/' :: t)
    (h : closingTag c = .ok (name, after)) :
    ∃ blanks, Blank blanks ∧ c.Leads ("</".toList ++ name ++ blanks ++ ">".toList) after := by
  simp only [closingTag, hopen, List.drop_succ_cons, List.drop_zero] at h
  have hstart : c.Leads "</".toList ⟨c.pos + 2, t⟩ := Cursor.leads_chars hopen rfl rfl
  have hname := Cursor.span_leads ⟨c.pos + 2, t⟩ isTagNameChar
  obtain ⟨blanks, hblank, hblanks⟩ :=
    (Cursor.span ⟨c.pos + 2, t⟩ isTagNameChar).2.skipBlanks_blank
  split at h
  · cases h
  · rename_i hrest _
    cases h
    exact ⟨blanks, hblank,
      ((hstart.trans hname).trans hblanks).trans (Cursor.leads_char hrest rfl)⟩
  · cases h

theorem nextPiece_closingTag {name : Text} {c after : Cursor}
    (h : nextPiece g c = .ok (.stop (.closingTag name), after)) :
    ∃ blanks, Blank blanks ∧ c.Leads ("</".toList ++ name ++ blanks ++ ">".toList) after := by
  unfold nextPiece at h
  split at h
  · cases h
  · obtain ⟨⟨m, after'⟩, -, h⟩ := bind_eq_ok_iff.1 h
    cases m <;> cases h
  · split at h <;> cases h
  · rename_i hopen
    obtain ⟨⟨name', after'⟩, hclosing, h⟩ := bind_eq_ok_iff.1 h
    cases h
    exact closingTag_blanks hopen hclosing
  · split at h
    · obtain ⟨tag, -, h⟩ := bind_eq_ok_iff.1 h
      cases h
    · cases h
  · cases h

theorem nextPiece_endOfSource {c after : Cursor}
    (h : nextPiece g c = .ok (.stop .endOfSource, after)) : c.rest = [] := by
  have hread := nextPiece_read h
  generalize hp : Piece.stop .endOfSource = p at hread
  cases hread with
  | endOfSource hrest => exact hrest
  | @mustache _ _ m _ _ => exact absurd hp.symm (by cases m <;> nofun)
  | comment | closing | opens | text => cases hp

/-! ## Scripts and styles -/

theorem rawContent_closing {name content : Text} {start : Nat} {selfClosing : Bool}
    {c after : Cursor} (h : rawContent name start selfClosing c = .ok (content, after)) :
    selfClosing = true ∧ content = [] ∧ after = c ∨
      selfClosing = false ∧ ∃ mid closing, c.Leads content mid ∧ mid.Leads closing after ∧
        equalIgnoringCase closing ("</".toList ++ name.map lowerAscii ++ ">".toList) = true := by
  unfold rawContent at h
  split at h
  · rename_i hsingle
    cases h
    exact .inl ⟨hsingle, rfl, rfl⟩
  · rename_i hsingle
    dsimp only at h
    split at h
    · cases h
    · rename_i body rest hfind
      cases h
      obtain ⟨hrest, hclosing⟩ := findIgnoringCase?_eq_some hfind
      refine .inr ⟨by simpa using hsingle, _, _, Cursor.skip_leads hrest, ⟨?_, ?_⟩, hclosing⟩
      · exact (List.take_append_drop ..).symm
      · -- The tag that was found and the one looked for differ in case at most.
        rw [startsWithIgnoringCase, equalIgnoringCase, beq_iff_eq] at hclosing
        have hlen := congrArg byteLength hclosing
        rw [byteLength_map_lowerAscii, byteLength_map_lowerAscii] at hlen
        rw [hlen]
        rfl

/-- A script or style that is read is laid out so, and is recorded as the one of its kind. -/
theorem rawContent_laid {name content : Text} {attrs : List Attribute} {selfClosing : Bool}
    {start : Nat} {c after : Cursor} (hraw : isRawElement name = true)
    (htag : TagLaid g source ⟨start, c.pos⟩ name attrs selfClosing) (hc : c.At source)
    (h : rawContent name start selfClosing c = .ok (content, after)) :
    TileLaid g source (.raw name ⟨start, after.pos⟩ ⟨c.pos, c.pos + byteLength content⟩) := by
  rcases rawContent_closing h with ⟨rfl, rfl, rfl⟩ | ⟨rfl, mid, closing, hmid, hclose, heq⟩
  · exact .rawSingle hraw htag
  · rw [← hmid.2]
    exact .raw hraw htag (hc.standsAt hmid) heq ((hc.of_leads hmid).standsAt hclose)

theorem rawBlock_laid {name : Text} {attrs : List Attribute} {selfClosing : Bool} {start : Nat}
    {found found' : Found} {c after : Cursor} (hraw : isRawElement name = true)
    (htag : TagLaid g source ⟨start, c.pos⟩ name attrs selfClosing) (hc : c.At source)
    (h : rawBlock g name start selfClosing found c = .ok (found', after)) :
    ∃ content, TileLaid g source (.raw name ⟨start, after.pos⟩ content) ∧
      (found'.script.map ScriptBlock.span).toList = (found.script.map ScriptBlock.span).toList ++
        Tile.contents "script".toList (.raw name ⟨start, after.pos⟩ content) ∧
      found'.style.toList = found.style.toList ++
        Tile.contents "style".toList (.raw name ⟨start, after.pos⟩ content) := by
  obtain ⟨⟨content, after'⟩, hcontent, h⟩ := bind_eq_ok_iff.1 h
  have hlaid := rawContent_laid hraw htag hc hcontent
  refine ⟨⟨c.pos, c.pos + byteLength content⟩, ?_⟩
  dsimp only at h
  split at h
  · rename_i hstyle
    split at h
    · cases h
    · rename_i hnone
      cases h
      -- A style is no script, and no style was found before.
      have hscript : equalIgnoringCase name "script".toList = false := by
        rw [equalIgnoringCase, beq_iff_eq] at hstyle
        rw [equalIgnoringCase, hstyle]
        rfl
      rw [Option.not_isSome_iff_eq_none] at hnone
      refine ⟨hlaid, ?_, ?_⟩
      · rw [Tile.contents, hscript, if_neg Bool.false_ne_true, List.append_nil]
      · rw [Tile.contents, if_pos hstyle, hnone]
        rfl
  · rename_i hstyle
    split at h
    · cases h
    · rename_i hnone
      split at h
      · cases h
      · cases h
        -- A raw element that is no style is a script, and no script was found before.
        have hscript : equalIgnoringCase name "script".toList = true := by
          rw [isRawElement, Bool.or_eq_true] at hraw
          exact hraw.resolve_right hstyle
        rw [Option.not_isSome_iff_eq_none] at hnone
        refine ⟨hlaid, ?_, ?_⟩
        · rw [Tile.contents, if_pos hscript, hnone]
          rfl
        · rw [Tile.contents, if_neg hstyle, List.append_nil]

/-! ## Everything that is read -/

/-- Tiles from an offset up to what stops the reading of nodes, with the nodes, the script and the style
that are found there. -/
structure NodesLaid (g : Grammar) (source : Text) (depth : Nat) (found : Found) (lo : Nat)
    (r : Children) (tiles : List Tile) : Prop where
  covers : Tiles lo r.stopStart (tiles.map Tile.span)
  laid : ∀ tile ∈ tiles, TileLaid g source tile
  nodes : r.nodes = tiles.flatMap Tile.nodes
  inner : depth ≠ 0 → tiles = r.nodes.map .node
  scripts : (r.found.script.map ScriptBlock.span).toList =
    (found.script.map ScriptBlock.span).toList ++ tiles.flatMap (Tile.contents "script".toList)
  styles : r.found.style.toList =
    found.style.toList ++ tiles.flatMap (Tile.contents "style".toList)

namespace NodesLaid

variable {depth lo : Nat} {found : Found} {r : Children} {tiles : List Tile}

theorem cons {n : Node} {mid : Nat} (h : NodesLaid g source depth found mid r tiles)
    (hn : NodeLaid g source n) (hspan : n.span = ⟨lo, mid⟩) (hlt : lo < mid) :
    NodesLaid g source depth found lo (r.cons n) (.node n :: tiles) where
  covers := by
    refine ⟨congrArg Span.start hspan, ?_, ?_⟩
    · rw [Tile.span, hspan]
      exact hlt
    · rw [Tile.span, hspan]
      exact h.covers
  laid := by
    intro tile htile
    rcases List.mem_cons.1 htile with rfl | htile
    · exact .node hn
    · exact h.laid tile htile
  nodes := congrArg (n :: ·) h.nodes
  inner := fun hd => congrArg (Tile.node n :: ·) (h.inner hd)
  scripts := h.scripts
  styles := h.styles

theorem raw {name : Text} {content : Span} {mid : Nat} {found' : Found}
    (h : NodesLaid g source 0 found' mid r tiles)
    (hlaid : TileLaid g source (.raw name ⟨lo, mid⟩ content)) (hlt : lo < mid)
    (hscript : (found'.script.map ScriptBlock.span).toList =
      (found.script.map ScriptBlock.span).toList ++
        Tile.contents "script".toList (.raw name ⟨lo, mid⟩ content))
    (hstyle : found'.style.toList =
      found.style.toList ++ Tile.contents "style".toList (.raw name ⟨lo, mid⟩ content)) :
    NodesLaid g source 0 found lo r (.raw name ⟨lo, mid⟩ content :: tiles) where
  covers := ⟨rfl, hlt, h.covers⟩
  laid := by
    intro tile htile
    rcases List.mem_cons.1 htile with rfl | htile
    · exact hlaid
    · exact h.laid tile htile
  nodes := h.nodes
  inner := fun hd => absurd rfl hd
  scripts := by rw [h.scripts, hscript, List.flatMap_cons, List.append_assoc]
  styles := by rw [h.styles, hstyle, List.flatMap_cons, List.append_assoc]

/-- Inside of an element or block there are nodes only. -/
theorem children (h : NodesLaid g source depth found lo r tiles) (hd : depth ≠ 0) :
    Tiles lo r.stopStart (r.nodes.map Node.span) ∧ ∀ n ∈ r.nodes, NodeLaid g source n := by
  obtain rfl := h.inner hd
  refine ⟨?_, ?_⟩
  · have htiles := h.covers
    rw [List.map_map] at htiles
    exact htiles
  · intro n hn
    cases h.laid _ (List.mem_map_of_mem hn) with
    | node hlaid => exact hlaid

end NodesLaid

theorem Cursor.Leads.pos_lt {c c' : Cursor} {read : Text} (h : c.Leads read c') (hne : read ≠ []) :
    c.pos < c'.pos := by
  have hpos := byteLength_pos_of_ne_nil hne
  rw [h.2]
  omega

/-- The mustache that stops the reading of nodes. -/
theorem ReadsNodes.stop_laid {depth : Nat} {found : Found} {c : Cursor} {r : Children}
    {m : Mustache} (h : ReadsNodes g depth found c r) (hc : c.At source)
    (hstop : .stop r.stop = m.piece) :
    MustacheLaid g source ⟨r.stopStart, r.after.pos⟩ m := by
  obtain ⟨read, stopped, hread, hstart, hnext⟩ := h.stops
  rw [hstart]
  rw [hstop] at hnext
  exact nextPiece_mustache hnext (hc.of_leads hread)

/-- The closing tag that stops the reading of nodes. -/
theorem ReadsNodes.closingTag_laid {depth : Nat} {found : Found} {c : Cursor} {r : Children}
    {name : Text} (h : ReadsNodes g depth found c r) (hc : c.At source)
    (hstop : r.stop = .closingTag name) :
    ∃ blanks, Blank blanks ∧ StandsAt source 0 ⟨r.stopStart, r.after.pos⟩
      ("</".toList ++ name ++ blanks ++ ">".toList) := by
  obtain ⟨read, stopped, hread, hstart, hnext⟩ := h.stops
  rw [hstop] at hnext
  obtain ⟨blanks, hblank, hlead⟩ := nextPiece_closingTag hnext
  rw [hstart]
  exact ⟨blanks, hblank, (hc.of_leads hread).standsAt hlead⟩

mutual

/-- Nodes that are read are laid out one behind the other, with the scripts and styles between. -/
theorem ReadsNodes.laid {depth : Nat} {found : Found} {c : Cursor} {r : Children} :
    ReadsNodes g depth found c r → c.At source →
      ∃ tiles, NodesLaid g source depth found c.pos r tiles
  | .stop _, _ =>
    ⟨[], rfl, fun _ htile => (nomatch htile), rfl, fun _ => rfl, by simp, by simp⟩
  | .text h hrest, hc => by
    obtain ⟨hread, hne⟩ := nextPiece_text h
    obtain ⟨tiles, htiles⟩ := hrest.laid (hc.of_leads hread)
    exact ⟨_, htiles.cons (.text (hc.standsAt hread)) rfl (hread.pos_lt hne)⟩
  | .tag h hrest, hc => by
    obtain ⟨read, hread, hne⟩ := nextPiece_leads h
    obtain ⟨tiles, htiles⟩ := hrest.laid (hc.of_leads hread)
    exact ⟨_, htiles.cons (.mustache (nextPiece_mustache h hc)) rfl
      (hread.pos_lt (hne.resolve_left nofun))⟩
  | .opensIf h hblock hrest, hc => by
    obtain ⟨read, hread, hne⟩ := nextPiece_leads h
    have hheader := hc.of_leads hread
    obtain ⟨inner, hlead⟩ := hblock.leads
    obtain ⟨tiles, htiles⟩ := hrest.laid (hheader.of_leads hlead)
    -- A block holds neither script nor style: what was found before is carried past it.
    rw [hblock.found_eq] at htiles
    obtain ⟨children, alternative, rfl, hlaid⟩ := hblock.laid hheader
    exact ⟨_, htiles.cons (.ifBlock (nextPiece_mustache h hc) hlaid) rfl
      (Nat.lt_of_lt_of_le (hread.pos_lt (hne.resolve_left nofun)) hlead.pos_le)⟩
  | .opensEach h hbody hclose hrest, hc => by
    obtain ⟨read, hread, hne⟩ := nextPiece_leads h
    have hheader := hc.of_leads hread
    obtain ⟨inner, hlead⟩ := hbody.leads
    obtain ⟨tiles, htiles⟩ := hrest.laid (hheader.of_leads hlead)
    rw [hbody.found_eq (Nat.succ_ne_zero _)] at htiles
    obtain ⟨bodyTiles, hbodyTiles⟩ := hbody.laid hheader
    obtain ⟨hchildren, hlaid⟩ := hbodyTiles.children (Nat.succ_ne_zero _)
    have hend := hbody.stop_laid (m := .closes "each".toList) hheader (by rw [hclose]; rfl)
    exact ⟨_, htiles.cons (.eachBlock (nextPiece_mustache h hc) hchildren hlaid hend) rfl
      (Nat.lt_of_lt_of_le (hread.pos_lt (hne.resolve_left nofun)) hlead.pos_le)⟩
  | .raw h hraw hblock hrest, hc => by
    obtain ⟨read, hread, hne⟩ := nextPiece_leads h
    obtain ⟨inner, hlead⟩ := rawBlock_leads hblock
    obtain ⟨tiles, htiles⟩ := hrest.laid (hc.of_leads (hread.trans hlead))
    obtain ⟨content, hlaid, hscript, hstyle⟩ :=
      rawBlock_laid hraw (nextPiece_opens h hc) (hc.of_leads hread) hblock
    exact ⟨_, htiles.raw hlaid
      (Nat.lt_of_lt_of_le (hread.pos_lt (hne.resolve_left nofun)) hlead.pos_le) hscript hstyle⟩
  | .single h _ hsingle hrest, hc => by
    obtain ⟨read, hread, hne⟩ := nextPiece_leads h
    obtain ⟨tiles, htiles⟩ := hrest.laid (hc.of_leads hread)
    exact ⟨_, htiles.cons (.single hsingle (nextPiece_opens h hc)) rfl
      (hread.pos_lt (hne.resolve_left nofun))⟩
  | .element h _ hsingle hbody hclose hrest, hc => by
    obtain ⟨read, hread, hne⟩ := nextPiece_leads h
    have hinner := hc.of_leads hread
    obtain ⟨inner, hlead⟩ := hbody.leads
    obtain ⟨tiles, htiles⟩ := hrest.laid (hinner.of_leads hlead)
    rw [hbody.found_eq (Nat.succ_ne_zero _)] at htiles
    obtain ⟨bodyTiles, hbodyTiles⟩ := hbody.laid hinner
    obtain ⟨hchildren, hlaid⟩ := hbodyTiles.children (Nat.succ_ne_zero _)
    obtain ⟨hself, hvoid⟩ := Bool.or_eq_false_iff.1 hsingle
    have hopen := nextPiece_opens h hc
    rw [hself] at hopen
    -- The children end at the closing tag, which is the rest of the element.
    obtain ⟨blanks, hblank, hend⟩ := hbody.closingTag_laid hinner hclose
    exact ⟨_, htiles.cons (.element hvoid hopen hchildren hlaid hblank hend) rfl
      (Nat.lt_of_lt_of_le (hread.pos_lt (hne.resolve_left nofun)) hlead.pos_le)⟩

/-- A conditional block that is read is laid out from its header up to its end. -/
theorem ReadsIf.laid {depth start : Nat} {test : Expr} {found found' : Found} {c after : Cursor}
    {node : Node} :
    ReadsIf g depth test start found c node found' after → c.At source →
      ∃ children alternative, node = .ifBlock test children alternative ⟨start, after.pos⟩ ∧
        IfLaid g source c.pos (.ifBlock test children alternative ⟨start, after.pos⟩)
  | .plain hbody hclose, hc => by
    obtain ⟨tiles, htiles⟩ := hbody.laid hc
    obtain ⟨hchildren, hlaid⟩ := htiles.children (Nat.succ_ne_zero _)
    have hend := hbody.stop_laid (m := .closes "if".toList) hc (by rw [hclose]; rfl)
    exact ⟨_, _, rfl, .plain hchildren hlaid hend⟩
  | .alternative hbody hstop hother hclose, hc => by
    obtain ⟨tiles, htiles⟩ := hbody.laid hc
    obtain ⟨hchildren, hlaid⟩ := htiles.children (Nat.succ_ne_zero _)
    have helse := hbody.stop_laid (m := .alternative) hc (by rw [hstop]; rfl)
    obtain ⟨read, hread⟩ := hbody.leads
    have hc' := hc.of_leads hread
    obtain ⟨tiles', htiles'⟩ := hother.laid hc'
    obtain ⟨hchildren', hlaid'⟩ := htiles'.children (Nat.succ_ne_zero _)
    have hend := hother.stop_laid (m := .closes "if".toList) hc' (by rw [hclose]; rfl)
    exact ⟨_, _, rfl, .alternative hchildren hlaid helse hchildren' hlaid' hend⟩
  | .alternativeIf hbody hstop hnested, hc => by
    rename_i test' _ _
    obtain ⟨tiles, htiles⟩ := hbody.laid hc
    obtain ⟨hchildren, hlaid⟩ := htiles.children (Nat.succ_ne_zero _)
    have hheader := hbody.stop_laid (m := .alternativeIf test') hc (by rw [hstop]; rfl)
    obtain ⟨read, hread⟩ := hbody.leads
    obtain ⟨children', alternative', rfl, hlaid'⟩ := hnested.laid (hc.of_leads hread)
    exact ⟨_, _, rfl, .further hchildren hlaid hheader hlaid'⟩

end

/-- Reading a template loses nothing. Its nodes, its script and its style, tags included, cover the
source one behind the other. The children of each element and block cover what stands between its
delimiters, a text is the text at its span, and the parts of a value, with braces around the
expressions, are the text of the value. -/
theorem readTemplate_tiles {t : Template} (h : readTemplate g source = .ok t) :
    ∃ tiles : List Tile, Tiles 0 (byteLength source) (tiles.map Tile.span) ∧
      (∀ tile ∈ tiles, TileLaid g source tile) ∧ t.nodes = tiles.flatMap Tile.nodes ∧
      (t.script.map ScriptBlock.span).toList = tiles.flatMap (Tile.contents "script".toList) ∧
      t.style.toList = tiles.flatMap (Tile.contents "style".toList) := by
  obtain ⟨r, hr, hstop, rfl⟩ := readTemplate_reads h
  have hstart := Cursor.at_start source
  obtain ⟨tiles, htiles⟩ := hr.laid hstart
  -- Nothing is left of the source where the reading stops.
  have hend : r.stopStart = byteLength source := by
    obtain ⟨read, stopped, hread, hpos, hnext⟩ := hr.stops
    rw [hstop] at hnext
    have hrest := nextPiece_endOfSource hnext
    obtain ⟨before, hsource, hbefore⟩ := hstart.of_leads hread
    rw [hrest, List.append_nil] at hsource
    rw [hpos, hsource, hbefore]
  have hcover := htiles.covers
  rw [hend] at hcover
  exact ⟨tiles, hcover, htiles.laid, htiles.nodes, htiles.scripts, htiles.styles⟩

/-- A script whose closing tag is in upper case, values of all kinds, a block with a further condition and
an alternative in an element with a blank in its closing tag, and a style that closes itself. -/
def closelyPacked : Text :=
  ("<script>\nvar a;\n</SCRIPT>\n<p class=\"x \x7b\x7b y \x7d\x7d\" id=z hidden>" ++
    "\x7b\x7b#if a\x7d\x7db<br>\x7b\x7b else if c \x7d\x7d\x7b\x7bd\x7d\x7d" ++
    "\x7b\x7belse\x7d\x7d<!-- e -->\x7b\x7b/if\x7d\x7d</p\t>" ++
    "\x7b\x7b#each l as i\x7d\x7d<c/>\x7b\x7b/each\x7d\x7d<style/>").toList

theorem readTemplate_tiles_closelyPacked : ∃ t, readTemplate .standard closelyPacked = .ok t ∧
    t.nodes.map Node.span = [⟨25, 26⟩, ⟨26, 123⟩, ⟨123, 152⟩] ∧ t.style = some ⟨160, 160⟩ ∧
    ∃ tiles : List Tile, Tiles 0 (byteLength closelyPacked) (tiles.map Tile.span) ∧
      (∀ tile ∈ tiles, TileLaid .standard closelyPacked tile) ∧
      t.nodes = tiles.flatMap Tile.nodes ∧
      (t.script.map ScriptBlock.span).toList = tiles.flatMap (Tile.contents "script".toList) ∧
      t.style.toList = tiles.flatMap (Tile.contents "style".toList) := by
  have hchars : closelyPacked = _ :=
    Text.HasChars.append (.append (.append .literal .literal) .literal) .literal
  have hread : (readTemplate .standard closelyPacked).toOption.map
      (fun t => (t.nodes.map Node.span, t.style)) =
        some ([⟨25, 26⟩, ⟨26, 123⟩, ⟨123, 152⟩], some ⟨160, 160⟩) := by
    rw [hchars]
    decide +kernel
  obtain ⟨t, ht, hspans⟩ := Option.map_eq_some_iff.1 hread
  obtain ⟨hnodes, hstyle⟩ := Prod.mk.inj hspans
  have ht := toOption_eq_some_iff.1 ht
  exact ⟨t, ht, hnodes, hstyle, readTemplate_tiles ht⟩

end TemplateCompiler
