import TemplateCompiler.Proofs.Template.Expressions

/-!
# How templates are laid out

What a template says about its source: which text stands at the span of a tag, of an attribute, of a
mustache. The rules here speak of spans and of the text at them, not of how it is read.

## What this module delivers

* `Tiles`: spans that cover a range, one behind the other.
* `PartsText`, `ValueLaid`, `AttributesLaid`, `TagLaid`: opening tags.
* `MustacheText`, `MustacheLaid`: mustaches of each kind.
* `ReadsTag.laid`, `mustacheOf_text`: tags and mustaches that are read are laid out by the rules.
-/

set_option autoImplicit false

namespace TemplateCompiler

open Script Text

variable {g : Grammar} {source : Text}

/-! ## Rules -/

/-- Spans that cover the range from `lo` to `hi`, one behind the other, none of them empty. -/
def Tiles (lo hi : Nat) : List Span → Prop
  | [] => lo = hi
  | s :: rest => s.start = lo ∧ lo < s.stop ∧ Tiles s.stop hi rest

/-- A text of blanks. -/
def Blank (t : Text) : Prop :=
  ∀ x ∈ t, isBlank x = true

/-- A content between double braces. -/
def braced (content : Text) : Text :=
  "\x7b\x7b".toList ++ content ++ "\x7d\x7d".toList

/-- The parts of a value one behind the other: texts as they are, and expressions between braces. The
value starts at an offset. -/
inductive PartsText (g : Grammar) : Nat → List AttributePart → Text → Prop where
  | nil {pos : Nat} : PartsText g pos [] []
  | text {pos : Nat} {data raw : Text} {parts : List AttributePart}
    (h : PartsText g (pos + byteLength data) parts raw) :
    PartsText g pos (.text data :: parts) (data ++ raw)
  | expr {pos : Nat} {content raw : Text} {e : Expr} {parts : List AttributePart}
    (he : expressionAt g ⟨pos + 2, content⟩ = .ok e)
    (h : PartsText g (pos + byteLength (braced content)) parts raw) :
    PartsText g pos (.expr e :: parts) (braced content ++ raw)

/-- No text among the parts of a value has a character of a class. -/
def PartsAvoid (p : Char → Prop) (parts : List AttributePart) : Prop :=
  ∀ data, .text data ∈ parts → ∀ x ∈ data, ¬p x

/-- A value at a span: between quotes, or bare up to a blank or the end of its tag. -/
inductive ValueLaid (g : Grammar) (source : Text) (span : Span) (parts : List AttributePart) :
    Prop where
  | quoted {q : Char} {raw : Text} (hquote : q = '"' ∨ q = '\'')
    (hraw : StandsAt source 0 span (q :: raw ++ [q])) (hparts : PartsText g (span.start + 1) parts raw)
    (havoid : PartsAvoid (· = q) parts) : ValueLaid g source span parts
  | bare {raw rest : Text} (hraw : StandsAt source 0 span raw)
    (hparts : PartsText g span.start parts raw)
    (havoid : PartsAvoid (fun x => isBlank x = true ∨ x = '>') parts)
    (hrest : StandsAt source 0 ⟨span.stop, byteLength source⟩ rest)
    (hends : endsValue none rest = true ∨ rest = []) : ValueLaid g source span parts

/-- An attribute at its span: a name, and behind an equals sign a value. -/
inductive AttributeLaid (g : Grammar) (source : Text) : Attribute → Prop where
  | switch {name blanks : Text} {span : Span} (hblanks : Blank blanks)
    (h : StandsAt source 0 span (name ++ blanks)) : AttributeLaid g source ⟨name, none, span⟩
  | valued {name before after : Text} {span : Span} {mid : Nat} {parts : List AttributePart}
    (hbefore : Blank before) (hafter : Blank after)
    (h : StandsAt source 0 ⟨span.start, mid⟩ (name ++ before ++ ['='] ++ after))
    (hvalue : ValueLaid g source ⟨mid, span.stop⟩ parts) :
    AttributeLaid g source ⟨name, some parts, span⟩

/-- Attributes between two offsets, with blanks before each of them and behind the last. -/
inductive AttributesLaid (g : Grammar) (source : Text) : Nat → Nat → List Attribute → Prop where
  | nil {lo hi : Nat} {blanks : Text} (hblanks : Blank blanks)
    (h : StandsAt source 0 ⟨lo, hi⟩ blanks) : AttributesLaid g source lo hi []
  | cons {lo hi : Nat} {blanks : Text} {a : Attribute} {more : List Attribute}
    (hblanks : Blank blanks) (h : StandsAt source 0 ⟨lo, a.span.start⟩ blanks)
    (ha : AttributeLaid g source a) (hmore : AttributesLaid g source a.span.stop hi more) :
    AttributesLaid g source lo hi (a :: more)

/-- An opening tag at a span. -/
structure TagLaid (g : Grammar) (source : Text) (span : Span) (name : Text)
    (attrs : List Attribute) (selfClosing : Bool) : Prop where
  laid : ∃ lo hi, StandsAt source 0 ⟨span.start, lo⟩ ('<' :: name) ∧
    AttributesLaid g source lo hi attrs ∧ StandsAt source 0 ⟨hi, span.stop⟩ (tagEnd selfClosing)

/-- The content of a mustache of each kind, from an offset on. -/
inductive MustacheText (g : Grammar) (pos : Nat) : Text → Mustache → Prop where
  | tag {content : Text} {e : Expr} (he : expressionAt g ⟨pos, content⟩ = .ok e) :
    MustacheText g pos content (.tag e)
  | opensIf {blanks args : Text} {test : Expr} (hblanks : Blank blanks)
    (he : expressionAt g ⟨pos + byteLength (blanks ++ "#if".toList), args⟩ = .ok test) :
    MustacheText g pos (blanks ++ "#if".toList ++ args) (.opensIf test)
  | opensEach {blanks before names : Text} {iterable : Expr} {item : BlockBinding}
    {index : Option BlockBinding} (hblanks : Blank blanks)
    (he : expressionAt g ⟨pos + byteLength (blanks ++ "#each".toList), before⟩ = .ok iterable)
    (hnames : (splitOn ',' names).map (trim isBlank) = itemNames item index) :
    MustacheText g pos (blanks ++ "#each".toList ++ before ++ "as".toList ++ names)
      (.opensEach iterable item index)
  | closes {blanks name : Text} (hblanks : Blank blanks) :
    MustacheText g pos (blanks ++ "/".toList ++ name) (.closes (trim isBlank name))
  | alternative {blanks blanks' : Text} (hblanks : Blank blanks) (hblanks' : Blank blanks') :
    MustacheText g pos (blanks ++ "else".toList ++ blanks') .alternative
  | alternativeIf {blanks blanks' args : Text} {test : Expr} (hblanks : Blank blanks)
    (hblanks' : Blank blanks')
    (he : expressionAt g ⟨pos + byteLength (blanks ++ "else".toList ++ blanks' ++ "if".toList), args⟩ =
      .ok test) :
    MustacheText g pos (blanks ++ "else".toList ++ blanks' ++ "if".toList ++ args)
      (.alternativeIf test)

/-- A mustache at a span. -/
structure MustacheLaid (g : Grammar) (source : Text) (span : Span) (m : Mustache) : Prop where
  laid : ∃ content, StandsAt source 0 span (braced content) ∧
    MustacheText g (span.start + 2) content m

/-! ## Cursors -/

/-- A cursor before all of the source that is still to be read. -/
def Cursor.At (source : Text) (c : Cursor) : Prop :=
  ∃ before, source = before ++ c.rest ∧ byteLength before = c.pos

namespace Cursor

variable {c c' : Cursor} {read : Text}

theorem at_start (source : Text) : Cursor.At source ⟨0, source⟩ :=
  ⟨[], rfl, rfl⟩

theorem At.of_leads (hc : c.At source) (h : c.Leads read c') : c'.At source := by
  obtain ⟨before, hsource, hpos⟩ := hc
  refine ⟨before ++ read, ?_, ?_⟩
  · rw [hsource, h.1, List.append_assoc]
  · rw [byteLength_append, hpos, h.2]

/-- What a cursor reads stands in the source. -/
theorem At.standsAt (hc : c.At source) (h : c.Leads read c') :
    StandsAt source 0 ⟨c.pos, c'.pos⟩ read := by
  obtain ⟨before, hsource, hpos⟩ := hc
  refine ⟨before, c'.rest, ?_, ?_, h.2⟩
  · rw [hsource, h.1, List.append_assoc]
  · rw [Nat.zero_add]
    exact hpos.symm

/-- What a cursor has not read stands up to the end of the source. -/
theorem At.standsAt_rest (hc : c.At source) :
    StandsAt source 0 ⟨c.pos, byteLength source⟩ c.rest := by
  obtain ⟨before, hsource, hpos⟩ := hc
  refine ⟨before, [], ?_, ?_, ?_⟩
  · rw [List.append_nil, hsource]
  · rw [Nat.zero_add]
    exact hpos.symm
  · show byteLength source = c.pos + byteLength c.rest
    rw [hsource, byteLength_append, hpos]

theorem skipBlanks_blank (c : Cursor) : ∃ blanks, Blank blanks ∧ c.Leads blanks c.skipBlanks :=
  ⟨_, c.span_all isBlank, c.span_leads isBlank⟩

end Cursor

/-! ## Tags -/

theorem PartsText.consPart {pos : Nat} {parts : List AttributePart} {raw : Text} (x : Char)
    (h : PartsText g (pos + x.utf8Size) parts raw) :
    PartsText g pos (consPart x parts) (x :: raw) := by
  have hsize : byteLength [x] = x.utf8Size := by
    rw [byteLength_cons, byteLength_nil, Nat.add_zero]
  cases h with
  | nil => exact .text (.nil : PartsText g (pos + byteLength [x]) [] [])
  | @text _ data raw parts h =>
    rw [Nat.add_assoc, ← byteLength_cons] at h
    exact .text h
  | expr he h =>
    rw [← hsize] at he h
    exact .text (.expr he h)

theorem PartsAvoid.consPart {p : Char → Prop} {parts : List AttributePart} {x : Char} (hx : ¬p x)
    (h : PartsAvoid p parts) : PartsAvoid p (consPart x parts) := by
  intro data hdata y hy
  unfold TemplateCompiler.consPart at hdata
  split at hdata
  · rename_i data' parts'
    rcases List.mem_cons.1 hdata with heq | hmem
    · cases heq
      rcases List.mem_cons.1 hy with rfl | hy
      · exact hx
      · exact h data' List.mem_cons_self y hy
    · exact h data (List.mem_cons_of_mem _ hmem) y hy
  · rcases List.mem_cons.1 hdata with heq | hmem
    · cases heq
      rw [List.mem_singleton.1 hy]
      exact hx
    · exact h data hmem y hy

/-- The parts of a value are what is read for it, and a text among them does not reach over its end. -/
theorem ReadsParts.text {quote : Option Char} {c stop : Cursor} {parts : List AttributePart}
    {p : Char → Prop} (hp : ∀ x t, endsValue quote (x :: t) = false → ¬p x)
    (h : ReadsParts g quote c parts stop) :
    ∃ raw, c.Leads raw stop ∧ PartsText g c.pos parts raw ∧ PartsAvoid p parts := by
  induction h with
  | @stop c _ => exact ⟨[], Cursor.Leads.refl c, .nil, fun _ hdata => nomatch hdata⟩
  | @expr c content after stop e parts _ hmustache hexpr _ ih =>
    obtain ⟨raw, hlead, htext, havoid⟩ := ih
    have hbraced : c.Leads (braced content.rest) after := hmustache.leads
    rw [hbraced.2] at htext
    obtain ⟨pos, rest⟩ := content
    cases hmustache.contentPos
    refine ⟨_, hbraced.trans hlead, .expr hexpr htext, ?_⟩
    intro data hdata
    rcases List.mem_cons.1 hdata with heq | hmem
    · cases heq
    · exact havoid data hmem
  | @char c stop x t parts hends hread _ _ ih =>
    obtain ⟨raw, hlead, htext, havoid⟩ := ih
    have hx : c.Leads [x] ⟨c.pos + x.utf8Size, t⟩ := Cursor.skip_leads hread
    rw [hread] at hends
    exact ⟨_, hx.trans hlead, htext.consPart x, havoid.consPart (hp x t hends)⟩

/-- A value that is read is laid out by the rules. -/
theorem ReadsValue.laid {c after : Cursor} {parts : List AttributePart}
    (h : ReadsValue g c parts after) (hc : c.At source) :
    ValueLaid g source ⟨c.pos, after.pos⟩ parts := by
  cases h with
  | @quoted stop q t u _ hopen hquote hparts hclose =>
    have hends : ∀ x t, endsValue (some q) (x :: t) = false → ¬x = q := by
      intro x t hends hx
      simp [endsValue, hx] at hends
    obtain ⟨raw, hlead, htext, havoid⟩ := hparts.text hends
    have hq := utf8Size_quote hquote
    have hread := ((Cursor.leads_char hopen hq).trans hlead).trans (Cursor.leads_char hclose hq)
    exact .quoted hquote (hc.standsAt hread) htext havoid
  | bare hparts =>
    have hends : ∀ x t, endsValue none (x :: t) = false → ¬(isBlank x = true ∨ x = '>') := by
      intro x t hends hx
      rcases hx with hx | rfl
      · simp [endsValue, hx] at hends
      · simp [endsValue] at hends
    obtain ⟨raw, hlead, htext, havoid⟩ := hparts.text hends
    exact .bare (hc.standsAt hlead) htext havoid (hc.of_leads hlead).standsAt_rest
      (hparts.ends.imp_right And.left)

theorem ReadsAttribute.laid {c after : Cursor} {a : Attribute} (h : ReadsAttribute g c a after)
    (hc : c.At source) :
    AttributeLaid g source a ∧ a.span = ⟨c.pos, after.pos⟩ ∧ after.At source := by
  cases h with
  | @switch name afterName hname hne _ =>
    have hlead := c.span_leads isAttributeNameChar
    rw [hname] at hlead
    obtain ⟨blanks, hblank, hblanks⟩ := afterName.skipBlanks_blank
    have hread := hlead.trans hblanks
    exact ⟨.switch hblank (hc.standsAt hread), rfl, hc.of_leads hread⟩
  | @valued name t afterName _ _ hname hne hequals hvalue =>
    have hlead := c.span_leads isAttributeNameChar
    rw [hname] at hlead
    obtain ⟨blanks, hblank, hblanks⟩ := afterName.skipBlanks_blank
    obtain ⟨blanks', hblank', hblanks'⟩ :=
      Cursor.skipBlanks_blank ⟨afterName.skipBlanks.pos + 1, t⟩
    have hread := ((hlead.trans hblanks).trans (Cursor.leads_char hequals rfl)).trans hblanks'
    have hstart := hc.of_leads hread
    obtain ⟨raw, hraw⟩ := hvalue.leads
    exact ⟨.valued hblank hblank' (hc.standsAt hread) (hvalue.laid hstart), rfl,
      hstart.of_leads hraw⟩

/-- Attributes that are read are laid out by the rules. -/
theorem ReadsAttributes.laid {c stop : Cursor} {attrs : List Attribute}
    (h : ReadsAttributes g c attrs stop) (hc : c.At source) :
    AttributesLaid g source c.pos stop.pos attrs ∧ stop.At source := by
  induction h with
  | @stop c _ =>
    obtain ⟨blanks, hblank, hblanks⟩ := c.skipBlanks_blank
    exact ⟨.nil hblank (hc.standsAt hblanks), hc.of_leads hblanks⟩
  | @cons c after stop a more _ ha _ ih =>
    obtain ⟨blanks, hblank, hblanks⟩ := c.skipBlanks_blank
    obtain ⟨hlaid, hspan, hafter⟩ := ha.laid (hc.of_leads hblanks)
    obtain ⟨hmore, hstop⟩ := ih hafter
    have hgap := hc.standsAt hblanks
    refine ⟨.cons hblank ?_ hlaid ?_, hstop⟩
    · rw [hspan]
      exact hgap
    · rw [hspan]
      exact hmore

/-- An opening tag that is read is laid out by the rules. -/
theorem ReadsTag.laid {c : Cursor} {tag : OpeningTag} (h : ReadsTag g c tag) (hc : c.At source) :
    TagLaid g source ⟨c.pos, tag.after.pos⟩ tag.name tag.attributes tag.selfClosing := by
  obtain ⟨hopen, hname, -, hattrs, hend⟩ := h
  rename_i t _ _ _ _ _
  have hlead := Cursor.span_leads ⟨c.pos + 1, t⟩ isTagNameChar
  rw [hname] at hlead
  have hstart := (Cursor.leads_char hopen rfl).trans hlead
  obtain ⟨hlaid, hstop⟩ := hattrs.laid (hc.of_leads hstart)
  exact ⟨_, _, hc.standsAt hstart, hlaid, hstop.standsAt hend⟩

/-! ## Mustaches -/

theorem bindingsAt_names {offset : Nat} {pieces : List Text} {bindings : List BlockBinding}
    (h : bindingsAt offset pieces = .ok bindings) :
    bindings.map BlockBinding.name = pieces.map (trim isBlank) := by
  induction pieces generalizing offset bindings with
  | nil =>
    cases h
    rfl
  | cons piece pieces ih =>
    unfold bindingsAt at h
    dsimp only at h
    split at h
    · obtain ⟨rest, hrest, h⟩ := bind_eq_ok_iff.1 h
      cases h
      rw [List.map_cons, List.map_cons, ih hrest]
    · cases h

/-- The header of an each block has a collection, the word between, and the names. -/
theorem eachHeader_text {blanks : Text} {pos : Nat} {c : Cursor} {m : Mustache}
    (hblanks : Blank blanks) (hpos : c.pos = pos + byteLength (blanks ++ "#each".toList))
    (h : eachHeader g c = .ok m) :
    MustacheText g pos (blanks ++ "#each".toList ++ c.rest) m := by
  obtain ⟨_, rest⟩ := c
  cases hpos
  unfold eachHeader at h
  split at h
  · cases h
  · rename_i before after hsplit
    obtain ⟨iterable, hiterable, h⟩ := bind_eq_ok_iff.1 h
    obtain ⟨bindings, hbindings, h⟩ := bind_eq_ok_iff.1 h
    have hnames := bindingsAt_names hbindings
    have hrest : blanks ++ "#each".toList ++ rest =
        blanks ++ "#each".toList ++ before ++ "as".toList ++ after := by
      have hsplit : rest = before ++ ("as".toList ++ after) := splitAs?_eq_some hsplit
      rw [hsplit]
      simp only [List.append_assoc]
    rw [hrest]
    split at h
    · cases h
      exact .opensEach hblanks hiterable hnames.symm
    · cases h
      exact .opensEach hblanks hiterable hnames.symm
    · cases h

/-- What follows the word `else` in a mustache that is an alternative. -/
theorem alternative?_text {blanks : Text} {pos : Nat} {c : Cursor} {m : Mustache}
    (hblanks : Blank blanks) (hpos : c.pos = pos + byteLength (blanks ++ "else".toList))
    (h : alternative? g c = some (.ok m)) :
    MustacheText g pos (blanks ++ "else".toList ++ c.rest) m := by
  unfold alternative? at h
  split at h
  · rename_i hall
    cases h
    exact .alternative hblanks fun x hx => List.all_eq_true.1 hall x hx
  · dsimp only at h
    split at h
    · rename_i b t hstrip
      split at h
      · obtain ⟨blanks', hblank', hlead⟩ := c.skipBlanks_blank
        -- The test starts behind both words and the blanks before each of them.
        have hword : c.skipBlanks.rest = "if".toList ++ (b :: t) := Text.stripStart?_eq_some hstrip
        have hrest : blanks ++ "else".toList ++ c.rest =
            blanks ++ "else".toList ++ blanks' ++ "if".toList ++ (b :: t) := by
          rw [hlead.1, hword]
          simp only [List.append_assoc]
        have hstart : c.skipBlanks.pos + 2 =
            pos + byteLength (blanks ++ "else".toList ++ blanks' ++ "if".toList) := by
          have hif : byteLength "if".toList = 2 := rfl
          rw [hlead.2, hpos, byteLength_append (blanks ++ "else".toList ++ blanks'),
            byteLength_append (blanks ++ "else".toList), hif]
          omega
        cases he : expressionAt g ⟨c.skipBlanks.pos + 2, b :: t⟩ with
        | error err =>
          rw [he] at h
          cases h
        | ok e =>
          rw [he] at h
          cases h
          rw [hrest]
          rw [hstart] at he
          exact .alternativeIf hblanks hblank' he
      · cases h
    · cases h

/-- A mustache that is read has the content of its kind. -/
theorem blockHeader_text {blanks : Text} {pos : Nat} {c : Cursor} {m : Mustache} {start stop : Nat}
    (hblanks : Blank blanks) (hpos : c.pos = pos + byteLength blanks + 1)
    (h : blockHeader g c start stop = .ok m) : MustacheText g pos (blanks ++ '#' :: c.rest) m := by
  unfold blockHeader at h
  have hlead := Cursor.span_leads c isAsciiAlphanumeric
  generalize Cursor.span c isAsciiAlphanumeric = r at h hlead
  obtain ⟨keyword, args⟩ := r
  dsimp only at h hlead
  have hrest : blanks ++ '#' :: c.rest = blanks ++ ('#' :: keyword) ++ args.rest := by
    rw [hlead.1]
    simp only [List.append_assoc, List.cons_append]
  have hargs : args.pos = pos + byteLength (blanks ++ ('#' :: keyword)) := by
    have hmark : '#'.utf8Size = 1 := by decide
    have hpast : args.pos = c.pos + byteLength keyword := hlead.2
    rw [hpast, hpos, byteLength_append, byteLength_cons, hmark]
    omega
  rw [hrest]
  split at h
  · rename_i hif
    obtain ⟨test, htest, h⟩ := bind_eq_ok_iff.1 h
    cases h
    rw [hif] at hargs ⊢
    refine .opensIf hblanks ?_
    obtain ⟨_, _⟩ := args
    cases hargs
    exact htest
  · split at h
    · rename_i heach
      rw [heach] at hargs ⊢
      exact eachHeader_text hblanks hargs h
    · cases h

theorem mustacheOf_text {content : Cursor} {m : Mustache} {start stop : Nat}
    (h : mustacheOf g content start stop = .ok m) : MustacheText g content.pos content.rest m := by
  obtain ⟨blanks, hblank, hblanks⟩ := content.skipBlanks_blank
  unfold mustacheOf at h
  dsimp only at h
  split at h
  · rename_i t hmark
    rw [hblanks.1, hmark]
    exact blockHeader_text hblank (congrArg (· + 1) hblanks.2) h
  · rename_i t hmark
    cases h
    rw [hblanks.1, hmark, List.append_cons]
    exact .closes hblank
  · split at h
    · rename_i result hresult
      obtain ⟨t, hstrip, halternative⟩ := Option.bind_eq_some_iff.1 hresult
      have hword : content.skipBlanks.rest = "else".toList ++ t := Text.stripStart?_eq_some hstrip
      subst h
      -- A name that merely starts with `else` has no result here and is read as an expression.
      rw [hblanks.1, hword, ← List.append_assoc]
      refine alternative?_text hblank ?_ halternative
      have helse : byteLength "else".toList = 4 := rfl
      show content.skipBlanks.pos + 4 = _
      rw [hblanks.2, byteLength_append, helse]
      omega
    · obtain ⟨e, he, h⟩ := bind_eq_ok_iff.1 h
      cases h
      exact .tag he

/-- A mustache that is read is laid out by the rules. -/
theorem Mustached.laid {c content after : Cursor} {m : Mustache} (h : Mustached c content after)
    (hc : c.At source) (hm : mustacheOf g content c.pos after.pos = .ok m) :
    MustacheLaid g source ⟨c.pos, after.pos⟩ m := by
  have htext := mustacheOf_text hm
  rw [h.contentPos] at htext
  exact ⟨content.rest, hc.standsAt h.leads, htext⟩

end TemplateCompiler
