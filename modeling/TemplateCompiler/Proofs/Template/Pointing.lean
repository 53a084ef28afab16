import TemplateCompiler.Proofs.Component.LiteralSpans
import TemplateCompiler.Proofs.Template.Invariants

/-!
# Failures that point into the source

A failure of a reader comes with a span, and the command prints the place where that span starts.
The readers take their spans from where they are: from a cursor, from what they have read so far,
from the end of the source. Each of these is a place of the source, whatever was read before. The
failures of the grammar of scripts are its own, and are left aside.

The reader of expressions cuts its text at the end of the expression that the grammar found. With a
grammar whose trees stand in their text there is always such a cut, so that no failure is one of a
stray expression.

## What this module delivers

* `PointsInto`: a span that starts at a character of a source and ends inside of it.
* `Misplaced`, `Pointed`: failures that point elsewhere, and computations without them.
* `mustacheOf_pointed`, `attributes_pointed`, `rawBlock_pointed`: the readers of pieces.
* `children_pointed`, `readTemplate_pointed`: the readers of nodes and of whole templates.
* `NeverStray`, `readTemplate_neverStray`: reading never finds an expression outside of its text.
-/

set_option autoImplicit false

namespace TemplateCompiler

open Script Text

variable {g : Grammar} {source : Text}

/-! ## Spans -/

/-- A span that points into a source: it starts on a character boundary and ends inside. -/
structure PointsInto (source : Text) (span : Span) : Prop where
  ordered : span.start ≤ span.stop
  inside : span.stop ≤ byteLength source
  boundary : isBoundary source span.start = true

theorem pointsInto_max {start stop : Nat} (hstart : isBoundary source start = true)
    (hstop : stop ≤ byteLength source) : PointsInto source ⟨start, max start stop⟩ :=
  ⟨Nat.le_max_left _ _, Nat.max_le.2 ⟨le_byteLength_of_isBoundary hstart, hstop⟩, hstart⟩

theorem PointsInto.of_standsAt {span : Span} {body : Text} (h : StandsAt source 0 span body) :
    PointsInto source span := by
  have hinside := h.stop_le
  exact ⟨h.start_le_stop, by omega, h.isBoundary_start⟩

/-- A span that is placed in a part of a source points into the source. -/
theorem PointsInto.of_placed {c : Cursor} {span : Span} (hc : c.Within source)
    (h : Placed c.rest c.pos span) : PointsInto source span := by
  obtain ⟨before, after, rfl, hpos⟩ := hc
  obtain ⟨body, hbody⟩ := h
  rw [← hpos, ← Nat.zero_add (byteLength before)] at hbody
  exact .of_standsAt hbody.inner

namespace Cursor

variable {c : Cursor}

theorem Within.isBoundary_pos (hc : c.Within source) : isBoundary source c.pos = true := by
  obtain ⟨before, after, hsource, hpos⟩ := hc
  exact isBoundary_iff.2 ⟨before, c.rest ++ after, by rw [hsource, List.append_assoc], hpos⟩

theorem Within.stop_le (hc : c.Within source) : c.stop ≤ byteLength source := by
  obtain ⟨before, after, rfl, hpos⟩ := hc
  rw [Cursor.stop, byteLength_append, byteLength_append]
  omega

theorem At.within (hc : c.At source) : c.Within source := by
  obtain ⟨before, hsource, hpos⟩ := hc
  exact ⟨before, [], by rw [List.append_nil, hsource], hpos⟩

theorem Within.pos_le (hc : c.Within source) : c.pos ≤ byteLength source :=
  le_byteLength_of_isBoundary hc.isBoundary_pos

end Cursor

/-! ## Failures -/

/-- A failure that does not point into the source, although the grammar places its spans and the
failure is not one of the grammar; or one of a stray expression, although the trees of the grammar
stand in their text. -/
def Misplaced (g : Grammar) (source : Text) (e : TemplateError) : Prop :=
  (g.PlacesSpans ∧ e.fault ≠ .malformedScript ∧ ¬ PointsInto source e.span) ∨
    (g.Sound ∧ e.fault = .strayExpression)

/-- A computation whose failures are not misplaced. -/
def Pointed {α : Type} (g : Grammar) (source : Text) (x : Except TemplateError α) : Prop :=
  Settles (Misplaced g source) (fun _ => True) x

namespace Pointed

variable {α β : Type} {x : Except TemplateError α}

theorem ok (a : α) : Pointed g source (.ok a) :=
  trivial

theorem faultAt {fault : TemplateFault} {start stop : Nat} (hstart : isBoundary source start = true)
    (hstop : stop ≤ byteLength source) (hfault : fault = .strayExpression → ¬ g.Sound) :
    Pointed g source (faultAt fault start stop : Except TemplateError α) := by
  rintro (⟨-, -, hnot⟩ | ⟨hg, hstray⟩)
  · exact hnot (pointsInto_max hstart hstop)
  · exact hfault hstray hg

/-- A failure that concerns all of what a cursor has in front of it. -/
theorem faultAt_cursor {fault : TemplateFault} {c : Cursor} (hc : c.Within source)
    (hfault : fault = .strayExpression → ¬ g.Sound) :
    Pointed g source (TemplateCompiler.faultAt fault c.pos c.stop : Except TemplateError α) :=
  .faultAt hc.isBoundary_pos hc.stop_le hfault

theorem malformed {start stop : Nat} : Pointed g source
    (TemplateCompiler.faultAt .malformedScript start stop : Except TemplateError α) := by
  rintro (⟨-, hmalformed, -⟩ | ⟨-, hstray⟩)
  · exact hmalformed rfl
  · cases hstray

theorem bind {f : α → Except TemplateError β} (hx : Pointed g source x)
    (hf : ∀ a, x = .ok a → Pointed g source (f a)) : Pointed g source (x >>= f) :=
  hx.and_ok.bind fun a ha => hf a ha.1

theorem map (f : α → β) (hx : Pointed g source x) : Pointed g source (f <$> x) := by
  cases x with
  | error e => exact hx
  | ok a => trivial

end Pointed

/-! ## Mustaches -/

theorem takeMustache_pointed {c : Cursor} (hc : c.Within source) :
    Pointed g source (takeMustache c) := by
  unfold takeMustache
  split
  · exact .faultAt_cursor hc (by simp)
  · exact .ok _

/-- What follows an expression starts where the grammar ended the expression, which is a place to cut
the text at if the expression stands in it. -/
theorem expressionAt_pointed {c : Cursor} (hc : c.Within source) :
    Pointed g source (expressionAt g c) := by
  unfold expressionAt
  split
  · exact .malformed
  · rename_i e he
    have hcut : g.Sound → c.pos ≤ e.span.stop ∧
        ∃ after, Text.drop? (e.span.stop - c.pos) c.rest = some after := by
      intro hg
      obtain ⟨body, before, after, hrest, hstart, hstop⟩ := (hg.expression _ _ _ he).span
      refine ⟨by omega, after, Text.drop?_eq_some_iff.2 ⟨before ++ body, hrest, ?_⟩⟩
      rw [Text.byteLength_append]
      omega
    split
    · rename_i hlt
      exact .faultAt_cursor hc fun _ hg => Nat.not_le_of_lt hlt (hcut hg).1
    · split
      · rename_i hnone
        refine .faultAt_cursor hc fun _ hg => ?_
        obtain ⟨after, hafter⟩ := (hcut hg).2
        rw [hnone] at hafter
        cases hafter
      · split
        · exact .ok e
        · rintro (⟨hg, -, hnot⟩ | ⟨-, hstray⟩)
          · obtain ⟨body, hbody⟩ := hg.expression _ _ _ he
            obtain ⟨before, after, rfl, hpos⟩ := hc
            rw [← hpos, ← Nat.zero_add (byteLength before)] at hbody
            apply hnot
            apply pointsInto_max hbody.inner.isBoundary_stop
            exact Cursor.Within.stop_le ⟨before, after, rfl, hpos⟩
          · cases hstray

/-- A name that is none is reported without the blanks around it. -/
theorem bindingsAt_pointed {offset : Nat} {pieces : List Text}
    (hwithin : pieces ≠ [] → Cursor.Within source ⟨offset, join [','] pieces⟩) :
    Pointed g source (bindingsAt offset pieces) := by
  induction pieces generalizing offset with
  | nil => exact .ok _
  | cons piece pieces ih =>
    have hwithin := hwithin (List.cons_ne_nil _ _)
    unfold bindingsAt
    dsimp only
    split
    · apply Pointed.bind
      · apply ih
        intro hne
        rw [join_cons _ _ hne] at hwithin
        refine hwithin.of_leads ⟨rfl, ?_⟩
        rw [byteLength_append, Nat.add_assoc]
        rfl
      · intro rest _
        exact .ok _
    · have hpiece : ∃ more, Cursor.Within source ⟨offset, piece ++ more⟩ := by
        cases pieces with
        | nil => exact ⟨[], by rw [List.append_nil]; exact hwithin⟩
        | cons next pieces => exact ⟨_, by rw [← List.append_assoc]; exact hwithin⟩
      obtain ⟨more, hpiece⟩ := hpiece
      have hname := PointsInto.of_standsAt (trim_within hpiece)
      exact .faultAt hname.boundary hname.inside (by simp)

theorem eachHeader_pointed {c : Cursor} (hc : c.Within source) :
    Pointed g source (eachHeader g c) := by
  unfold eachHeader
  split
  · exact .faultAt_cursor hc (by simp)
  · rename_i before after hsplit
    have hrest := splitAs?_eq_some hsplit
    have hbefore : Cursor.Within source ⟨c.pos, before⟩ := by
      have hwhole : Cursor.Within source ⟨c.pos, before ++ 'a' :: 's' :: after⟩ := by
        rw [← hrest]
        exact hc
      exact hwhole.of_append
    have hafter : Cursor.Within source ⟨c.pos + byteLength before + 2, after⟩ := by
      have hlead : c.Leads (before ++ ['a', 's']) ⟨c.pos + byteLength before + 2, after⟩ := by
        refine ⟨by rw [hrest, List.append_assoc]; rfl, ?_⟩
        rw [byteLength_append, Nat.add_assoc]
        rfl
      exact hc.of_leads hlead
    refine .bind (expressionAt_pointed hbefore) fun iterable _ => ?_
    refine .bind (bindingsAt_pointed fun _ => by rw [join_splitOn]; exact hafter)
      fun bindings _ => ?_
    split
    · exact .ok _
    · exact .ok _
    · exact .faultAt_cursor hc (by simp)

theorem blockHeader_pointed {c : Cursor} {start stop : Nat} (hc : c.Within source)
    (hstart : isBoundary source start = true) (hstop : stop ≤ byteLength source) :
    Pointed g source (blockHeader g c start stop) := by
  have hargs := hc.of_leads (c.span_leads isAsciiAlphanumeric)
  unfold blockHeader
  dsimp only
  split
  · exact .bind (expressionAt_pointed hargs) fun test _ => .ok _
  · split
    · exact eachHeader_pointed hargs
    · exact .faultAt hstart hstop (by simp)

theorem alternative?_pointed {c : Cursor} {result : Except TemplateError Mustache}
    (hc : c.Within source) (h : alternative? g c = some result) : Pointed g source result := by
  obtain ⟨blanks, hblanks⟩ := c.skipBlanks_leads
  unfold alternative? at h
  split at h
  · cases h
    exact .ok _
  · dsimp only at h
    split at h
    · rename_i b t hstrip
      split at h
      · cases h
        have htest : c.skipBlanks.Leads "if".toList ⟨c.skipBlanks.pos + 2, b :: t⟩ :=
          ⟨Text.stripStart?_eq_some hstrip, rfl⟩
        exact .map _ (expressionAt_pointed ((hc.of_leads hblanks).of_leads htest))
      · cases h
    · cases h

theorem mustacheOf_pointed {content : Cursor} {start stop : Nat} (hc : content.Within source)
    (hstart : isBoundary source start = true) (hstop : stop ≤ byteLength source) :
    Pointed g source (mustacheOf g content start stop) := by
  obtain ⟨blanks, hblanks⟩ := content.skipBlanks_leads
  have hinner := hc.of_leads hblanks
  unfold mustacheOf
  dsimp only
  split
  · rename_i t hmark
    exact blockHeader_pointed (hinner.of_leads (Cursor.leads_char hmark rfl)) hstart hstop
  · exact .ok _
  · split
    · rename_i result hresult
      obtain ⟨t, hstrip, halternative⟩ := Option.bind_eq_some_iff.1 hresult
      have helse : content.skipBlanks.Leads "else".toList ⟨content.skipBlanks.pos + 4, t⟩ :=
        ⟨Text.stripStart?_eq_some hstrip, rfl⟩
      exact alternative?_pointed (hinner.of_leads helse) halternative
    · exact .bind (expressionAt_pointed hc) fun e _ => .ok _

theorem readMustache_pointed {c : Cursor} {t : Text} (hc : c.At source)
    (hopen : c.rest = '\x7b' :: '\x7b' :: t) : Pointed g source (readMustache g c) := by
  refine .bind (takeMustache_pointed hc.within) fun p htake => ?_
  obtain ⟨content, after⟩ := p
  have hmustache := takeMustache_eq_ok hopen htake
  have hafter := (hc.of_leads hmustache.leads).within
  refine .bind ?_ fun _ _ => .ok _
  exact mustacheOf_pointed (hmustache.within hc.within) hc.within.isBoundary_pos hafter.pos_le

/-! ## Tags -/

theorem closingTag_pointed {c : Cursor} {t : Text} (hc : c.At source)
    (hopen : c.rest = '<' :: '/' :: t) : Pointed g source (closingTag c) := by
  have hstart : c.Leads ['<', '/'] ⟨c.pos + 2, c.rest.drop 2⟩ := by
    rw [hopen]
    exact Cursor.leads_chars hopen rfl rfl
  have hname := Cursor.span_leads ⟨c.pos + 2, c.rest.drop 2⟩ isTagNameChar
  obtain ⟨blanks, hblanks⟩ :=
    (Cursor.span ⟨c.pos + 2, c.rest.drop 2⟩ isTagNameChar).2.skipBlanks_leads
  have hstop := (hc.of_leads ((hstart.trans hname).trans hblanks)).within.pos_le
  unfold closingTag
  dsimp only
  split
  · exact .faultAt hc.within.isBoundary_pos hstop (by simp)
  · exact .ok _
  · exact .faultAt hc.within.isBoundary_pos hstop (by simp)

/-- A value that is not closed is reported from its quote to the end of the source. -/
theorem attributeParts_pointed {quote : Option Char} {start n : Nat} {c : Cursor}
    (hstart : isBoundary source start = true) (hc : c.At source) :
    Pointed g source (attributeParts g quote start n c) := by
  induction n generalizing c with
  | zero => exact .ok _
  | succ n ih =>
    unfold attributeParts
    split
    · split
      · exact .faultAt hstart hc.within.pos_le (by simp)
      · exact .ok _
    · rename_i x t hrest
      split
      · exact .ok _
      · split
        · rename_i hbraces
          obtain ⟨u, hopen⟩ := startsWith_braces_iff.1 hbraces
          refine .bind (takeMustache_pointed hc.within) fun p htake => ?_
          obtain ⟨content, after⟩ := p
          have hmustache := takeMustache_eq_ok hopen htake
          refine .bind (expressionAt_pointed (hmustache.within hc.within)) fun e _ => ?_
          exact .bind (ih (hc.of_leads hmustache.leads)) fun _ _ => .ok _
        · have hx : c.Leads [x] ⟨c.pos + x.utf8Size, t⟩ := Cursor.skip_leads hrest
          exact .bind (ih (hc.of_leads hx)) fun _ _ => .ok _

theorem attributeValue_pointed {c : Cursor} (hc : c.At source) :
    Pointed g source (attributeValue g c) := by
  have hstart := hc.within.isBoundary_pos
  unfold attributeValue
  split
  · rename_i q t hopen
    split
    · rename_i hquote
      have hq : q.utf8Size = 1 := utf8Size_quote (by simpa using hquote)
      have hinner := hc.of_leads (Cursor.leads_char hopen hq)
      exact .bind (attributeParts_pointed hstart hinner) fun _ _ => .ok _
    · exact attributeParts_pointed hstart hc
  · exact .ok _

theorem attributeRest_pointed {c : Cursor} (hc : c.At source) :
    Pointed g source (attributeRest g c) := by
  obtain ⟨blanks, hblanks⟩ := c.skipBlanks_leads
  unfold attributeRest
  dsimp only
  split
  · rename_i t hequals
    obtain ⟨blanks', hblanks'⟩ := Cursor.skipBlanks_leads ⟨c.skipBlanks.pos + 1, t⟩
    have hlead := (hblanks.trans (Cursor.leads_char hequals rfl)).trans hblanks'
    exact .bind (attributeValue_pointed (hc.of_leads hlead)) fun _ _ => .ok _
  · exact .ok _

/-- Where no attribute starts there is a character of the tag, so the byte behind its start is
inside of the source. -/
theorem attributes_pointed {n : Nat} {c : Cursor} (hc : c.At source) :
    Pointed g source (attributes g n c) := by
  induction n generalizing c with
  | zero => exact .ok _
  | succ n ih =>
    obtain ⟨blanks, hblanks⟩ := c.skipBlanks_leads
    have hstart := hc.of_leads hblanks
    unfold attributes
    dsimp only
    split
    · exact .ok _
    · rename_i hends
      split
      · refine .faultAt hstart.within.isBoundary_pos ?_ (by simp)
        have hrest : c.skipBlanks.rest ≠ [] := by
          intro hnil
          simp [endsTag, hnil] at hends
        have hpos := byteLength_pos_of_ne_nil hrest
        have hstop := hstart.within.stop_le
        rw [Cursor.stop] at hstop
        omega
      · rename_i hempty
        have hne : (c.skipBlanks.span isAttributeNameChar).1 ≠ [] := by simpa using hempty
        have hname := hstart.of_leads (c.skipBlanks.span_leads isAttributeNameChar)
        refine .bind (attributeRest_pointed hname) fun p hvalue => ?_
        obtain ⟨read, -, hread⟩ := (attributeRest_reads rfl hne hvalue).leads
        exact .bind (ih (hstart.of_leads hread)) fun _ _ => .ok _

theorem openingTag_pointed {c : Cursor} {t : Text} (hc : c.At source) (hopen : c.rest = '<' :: t) :
    Pointed g source (openingTag g c) := by
  have hstart := hc.within.isBoundary_pos
  have hbracket : c.Leads ['<'] ⟨c.pos + 1, c.rest.drop 1⟩ := by
    rw [hopen]
    exact Cursor.leads_char hopen rfl
  have hname := Cursor.span_leads ⟨c.pos + 1, c.rest.drop 1⟩ isTagNameChar
  have hafter := hc.of_leads (hbracket.trans hname)
  unfold openingTag
  dsimp only
  split
  · exact .faultAt hstart hafter.within.pos_le (by simp)
  · refine .bind (attributes_pointed hafter) fun p hattrs => ?_
    obtain ⟨read, hread⟩ := (attributes_reads (Nat.lt_succ_self _) hattrs).leads
    split
    · exact .ok _
    · exact .ok _
    · exact .faultAt hstart (hafter.of_leads hread).within.pos_le (by simp)

/-! ## Scripts and styles -/

theorem rawContent_pointed {name : Text} {start : Nat} {selfClosing : Bool} {c : Cursor}
    (hc : c.Within source) (hstart : isBoundary source start = true) :
    Pointed g source (rawContent name start selfClosing c) := by
  unfold rawContent
  split
  · exact .ok _
  · dsimp only
    split
    · exact .faultAt hstart hc.stop_le (by simp)
    · exact .ok _

theorem rawBlock_pointed {name : Text} {start : Nat} {selfClosing : Bool} {found : Found}
    {c : Cursor} (hc : c.Within source) (hstart : isBoundary source start = true) :
    Pointed g source (rawBlock g name start selfClosing found c) := by
  refine .bind (rawContent_pointed hc hstart) fun p hcontent => ?_
  obtain ⟨content, after⟩ := p
  obtain ⟨closing, hlead⟩ := rawContent_leads hcontent
  have hafter := (hc.of_leads hlead).pos_le
  dsimp only
  split
  · split
    · exact .faultAt hstart hafter (by simp)
    · exact .ok _
  · split
    · exact .faultAt hstart hafter (by simp)
    · split
      · exact .malformed
      · exact .ok _

/-! ## Ends of elements and blocks -/

/-- An end that is not the expected one is reported where it starts, and one that is missing at the
start of the block. -/
theorem expectClose_pointed {name : Text} {start : Nat} {c : Children}
    (hstart : isBoundary source start = true) (hstop : isBoundary source c.stopStart = true)
    (hafter : c.after.pos ≤ byteLength source) : Pointed g source (expectClose name start c) := by
  unfold expectClose
  split
  · split
    · exact .ok _
    · exact .faultAt hstop hafter (by simp)
  · exact .faultAt hstart (le_byteLength_of_isBoundary hstop) (by simp)
  · exact .faultAt hstop hafter (by simp)
  · exact .faultAt hstop hafter (by simp)
  · exact .faultAt hstop hafter (by simp)

theorem expectClosingTag_pointed {name : Text} {start : Nat} {c : Children}
    (hstart : isBoundary source start = true) (hstop : isBoundary source c.stopStart = true)
    (hafter : c.after.pos ≤ byteLength source) :
    Pointed g source (expectClosingTag name start c) := by
  unfold expectClosingTag
  split
  · split
    · exact .ok _
    · exact .faultAt hstop hafter (by simp)
  · exact .faultAt hstart (le_byteLength_of_isBoundary hstop) (by simp)

/-! ## Nodes -/

theorem nextPiece_pointed {c : Cursor} (hc : c.At source) : Pointed g source (nextPiece g c) := by
  unfold nextPiece
  split
  · exact .ok _
  · rename_i hopen
    refine .bind (readMustache_pointed hc hopen) fun p _ => ?_
    dsimp only
    split <;> exact .ok _
  · split
    · exact .faultAt_cursor hc.within (by simp)
    · exact .ok _
  · rename_i hopen
    exact .bind (closingTag_pointed hc hopen) fun _ _ => .ok _
  · rename_i hopen
    split
    · exact .bind (openingTag_pointed hc hopen) fun _ _ => .ok _
    · exact .ok _
  · exact .ok _

/-- Where nodes stop and where the reading goes on are places of the source. -/
theorem ReadsNodes.places {depth : Nat} {found : Found} {c : Cursor} {r : Children}
    (h : ReadsNodes g depth found c r) (hc : c.At source) :
    isBoundary source r.stopStart = true ∧ r.after.At source := by
  obtain ⟨read, stopped, hread, hstart, -⟩ := h.stops
  obtain ⟨all, hall⟩ := h.leads
  rw [hstart]
  exact ⟨(hc.of_leads hread).within.isBoundary_pos, hc.of_leads hall⟩

mutual

/-- Failures while children are read point into the source. The bound exceeds the text, so that what
is read of an element or block follows the rules, and the next failure is at a place of the source.
-/
theorem children_pointed {depth : Nat} {found : Found} {c : Cursor} :
    (n : Nat) → c.rest.length < n → c.At source → Pointed g source (children g n depth found c)
  | 0, hn, _ => absurd hn (Nat.not_lt_zero _)
  | n + 1, hn, hc => by
    have hstart := hc.within.isBoundary_pos
    unfold children
    refine .bind (nextPiece_pointed hc) fun p hpiece => ?_
    obtain ⟨piece, after⟩ := p
    obtain ⟨read, hread, -⟩ := nextPiece_leads hpiece
    have hlt := nextPiece_length_lt hpiece
    have hafter := hc.of_leads hread
    cases piece with
    | stop s => exact .ok _
    | text data | tag e =>
      have hlt := hlt nofun
      exact .bind (children_pointed n (by omega) hafter) fun _ _ => .ok _
    | opensIf test =>
      have hheader := nextPiece_opensIf_length hpiece
      refine .bind (ifBlock_pointed n (by omega) hafter hstart) fun q hblock => ?_
      obtain ⟨node, found', after'⟩ := q
      obtain ⟨block, hlead⟩ := (ifBlock_reads n (by omega) hblock).leads
      have hlen := hlead.length_eq
      exact .bind (children_pointed n (by omega) (hafter.of_leads hlead))
        fun _ _ => .ok _
    | opensEach iterable item index =>
      have hlt := hlt nofun
      refine .bind (children_pointed n (by omega) hafter) fun body hbody => ?_
      have hreads := children_reads n (by omega) hbody
      obtain ⟨hstop, hend⟩ := hreads.places hafter
      have hle := hreads.length_le
      refine .bind (expectClose_pointed hstart hstop hend.within.pos_le) fun _ _ => ?_
      exact .bind (children_pointed n (by omega) hend) fun _ _ => .ok _
    | opens tag =>
      have hlt := hlt nofun
      dsimp only
      split
      · split
        · refine .bind (rawBlock_pointed hafter.within hstart) fun q hblock => ?_
          obtain ⟨found', after'⟩ := q
          obtain ⟨block, hlead⟩ := rawBlock_leads hblock
          have hlen := hlead.length_eq
          exact children_pointed n (by dsimp only; omega) (hafter.of_leads hlead)
        · exact .faultAt hstart hafter.within.pos_le (by simp)
      · split
        · exact .bind (children_pointed n (by omega) hafter) fun _ _ => .ok _
        · refine .bind (children_pointed n (by omega) hafter) fun body hbody => ?_
          have hreads := children_reads n (by omega) hbody
          obtain ⟨hstop, hend⟩ := hreads.places hafter
          have hle := hreads.length_le
          refine .bind (expectClosingTag_pointed hstart hstop hend.within.pos_le) fun _ _ => ?_
          exact .bind (children_pointed n (by omega) hend) fun _ _ => .ok _

/-- Failures while a conditional block is read point into the source. -/
theorem ifBlock_pointed {depth start : Nat} {test : Expr} {found : Found} {c : Cursor} :
    (n : Nat) → c.rest.length + 1 < n → c.At source → isBoundary source start = true →
      Pointed g source (ifBlock g n depth test start found c)
  | 0, hn, _, _ => absurd hn (Nat.not_lt_zero _)
  | n + 1, hn, hc, hstart => by
    unfold ifBlock
    refine .bind (children_pointed n (by omega) hc) fun body hbody => ?_
    have hreads := children_reads n (by omega) hbody
    obtain ⟨hstop, hend⟩ := hreads.places hc
    have hle := hreads.length_le
    have hlt := hreads.length_lt
    cases hkind : body.stop with
    | alternative =>
      refine .bind (children_pointed n (by omega) hend) fun other hother => ?_
      obtain ⟨hstop', hend'⟩ := (children_reads n (by omega) hother).places hend
      exact .bind (expectClose_pointed hstart hstop' hend'.within.pos_le) fun _ _ => .ok _
    | alternativeIf test' =>
      -- A further condition starts where the nodes before it stopped.
      have hlt := hlt (by rw [hkind]; nofun)
      exact .bind (ifBlock_pointed n (by omega) hend hstop) fun _ _ => .ok _
    | endOfSource | closingTag | closes =>
      exact .bind (expectClose_pointed hstart hstop hend.within.pos_le) fun _ _ => .ok _

end

/-- Every failure of reading a template points into its source. -/
theorem readTemplate_pointed (g : Grammar) (source : Text) :
    Pointed g source (readTemplate g source) := by
  have hstart := Cursor.at_start source
  have hbound : source.length < source.length + 2 := by omega
  refine .bind (children_pointed _ hbound hstart) fun top htop => ?_
  obtain ⟨hstop, hend⟩ := (children_reads _ hbound htop).places hstart
  cases top.stop with
  | endOfSource => exact .ok _
  | closingTag | closes | alternative | alternativeIf =>
    exact .faultAt hstop hend.within.pos_le (by simp)

/-! ## Stray expressions -/

/-- A computation that does not fail because of a stray expression. -/
def NeverStray {α : Type} (x : Except TemplateError α) : Prop :=
  Settles (fun e : TemplateError => e.fault = .strayExpression) (fun _ => True) x

/-- Reading a template never finds an expression outside of its text. -/
theorem readTemplate_neverStray (hg : g.Sound) (source : Text) :
    NeverStray (readTemplate g source) := by
  have hpointed := readTemplate_pointed g source
  cases h : readTemplate g source with
  | ok t => trivial
  | error e => exact fun hstray => hpointed.not_error h (.inr ⟨hg, hstray⟩)

end TemplateCompiler
