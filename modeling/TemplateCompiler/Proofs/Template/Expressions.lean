import TemplateCompiler.Proofs.Template.Nodes
import TemplateCompiler.Render.Reference

/-!
# Where expressions are read

The expressions of a template are read one after the other, each from a part of the source of its
own. The script is read from a part of the source too.

## What this module delivers

* `ExprsRead`: expressions that are read one after the other between two offsets.
* `Piece.exprs`, `nextPiece_exprs`: the expressions of a piece.
* `ReadsNodes.exprs`: the expressions of nodes.
* `ScriptRead`, `ReadsNodes.script`: the script.
-/

set_option autoImplicit false

namespace TemplateCompiler

open Script

variable {g : Grammar} {source : Text}

/-- Expressions that are read one after the other between two offsets of a source. -/
inductive ExprsRead (g : Grammar) (source : Text) : Nat → Nat → List Expr → Prop where
  | nil {lo hi : Nat} (hle : lo ≤ hi) : ExprsRead g source lo hi []
  | cons {lo mid hi : Nat} {c : Cursor} {e : Expr} {es : List Expr} (hc : c.Within source)
    (hlo : lo ≤ c.pos) (hmid : c.stop < mid) (he : expressionAt g c = .ok e)
    (hes : ExprsRead g source mid hi es) : ExprsRead g source lo hi (e :: es)

namespace ExprsRead

variable {lo mid hi : Nat} {es es' : List Expr}

theorem le (h : ExprsRead g source lo hi es) : lo ≤ hi := by
  induction h with
  | nil hle => exact hle
  | @cons lo mid hi c e es hc hlo hmid he hes ih =>
    have hle : c.pos ≤ c.stop := Nat.le_add_right ..
    omega

theorem append (h : ExprsRead g source lo mid es) (h' : ExprsRead g source mid hi es') :
    ExprsRead g source lo hi (es ++ es') := by
  induction h with
  | nil hle =>
    cases h' with
    | nil hle' => exact .nil (Nat.le_trans hle hle')
    | cons hc hlo hmid he hes => exact .cons hc (Nat.le_trans hle hlo) hmid he hes
  | cons hc hlo hmid he _ ih => exact .cons hc hlo hmid he (ih h')

/-- More of the source around the expressions. -/
theorem mono {lo' hi' : Nat} (h : ExprsRead g source lo hi es) (hlo : lo' ≤ lo) (hhi : hi ≤ hi') :
    ExprsRead g source lo' hi' es := by
  have hbefore : ExprsRead g source lo' lo [] := .nil hlo
  have hafter : ExprsRead g source lo hi' (es ++ []) := h.append (.nil hhi)
  rw [List.append_nil] at hafter
  exact hbefore.append hafter

theorem single {c : Cursor} {e : Expr} (hc : c.Within source) (hlo : lo ≤ c.pos)
    (hhi : c.stop < hi) (he : expressionAt g c = .ok e) : ExprsRead g source lo hi [e] :=
  .cons hc hlo hhi he (.nil (Nat.le_refl hi))

end ExprsRead

/-! ## Mustaches -/

/-- The expressions of what stops the reading of nodes. -/
def Stop.exprs : Stop → List Expr
  | .alternativeIf test => [test]
  | .endOfSource | .closingTag _ | .closes _ | .alternative => []

/-- The expressions of a piece. -/
def Piece.exprs : Piece → List Expr
  | .stop s => s.exprs
  | .text _ => []
  | .tag e => [e]
  | .opensIf test => [test]
  | .opensEach iterable _ _ => [iterable]
  | .opens opening => opening.attributes.flatMap attributeExpressions

theorem Cursor.Leads.stop_eq {c c' : Cursor} {read : Text} (h : c.Leads read c') :
    c'.stop = c.stop := by
  rw [Cursor.stop, Cursor.stop, h.1, h.2, Text.byteLength_append]
  omega

/-- The header of an each block is cut around the word in it. -/
theorem splitAs?_eq_some {t before after : Text} (h : splitAs? t = some (before, after)) :
    t = before ++ ('a' :: 's' :: after) := by
  induction t generalizing before with
  | nil => cases h
  | cons c t ih =>
    unfold splitAs? at h
    split at h
    · rename_i hsplit
      cases h
      rw [ih hsplit]
      rfl
    · split at h
      · split at h
        · cases h
          rfl
        · cases h
      · cases h

/-- A part of a cursor from which an expression of a mustache is read. -/
theorem ExprsRead.of_leads {c c' : Cursor} {read : Text} {lo hi : Nat} {e : Expr}
    (hc : c.Within source) (hlo : lo ≤ c.pos) (hhi : c.stop < hi) (hlead : c.Leads read c')
    (he : expressionAt g c' = .ok e) : ExprsRead g source lo hi [e] :=
  .single (hc.of_leads hlead) (Nat.le_trans hlo hlead.pos_le) (hlead.stop_eq ▸ hhi) he

theorem eachHeader_exprs {c : Cursor} {m : Mustache} {lo hi : Nat} (hc : c.Within source)
    (hlo : lo ≤ c.pos) (hhi : c.stop < hi) (h : eachHeader g c = .ok m) :
    ExprsRead g source lo hi m.piece.exprs := by
  unfold eachHeader at h
  split at h
  · cases h
  · rename_i before after hsplit
    obtain ⟨iterable, hiterable, h⟩ := bind_eq_ok_iff.1 h
    obtain ⟨bindings, hbindings, h⟩ := bind_eq_ok_iff.1 h
    have hrest := splitAs?_eq_some hsplit
    have hbefore : Cursor.Within source ⟨c.pos, before⟩ := by
      have hwithin : Cursor.Within source ⟨c.pos, before ++ 'a' :: 's' :: after⟩ := hrest ▸ hc
      exact hwithin.of_append
    have hstop : Cursor.stop ⟨c.pos, before⟩ < hi := by
      rw [Cursor.stop, hrest, Text.byteLength_append] at hhi
      simp only [Cursor.stop]
      omega
    have hread := ExprsRead.single hbefore hlo hstop hiterable
    split at h
    · cases h
      exact hread
    · cases h
      exact hread
    · cases h

theorem alternative?_exprs {c : Cursor} {m : Mustache} {lo hi : Nat} (hc : c.Within source)
    (hlo : lo ≤ c.pos) (hhi : c.stop < hi) (h : alternative? g c = some (.ok m)) :
    ExprsRead g source lo hi m.piece.exprs := by
  have hle : lo ≤ hi := by
    have hle : c.pos ≤ c.stop := Nat.le_add_right ..
    omega
  unfold alternative? at h
  split at h
  · cases h
    exact .nil hle
  · dsimp only at h
    split at h
    · rename_i b t hstrip
      split at h
      · obtain ⟨blanks, hblanks⟩ := c.skipBlanks_leads
        have hword : c.skipBlanks.rest = 'i' :: 'f' :: b :: t := Text.stripStart?_eq_some hstrip
        have hlead := hblanks.trans (Cursor.leads_chars hword rfl rfl)
        cases he : expressionAt g ⟨c.skipBlanks.pos + 2, b :: t⟩ with
        | error err =>
          rw [he] at h
          cases h
        | ok e =>
          rw [he] at h
          cases h
          exact ExprsRead.of_leads hc hlo hhi hlead he
      · cases h
    · cases h

/-- The expression of a mustache is read from its content. -/
theorem mustacheOf_exprs {content : Cursor} {m : Mustache} {start stop lo hi : Nat}
    (hc : content.Within source) (hlo : lo ≤ content.pos) (hhi : content.stop < hi)
    (h : mustacheOf g content start stop = .ok m) : ExprsRead g source lo hi m.piece.exprs := by
  obtain ⟨blanks, hblanks⟩ := content.skipBlanks_leads
  have hpos := hblanks.pos_le
  have hend := hblanks.stop_eq
  have hwithin := hc.of_leads hblanks
  unfold mustacheOf at h
  dsimp only at h
  split at h
  · rename_i t hmark
    have hmark := Cursor.leads_char hmark rfl
    have hkeyword := Cursor.span_leads ⟨content.skipBlanks.pos + 1, t⟩ isAsciiAlphanumeric
    have hlead := (hblanks.trans hmark).trans hkeyword
    unfold blockHeader at h
    dsimp only at h
    split at h
    · obtain ⟨test, htest, h⟩ := bind_eq_ok_iff.1 h
      cases h
      exact ExprsRead.of_leads hc hlo hhi hlead htest
    · split at h
      · exact eachHeader_exprs (hc.of_leads hlead) (Nat.le_trans hlo hlead.pos_le)
          (hlead.stop_eq ▸ hhi) h
      · cases h
  · cases h
    refine .nil ?_
    have hle : content.pos ≤ content.stop := Nat.le_add_right ..
    omega
  · split at h
    · rename_i result hresult
      obtain ⟨t, hstrip, halternative⟩ := Option.bind_eq_some_iff.1 hresult
      have hword := Text.stripStart?_eq_some hstrip
      have hlead : content.Leads _ ⟨content.skipBlanks.pos + 4, t⟩ :=
        hblanks.trans ⟨hword, rfl⟩
      subst h
      exact alternative?_exprs (hc.of_leads hlead) (Nat.le_trans hlo hlead.pos_le)
        (hlead.stop_eq ▸ hhi) halternative
    · obtain ⟨e, he, h⟩ := bind_eq_ok_iff.1 h
      cases h
      exact .single hc hlo hhi he

/-! ## Tags -/

theorem attributeExpressions_consPart (name : Text) (span : Span) (x : Char)
    (parts : List AttributePart) :
    attributeExpressions ⟨name, some (consPart x parts), span⟩ =
      attributeExpressions ⟨name, some parts, span⟩ := by
  rcases parts with - | ⟨⟨data⟩ | ⟨e⟩, parts⟩ <;> rfl

theorem ReadsParts.exprs {quote : Option Char} {c stop : Cursor} {parts : List AttributePart}
    (name : Text) (span : Span) (h : ReadsParts g quote c parts stop) (hc : c.Within source) :
    ExprsRead g source c.pos stop.pos (attributeExpressions ⟨name, some parts, span⟩) := by
  induction h with
  | stop => exact .nil (Nat.le_refl _)
  | @expr c content after stop e parts _ hmustache hexpr _ ih =>
    have hpos := hmustache.contentPos
    have hafter := hmustache.afterPos
    exact .cons (hmustache.within hc) (by omega) (by omega) hexpr
      (ih (hc.of_leads hmustache.leads))
  | @char c stop x t parts _ hread _ _ ih =>
    have hx : c.Leads [x] ⟨c.pos + x.utf8Size, t⟩ := Cursor.skip_leads hread
    rw [attributeExpressions_consPart]
    exact (ih (hc.of_leads hx)).mono hx.pos_le (Nat.le_refl _)

theorem ReadsValue.exprs {c after : Cursor} {parts : List AttributePart} (name : Text) (span : Span)
    (h : ReadsValue g c parts after) (hc : c.Within source) :
    ExprsRead g source c.pos after.pos (attributeExpressions ⟨name, some parts, span⟩) := by
  cases h with
  | quoted hopen hquote hparts hclose =>
    have hopen := Cursor.leads_char hopen (utf8Size_quote hquote)
    exact (hparts.exprs name span (hc.of_leads hopen)).mono hopen.pos_le (Nat.le_succ _)
  | bare hparts => exact hparts.exprs name span hc

theorem ReadsAttribute.exprs {c after : Cursor} {a : Attribute} (h : ReadsAttribute g c a after)
    (hc : c.Within source) : ExprsRead g source c.pos after.pos (attributeExpressions a) := by
  obtain ⟨read, -, hread⟩ := h.leads
  cases h with
  | switch => exact .nil hread.pos_le
  | @valued name t afterName _ parts hname _ hequals hvalue =>
    have hlead := c.span_leads isAttributeNameChar
    rw [hname] at hlead
    obtain ⟨blanks, hblanks⟩ := afterName.skipBlanks_leads
    obtain ⟨blanks', hblanks'⟩ := Cursor.skipBlanks_leads ⟨afterName.skipBlanks.pos + 1, t⟩
    have hstart := ((hlead.trans hblanks).trans (Cursor.leads_char hequals rfl)).trans hblanks'
    exact (hvalue.exprs name _ (hc.of_leads hstart)).mono hstart.pos_le (Nat.le_refl _)

theorem ReadsAttributes.exprs {c stop : Cursor} {attrs : List Attribute}
    (h : ReadsAttributes g c attrs stop) (hc : c.Within source) :
    ExprsRead g source c.pos stop.pos (attrs.flatMap attributeExpressions) := by
  induction h with
  | @stop c _ =>
    obtain ⟨blanks, hblanks⟩ := c.skipBlanks_leads
    exact .nil hblanks.pos_le
  | @cons c _ _ _ _ _ ha _ ih =>
    obtain ⟨blanks, hblanks⟩ := c.skipBlanks_leads
    obtain ⟨read, -, hread⟩ := ha.leads
    have hwithin := hc.of_leads hblanks
    rw [List.flatMap_cons]
    exact ((ha.exprs hwithin).mono hblanks.pos_le (Nat.le_refl _)).append
      (ih (hwithin.of_leads hread))

theorem ReadsTag.exprs {c : Cursor} {tag : OpeningTag} (h : ReadsTag g c tag)
    (hc : c.Within source) :
    ExprsRead g source c.pos tag.after.pos (tag.attributes.flatMap attributeExpressions) := by
  obtain ⟨hopen, hname, -, hattrs, hend⟩ := h
  rename_i t _ _ _ _ _
  have hlead := Cursor.span_leads ⟨c.pos + 1, t⟩ isTagNameChar
  rw [hname] at hlead
  have hstart := (Cursor.leads_char hopen rfl).trans hlead
  exact (hattrs.exprs (hc.of_leads hstart)).mono hstart.pos_le hend.pos_le

/-- The expressions of a piece are read between its ends. -/
theorem nextPiece_exprs {c after : Cursor} {p : Piece} (h : nextPiece g c = .ok (p, after))
    (hc : c.Within source) : ExprsRead g source c.pos after.pos p.exprs := by
  obtain ⟨read, hlead, -⟩ := nextPiece_leads h
  cases nextPiece_read h with
  | mustache hmustache hm =>
    have hpos := hmustache.contentPos
    have hafter := hmustache.afterPos
    exact mustacheOf_exprs (hmustache.within hc) (by omega) (by omega) hm
  | opens htag => exact htag.exprs hc
  | endOfSource | comment | closing | text => exact .nil hlead.pos_le

/-! ## Nodes -/

theorem scopedExpr_mk_expr (scope : Scope) (es : List Expr) :
    (es.map (ScopedExpr.mk scope)).map ScopedExpr.expr = es := by
  rw [List.map_map]
  exact List.map_id _

/-- The expression of what stops the reading of nodes is read after them. -/
theorem ReadsNodes.exprs_stop {depth : Nat} {found : Found} {c : Cursor} {r : Children}
    (h : ReadsNodes g depth found c r) (hc : c.Within source) :
    ExprsRead g source r.stopStart r.after.pos r.stop.exprs := by
  obtain ⟨read, stopped, hread, hstart, hstop⟩ := h.stops
  rw [hstart]
  exact nextPiece_exprs hstop (hc.of_leads hread)

theorem ReadsNodes.stopStart_le {depth : Nat} {found : Found} {c : Cursor} {r : Children}
    (h : ReadsNodes g depth found c r) : r.stopStart ≤ r.after.pos := by
  obtain ⟨read, stopped, -, hstart, hstop⟩ := h.stops
  obtain ⟨closing, hclosing, -⟩ := nextPiece_leads hstop
  rw [hstart]
  exact hclosing.pos_le

mutual

/-- The expressions of nodes are read between the start of the nodes and what stops them. -/
theorem ReadsNodes.exprs {depth : Nat} {found : Found} {c : Cursor} {r : Children} (scope : Scope) :
    ReadsNodes g depth found c r → c.Within source →
      ExprsRead g source c.pos r.stopStart ((scopedExpressions scope r.nodes).map ScopedExpr.expr)
  | .stop _, _ => .nil (Nat.le_refl _)
  | .text h hrest, hc => by
    obtain ⟨read, hread, -⟩ := nextPiece_leads h
    exact (hrest.exprs scope (hc.of_leads hread)).mono hread.pos_le (Nat.le_refl _)
  | .tag h hrest, hc => by
    obtain ⟨read, hread, -⟩ := nextPiece_leads h
    exact (nextPiece_exprs h hc).append (hrest.exprs scope (hc.of_leads hread))
  | .opensIf h hblock hrest, hc => by
    obtain ⟨read, hread, -⟩ := nextPiece_leads h
    have hheader := hc.of_leads hread
    obtain ⟨block, hlead⟩ := hblock.leads
    have hnode := hblock.exprs scope hheader (nextPiece_exprs h hc)
    rw [Children.cons, scopedExpressions, List.map_append]
    exact hnode.append (hrest.exprs scope (hheader.of_leads hlead))
  | .opensEach h hbody _ hrest, hc => by
    rename_i item index _ _ _
    obtain ⟨read, hread, -⟩ := nextPiece_leads h
    have hheader := hc.of_leads hread
    obtain ⟨inner, hinner⟩ := hbody.leads
    have hiterable := nextPiece_exprs h hc
    have hitems := (hbody.exprs (scope.push (itemNames item index)) hheader).mono (Nat.le_refl _)
      hbody.stopStart_le
    rw [Children.cons, scopedExpressions, List.map_append]
    exact (hiterable.append hitems).append (hrest.exprs scope (hheader.of_leads hinner))
  | .raw h _ hblock hrest, hc => by
    obtain ⟨read, hread, -⟩ := nextPiece_leads h
    obtain ⟨block, hlead⟩ := rawBlock_leads hblock
    have hstart := hread.trans hlead
    exact (hrest.exprs scope (hc.of_leads hstart)).mono hstart.pos_le (Nat.le_refl _)
  | .single h _ _ hrest, hc => by
    obtain ⟨read, hread, -⟩ := nextPiece_leads h
    have hattrs := nextPiece_exprs h hc
    rw [Children.cons, scopedExpressions, List.map_append, nodeExpressions, scopedExpressions,
      ite_self, List.append_nil, scopedExpr_mk_expr]
    exact hattrs.append (hrest.exprs scope (hc.of_leads hread))
  | .element h _ hsingle hbody _ hrest, hc => by
    obtain ⟨read, hread, -⟩ := nextPiece_leads h
    have htag := hc.of_leads hread
    obtain ⟨inner, hinner⟩ := hbody.leads
    have hvoid := (Bool.or_eq_false_iff.1 hsingle).2
    have hchildren := (hbody.exprs scope htag).mono (Nat.le_refl _) hbody.stopStart_le
    rw [Children.cons, scopedExpressions, List.map_append, nodeExpressions, hvoid,
      if_neg Bool.false_ne_true, List.map_append, scopedExpr_mk_expr]
    exact ((nextPiece_exprs h hc).append hchildren).append
      (hrest.exprs scope (htag.of_leads hinner))

/-- The expressions of a conditional block are read between the start of its condition and its end. -/
theorem ReadsIf.exprs {depth start lo : Nat} {test : Expr} {found found' : Found}
    {c after : Cursor} {node : Node} (scope : Scope) :
    ReadsIf g depth test start found c node found' after → c.Within source →
      ExprsRead g source lo c.pos [test] →
      ExprsRead g source lo after.pos ((nodeExpressions scope node).map ScopedExpr.expr)
  | .plain hbody _, hc, htest => by
    have hyes := (hbody.exprs scope hc).mono (Nat.le_refl _) hbody.stopStart_le
    rw [nodeExpressions, alternativeExpressions, List.append_nil]
    exact htest.append hyes
  | .alternative hbody _ hother _, hc, htest => by
    obtain ⟨read, hread⟩ := hbody.leads
    have hyes := (hbody.exprs scope hc).mono (Nat.le_refl _) hbody.stopStart_le
    have hno := (hother.exprs scope (hc.of_leads hread)).mono (Nat.le_refl _) hother.stopStart_le
    rw [nodeExpressions, alternativeExpressions, List.map_append]
    exact (htest.append hyes).append hno
  | .alternativeIf hbody hstop hnested, hc, htest => by
    obtain ⟨read, hread⟩ := hbody.leads
    have htest' := hbody.exprs_stop hc
    rw [hstop] at htest'
    have hno := hnested.exprs scope (hc.of_leads hread) htest'
    rw [nodeExpressions, alternativeExpressions, scopedExpressions, scopedExpressions,
      List.append_nil, List.map_append]
    exact (htest.append (hbody.exprs scope hc)).append hno

end

/-! ## The script -/

/-- The script of a template is read from the part of the source that its span tells. -/
def ScriptRead (g : Grammar) (source : Text) (block : ScriptBlock) : Prop :=
  ∃ content, Text.StandsAt source 0 block.span content ∧
    g.module content block.span.start = some block.content

theorem rawBlock_script {name : Text} {start : Nat} {selfClosing : Bool} {found found' : Found}
    {c after : Cursor} (h : rawBlock g name start selfClosing found c = .ok (found', after))
    (hc : c.Within source) (hfound : ∀ b, found.script = some b → ScriptRead g source b) :
    ∀ b, found'.script = some b → ScriptRead g source b := by
  obtain ⟨⟨content, after'⟩, hcontent, h⟩ := bind_eq_ok_iff.1 h
  obtain ⟨closing, hlead⟩ := rawContent_leads hcontent
  dsimp only at h
  split at h
  · split at h
    · cases h
    · cases h
      exact hfound
  · split at h
    · cases h
    · split at h
      · cases h
      · rename_i m hm
        cases h
        rintro b hb
        cases hb
        obtain ⟨before, rest, hsource, hpos⟩ := hc
        refine ⟨content, ⟨before, closing ++ after.rest ++ rest, ?_, by simp [hpos], rfl⟩, hm⟩
        rw [hsource, hlead.1]
        simp only [List.append_assoc]

mutual

/-- The script that is found with nodes is read from the source. -/
theorem ReadsNodes.script {depth : Nat} {found : Found} {c : Cursor} {r : Children} :
    ReadsNodes g depth found c r → c.Within source →
      (∀ b, found.script = some b → ScriptRead g source b) →
      ∀ b, r.found.script = some b → ScriptRead g source b
  | .stop _, _, hfound => hfound
  | .text h hrest, hc, hfound | .tag h hrest, hc, hfound | .single h _ _ hrest, hc, hfound => by
    obtain ⟨read, hread, -⟩ := nextPiece_leads h
    exact hrest.script (hc.of_leads hread) hfound
  | .opensIf h hblock hrest, hc, hfound => by
    obtain ⟨read, hread, -⟩ := nextPiece_leads h
    obtain ⟨block, hlead⟩ := hblock.leads
    have hheader := hc.of_leads hread
    exact hrest.script (hheader.of_leads hlead) (hblock.script hheader hfound)
  | .opensEach h hbody _ hrest, hc, hfound | .element h _ _ hbody _ hrest, hc, hfound => by
    obtain ⟨read, hread, -⟩ := nextPiece_leads h
    obtain ⟨inner, hinner⟩ := hbody.leads
    have hheader := hc.of_leads hread
    exact hrest.script (hheader.of_leads hinner) (hbody.script hheader hfound)
  | .raw h _ hblock hrest, hc, hfound => by
    obtain ⟨read, hread, -⟩ := nextPiece_leads h
    obtain ⟨block, hlead⟩ := rawBlock_leads hblock
    have htag := hc.of_leads hread
    exact hrest.script (htag.of_leads hlead) (rawBlock_script hblock htag hfound)

/-- The script that is found with a conditional block is read from the source. -/
theorem ReadsIf.script {depth start : Nat} {test : Expr} {found found' : Found}
    {c after : Cursor} {node : Node} :
    ReadsIf g depth test start found c node found' after → c.Within source →
      (∀ b, found.script = some b → ScriptRead g source b) →
      ∀ b, found'.script = some b → ScriptRead g source b
  | .plain hbody _, hc, hfound => hbody.script hc hfound
  | .alternative hbody _ hother _, hc, hfound => by
    obtain ⟨read, hread⟩ := hbody.leads
    exact hother.script (hc.of_leads hread) (hbody.script hc hfound)
  | .alternativeIf hbody _ hnested, hc, hfound => by
    obtain ⟨read, hread⟩ := hbody.leads
    exact hnested.script (hc.of_leads hread) (hbody.script hc hfound)

end

/-- The expressions and the script of a template that is read are read from the source. -/
theorem readTemplate_exprs {t : Template} (h : readTemplate g source = .ok t) (scope : Scope) :
    ExprsRead g source 0 (Text.byteLength source)
        ((scopedExpressions scope t.nodes).map ScopedExpr.expr) ∧
      ∀ b, t.script = some b → ScriptRead g source b := by
  obtain ⟨r, hr, -, rfl⟩ := readTemplate_reads h
  have hstart := Cursor.within_start source
  obtain ⟨read, hread⟩ := hr.leads
  have hend : r.after.pos ≤ Text.byteLength source := by
    have hstop := hread.stop_eq
    simp only [Cursor.stop] at hstop
    omega
  exact ⟨(hr.exprs scope hstart).mono (Nat.le_refl _) (Nat.le_trans hr.stopStart_le hend),
    hr.script hstart fun b hb => by cases hb⟩

end TemplateCompiler
