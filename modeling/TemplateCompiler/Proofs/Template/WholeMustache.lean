import TemplateCompiler.Proofs.Render.Concatenation
import TemplateCompiler.Proofs.Template.Skimming

/-!
# Expressions in a mustache

A text that is one whole expression is read as that expression in a mustache if three things hold:
the search for the end of the mustache passes over the text, the text does not look like a block or
an alternative, and the blanks and comments behind the expression are such for the markup too. None
of them follows from being an expression. A template literal in another one ends the search too
early, and a quote in a comment or in a regular expression keeps it from ending at all.

The reader of expressions is a parameter. What is used of it is that neither the offset of a text
nor blanks around it change what is read.

## What this module delivers

* `Grammar.Accepts`, `Grammar.IgnoresPadding`: whole expressions, and blanks around them.
* `Directive`, `mustacheOf_eq_tag_iff`: the contents that are not read as an expression.
* `readTemplate_eq_single_iff`: a source that is one mustache.
* `readTemplate_wholeMustache`: the expressions that can be written in a mustache.
-/

set_option autoImplicit false

namespace TemplateCompiler

open Script Text

/-! ## Whole expressions -/

/-- A text is one whole expression, with blanks and comments behind it. -/
structure Script.Grammar.Accepts (g : Grammar) (text : Text) (e : Expr) (trailing : Text) :
    Prop where
  read : g.expression text 0 = some e
  cut : drop? e.span.stop text = some trailing
  gap : ∃ newline stop, skipGap .script .blank false e.span.stop trailing = some (newline, stop, [])

/-- A whole expression with a blank before and behind it is read as if it stood alone. -/
def Script.Grammar.IgnoresPadding (g : Grammar) : Prop :=
  ∀ text e trailing pos, g.Accepts text e trailing →
    g.expression (' ' :: (text ++ [' '])) pos = g.expression text (pos + 1)

/-! ## Blocks and alternatives -/

/-- What follows the word `else` in an alternative: blanks, or a further condition. -/
inductive Alternative : Text → Prop where
  | plain {blanks : Text} (h : ∀ c ∈ blanks, isBlank c = true) : Alternative blanks
  | further {blanks t : Text} {b : Char} (h : ∀ c ∈ blanks, isBlank c = true)
    (hb : isBlank b = true) : Alternative (blanks ++ "if".toList ++ b :: t)

/-- Contents, without the blanks before them, that are never read as an expression. -/
inductive Directive : Text → Prop where
  | opens (t : Text) : Directive ('#' :: t)
  | closes (t : Text) : Directive ('/' :: t)
  | alternative {t : Text} (h : Alternative t) : Directive ("else".toList ++ t)

variable {g : Grammar}

theorem alternative?_isSome_iff (c : Cursor) :
    (alternative? g c).isSome = true ↔ Alternative c.rest := by
  constructor
  · intro h
    unfold alternative? at h
    split at h
    · rename_i hall
      exact .plain (List.all_eq_true.1 hall)
    · dsimp only at h
      split at h
      · rename_i b t hstrip
        split at h
        · rename_i hb
          have hrest : c.rest.dropWhile isBlank = "if".toList ++ b :: t :=
            stripStart?_eq_some hstrip
          rw [← List.takeWhile_append_dropWhile (p := isBlank) (l := c.rest), hrest,
            ← List.append_assoc]
          exact .further (c.span_all isBlank) hb
        · cases h
      · cases h
  · intro h
    unfold alternative?
    split
    · rfl
    · rename_i hall
      generalize hrest : c.rest = rest at h hall
      cases h with
      | plain h => exact absurd (List.all_eq_true.2 h) hall
      | @further blanks t b h hb =>
        have hskip : c.skipBlanks.rest = "if".toList ++ b :: t := by
          change c.rest.dropWhile isBlank = _
          rw [hrest, List.append_assoc, List.dropWhile_append_of_pos h]
          exact List.dropWhile_cons_of_neg (by decide)
        dsimp only
        rw [hskip, stripStart?_append]
        simp only [hb, if_true, Option.isSome_some]

theorem alternative?_ne_tag (c : Cursor) (e : Expr) : alternative? g c ≠ some (.ok (.tag e)) := by
  intro h
  unfold alternative? at h
  split at h
  · cases h
  · dsimp only at h
    split at h
    · split at h
      · obtain ⟨test, -, htag⟩ := bind_eq_ok_iff.1 (Option.some.inj h)
        cases htag
      · cases h
    · cases h

theorem eachHeader_ne_tag (c : Cursor) (e : Expr) : eachHeader g c ≠ .ok (.tag e) := by
  intro h
  unfold eachHeader at h
  split at h
  · cases h
  · obtain ⟨iterable, -, h⟩ := bind_eq_ok_iff.1 h
    obtain ⟨bindings, -, h⟩ := bind_eq_ok_iff.1 h
    split at h <;> cases h

theorem blockHeader_ne_tag (c : Cursor) (start stop : Nat) (e : Expr) :
    blockHeader g c start stop ≠ .ok (.tag e) := by
  intro h
  unfold blockHeader at h
  dsimp only at h
  split at h
  · obtain ⟨test, -, htag⟩ := bind_eq_ok_iff.1 h
    cases htag
  split at h
  · exact eachHeader_ne_tag _ e h
  · cases h

/-- Behind the marks of blocks only the word `else` makes a directive. -/
theorem directive_iff_of_unmarked {t : Text} (pos : Nat) (hopens : ∀ u, t ≠ '#' :: u)
    (hcloses : ∀ u, t ≠ '/' :: u) :
    Directive t ↔
      ((stripStart? t "else".toList).bind fun u => alternative? g ⟨pos, u⟩).isSome = true := by
  constructor
  · intro h
    cases h with
    | opens u => exact absurd rfl (hopens u)
    | closes u => exact absurd rfl (hcloses u)
    | alternative h =>
      rw [stripStart?_append, Option.bind_some]
      exact (alternative?_isSome_iff _).2 h
  · intro h
    obtain ⟨result, hresult⟩ := Option.isSome_iff_exists.1 h
    obtain ⟨u, hstrip, hresult⟩ := Option.bind_eq_some_iff.1 hresult
    rw [stripStart?_eq_some hstrip]
    exact .alternative ((alternative?_isSome_iff _).1 (Option.isSome_of_mem hresult))

theorem tag_expressionAt_iff {content : Cursor} {e : Expr} :
    (do return .tag (← expressionAt g content)) = Except.ok (Mustache.tag e) ↔
      expressionAt g content = .ok e := by
  constructor
  · intro h
    obtain ⟨e', he', h⟩ := bind_eq_ok_iff.1 h
    cases h
    exact he'
  · intro h
    exact bind_eq_ok_iff.2 ⟨e, h, rfl⟩

/-- A mustache is a tag if its content is no block and no alternative, but an expression. -/
theorem mustacheOf_eq_tag_iff {content : Cursor} {start stop : Nat} {e : Expr} :
    mustacheOf g content start stop = .ok (.tag e) ↔
      ¬ Directive (content.rest.dropWhile isBlank) ∧ expressionAt g content = .ok e := by
  have hskip : content.skipBlanks.rest = content.rest.dropWhile isBlank := rfl
  unfold mustacheOf
  dsimp only
  rw [hskip]
  split
  · rename_i t hrest
    rw [hrest]
    exact ⟨fun h => (blockHeader_ne_tag _ _ _ _ h).elim, fun h => absurd (.opens t) h.1⟩
  · rename_i t hrest
    rw [hrest]
    exact ⟨nofun, fun h => absurd (.closes t) h.1⟩
  · rename_i hopens hcloses
    rw [directive_iff_of_unmarked (g := g) (content.skipBlanks.pos + 4) hopens hcloses]
    split
    · rename_i result hresult
      rw [hresult]
      refine ⟨?_, fun h => absurd rfl h.1⟩
      rintro rfl
      obtain ⟨u, -, hresult⟩ := Option.bind_eq_some_iff.1 hresult
      exact (alternative?_ne_tag _ _ hresult).elim
    · rename_i hresult
      rw [hresult, tag_expressionAt_iff]
      exact ⟨fun h => ⟨Bool.false_ne_true, h⟩, And.right⟩

/-! ## A source that is one mustache -/

theorem nextPiece_braces_eq_ok {c after : Cursor} {t : Text} {p : Piece}
    (hopen : c.rest = '\x7b' :: '\x7b' :: t) (h : nextPiece g c = .ok (p, after)) :
    ∃ m, readMustache g c = .ok (m, after) ∧ m.piece = p := by
  rw [nextPiece_braces hopen] at h
  obtain ⟨⟨m, after'⟩, hm, h⟩ := bind_eq_ok_iff.1 h
  cases h
  exact ⟨m, hm, rfl⟩

/-- A source that starts with braces is one tag exactly if the mustache at its start is that tag and
ends with the source. -/
theorem readTemplate_eq_single_iff {source t : Text} {e : Expr}
    (hopen : source = '\x7b' :: '\x7b' :: t) :
    readTemplate g source = .ok ⟨[.mustache e ⟨0, byteLength source⟩], none, none⟩ ↔
      readMustache g ⟨0, source⟩ = .ok (.tag e, ⟨byteLength source, []⟩) := by
  constructor
  · intro h
    obtain ⟨r, hreads, -, -, hnodes⟩ := readTemplate_bare h
    cases hreads with
    | stop | text | single | opensEach | element => cases hnodes
    | opensIf _ hblock => cases hblock <;> cases hnodes
    | raw hpiece =>
      obtain ⟨m, -, hm⟩ := nextPiece_braces_eq_ok hopen hpiece
      cases m <;> cases hm
    | @tag _ _ _ after _ rest hpiece =>
      obtain ⟨m, hread, hm⟩ := nextPiece_braces_eq_ok hopen hpiece
      obtain ⟨read, ⟨hall, hpos⟩, -⟩ := nextPiece_leads hpiece
      cases m with
      | opensIf | opensEach | closes | alternative | alternativeIf => cases hm
      | tag e' =>
        cases hm
        obtain ⟨hnode, -⟩ := List.cons.inj hnodes
        obtain ⟨rfl, hspan⟩ := Node.mustache.inj hnode
        have hstop : after.pos = byteLength source := congrArg Span.stop hspan
        -- The tag takes up all bytes, so nothing is left.
        have hrest : after.rest = [] := by
          by_contra hne
          have hlt := byteLength_pos_of_ne_nil hne
          have hlen := congrArg byteLength hall
          rw [byteLength_append] at hlen
          simp only at hlen hpos
          omega
        rw [hread]
        cases after
        cases hrest
        cases hstop
        rfl
  · intro h
    have hpiece : nextPiece g ⟨0, source⟩ = .ok (.tag e, ⟨byteLength source, []⟩) := by
      rw [nextPiece_braces hopen]
      exact bind_eq_ok_iff.2 ⟨_, h, rfl⟩
    exact readTemplate_of_reads (.tag hpiece (.stop (nextPiece_nil rfl))) rfl

/-- A text in braces, with a blank before and behind it. -/
def inMustache (text : Text) : Text := '\x7b' :: '\x7b' :: ' ' :: (text ++ [' ', '\x7d', '\x7d'])

theorem byteLength_inMustache (text : Text) :
    byteLength (inMustache text) = byteLength text + 6 := by
  have hone : '\x7b'.utf8Size = 1 ∧ ' '.utf8Size = 1 ∧ '\x7d'.utf8Size = 1 := by decide
  simp only [inMustache, byteLength_cons, byteLength_append, byteLength_nil, hone]
  omega

theorem splitMustache_padded_iff (text : Text) :
    splitMustache 0 none (' ' :: (text ++ [' ', '\x7d', '\x7d'])) =
      some (' ' :: (text ++ [' ']), []) ↔ Skimmed text := by
  rw [splitMustache_outside (by decide) (by decide), if_neg (by decide), consContent_eq_some_iff,
    ← splitMustache_skimmed_iff]
  simp

theorem takeMustache_eq_ok_iff {c content after : Cursor} :
    takeMustache c = .ok (content, after) ↔
      splitMustache 0 none (c.rest.drop 2) = some (content.rest, after.rest) ∧
        content.pos = c.pos + 2 ∧ after.pos = content.stop + 2 := by
  unfold takeMustache
  constructor
  · intro h
    split at h
    · cases h
    · rename_i hsplit
      cases h
      exact ⟨hsplit, rfl, rfl⟩
  · rintro ⟨hsplit, hcontent, hafter⟩
    obtain ⟨pos, inner⟩ := content
    obtain ⟨stop, rest⟩ := after
    cases hcontent
    cases hafter
    rw [hsplit]
    rfl

/-- The mustache is a tag and ends with the source if its content is skimmed and read as a tag. -/
theorem readMustache_inMustache_iff {text : Text} {e : Expr} :
    readMustache g ⟨0, inMustache text⟩ = .ok (.tag e, ⟨byteLength (inMustache text), []⟩) ↔
      Skimmed text ∧
        mustacheOf g ⟨2, ' ' :: (text ++ [' '])⟩ 0 (byteLength (inMustache text)) =
          .ok (.tag e) := by
  rw [← splitMustache_padded_iff]
  constructor
  · intro h
    obtain ⟨⟨⟨pos, content⟩, after⟩, htake, h⟩ := bind_eq_ok_iff.1 h
    obtain ⟨m, hm, h⟩ := bind_eq_ok_iff.1 h
    cases h
    obtain ⟨hsplit, rfl, -⟩ := takeMustache_eq_ok_iff.1 htake
    -- Nothing is left behind the mustache, so its braces are the last ones.
    have hcontent : content = ' ' :: (text ++ [' ']) := by
      have hall : ' ' :: (text ++ [' ']) ++ ['\x7d', '\x7d'] = content ++ ['\x7d', '\x7d'] := by
        rw [← splitMustache_eq_some hsplit]
        simp [inMustache]
      exact (List.append_cancel_right hall).symm
    subst hcontent
    exact ⟨hsplit, hm⟩
  · rintro ⟨hsplit, hm⟩
    refine bind_eq_ok_iff.2 ⟨(⟨2, ' ' :: (text ++ [' '])⟩, ⟨byteLength (inMustache text), []⟩),
      ?_, bind_eq_ok_iff.2 ⟨_, hm, rfl⟩⟩
    refine takeMustache_eq_ok_iff.2 ⟨hsplit, rfl, ?_⟩
    have hone : ' '.utf8Size = 1 := rfl
    simp only [byteLength_inMustache, Cursor.stop, byteLength_cons, byteLength_append,
      byteLength_nil, hone]
    omega

theorem Script.Grammar.Accepts.expressionAt_iff {text trailing : Text} {e : Expr}
    (hshifts : g.Shifts) (hpad : g.IgnoresPadding) (h : g.Accepts text e trailing) :
    expressionAt g ⟨2, ' ' :: (text ++ [' '])⟩ = .ok (e.shift 3) ↔ Trivia trailing := by
  have hread : g.expression (' ' :: (text ++ [' '])) 2 = some (e.shift 3) := by
    rw [hpad text e trailing 2 h]
    exact (hshifts text 0 3).trans (by rw [h.read, Option.map_some])
  have hstop : (e.shift 3).span.stop = e.span.stop + 3 := by rw [e.span_shift]; rfl
  have hdrop : drop? (e.span.stop + 3 - 2) (' ' :: (text ++ [' '])) = some (trailing ++ [' ']) := by
    obtain ⟨before, htext, hbefore⟩ := drop?_eq_some_iff.1 h.cut
    refine drop?_eq_some_iff.2 ⟨' ' :: before, by rw [htext]; simp, ?_⟩
    have hone : ' '.utf8Size = 1 := rfl
    rw [byteLength_cons, hbefore, hone]
    omega
  unfold expressionAt
  simp only [hread, hstop, hdrop, isTrivia_append_blank]
  rw [if_neg (by omega), ← isTrivia_iff]
  cases isTrivia .blank trailing with
  | true => simp
  | false => simp [faultAt]

/-- Which expressions can be written in a mustache. Let a text be one whole expression.

* The search for the end of the mustache stops at its last braces, not before and not behind them,
  exactly if the text is skimmed: outside of quoted texts each opening brace has its closing brace,
  and no two closing braces without one follow each other.
* The mustache is read as the tag with that expression, and nothing else, exactly if besides the
  text is no block and no alternative, and only blanks and comments of the markup stand behind the
  expression. -/
theorem readTemplate_wholeMustache {text trailing : Text} {e : Expr}
    (hshifts : g.Shifts) (hpad : g.IgnoresPadding) (h : g.Accepts text e trailing) :
    (splitMustache 0 none (' ' :: (text ++ [' ', '\x7d', '\x7d'])) =
        some (' ' :: (text ++ [' ']), []) ↔ Skimmed text) ∧
      (readTemplate g (inMustache text) =
          .ok ⟨[.mustache (e.shift 3) ⟨0, byteLength (inMustache text)⟩], none, none⟩ ↔
        Skimmed text ∧ ¬ Directive ((text ++ [' ']).dropWhile isBlank) ∧ Trivia trailing) := by
  refine ⟨splitMustache_padded_iff text, ?_⟩
  have hopen : inMustache text = '\x7b' :: '\x7b' :: ' ' :: (text ++ [' ', '\x7d', '\x7d']) := rfl
  rw [readTemplate_eq_single_iff hopen, readMustache_inMustache_iff, mustacheOf_eq_tag_iff,
    h.expressionAt_iff hshifts hpad, List.dropWhile_cons_of_pos (by decide)]

/-! ## Expressions that can and cannot be written -/

theorem not_directive_of_start {c : Char} {t : Text} (hopens : c ≠ '#') (hcloses : c ≠ '/')
    (helse : ¬ "else".toList <+: c :: t) : ¬ Directive (c :: t) := by
  intro h
  generalize hall : c :: t = all at h helse
  cases h with
  | opens =>
    cases hall
    exact hopens rfl
  | closes =>
    cases hall
    exact hcloses rfl
  | alternative => exact helse (List.prefix_append ..)

theorem Script.Grammar.names_ignoresPadding : Grammar.names.IgnoresPadding := by
  intro text e trailing pos h
  have hread := h.read
  simp only [Grammar.names] at hread ⊢
  split at hread
  · cases hread
  rename_i hname
  have hne : text.dropWhile isScriptBlank ≠ [] := by
    intro hnil
    rw [hnil] at hname
    exact hname rfl
  obtain ⟨htake, hdrop⟩ := Cursor.takeWhile_append_of_dropWhile [' '] hne
  have hletters : (text.dropWhile isScriptBlank ++ [' ']).takeWhile isAsciiLetter =
      (text.dropWhile isScriptBlank).takeWhile isAsciiLetter := by
    rw [List.takeWhile_append]
    split
    · rename_i hall
      rw [List.takeWhile_cons_of_neg (by decide), List.append_nil,
        (List.takeWhile_prefix _).eq_of_length hall]
    · rfl
  have hone : ' '.utf8Size = 1 := rfl
  rw [List.takeWhile_cons_of_pos (by decide), List.dropWhile_cons_of_pos (by decide), htake, hdrop,
    hletters, byteLength_cons, hone, Nat.add_assoc pos 1]

/-- A closing brace in a comment stands alone. -/
def bracedComment : Text := "items /* one \x7d two */".toList

/-- A quote in a comment opens a quoted text that is never closed. -/
def quotedComment : Text := "items /* what's shown */".toList

/-- Both comments stand behind a whole expression. The first can be written in a mustache, and the
second cannot. -/
theorem readTemplate_wholeMustache_items :
    Grammar.names.Shifts ∧ Grammar.names.IgnoresPadding ∧
      readTemplate .names (inMustache bracedComment) =
        .ok ⟨[.mustache (.ident ⟨"items".toList, ⟨3, 8⟩⟩) ⟨0, 27⟩], none, none⟩ ∧
      readTemplate .names (inMustache quotedComment) ≠
        .ok ⟨[.mustache (.ident ⟨"items".toList, ⟨3, 8⟩⟩) ⟨0, 30⟩], none, none⟩ := by
  have hbraced : Grammar.names.Accepts bracedComment (.ident ⟨"items".toList, ⟨0, 5⟩⟩)
      " /* one \x7d two */".toList :=
    ⟨rfl, by decide, ⟨false, 21, by decide⟩⟩
  have hquoted : Grammar.names.Accepts quotedComment (.ident ⟨"items".toList, ⟨0, 5⟩⟩)
      " /* what's shown */".toList :=
    ⟨rfl, by decide, ⟨false, 24, by decide⟩⟩
  have hdirective : ¬ Directive ((bracedComment ++ [' ']).dropWhile isBlank) :=
    not_directive_of_start (by decide) (by decide) (by decide)
  have hshifts := Grammar.names_shifts
  have hpad := Grammar.names_ignoresPadding
  refine ⟨hshifts, hpad, ?_, ?_⟩
  · exact (readTemplate_wholeMustache hshifts hpad hbraced).2.2
      ⟨by decide, hdirective, (isTrivia_iff _).1 (by decide)⟩
  · intro h
    have hskimmed := ((readTemplate_wholeMustache hshifts hpad hquoted).2.1 h).1
    revert hskimmed
    decide

/-- Whether a text is one whole expression. -/
def Script.Grammar.isWhole (g : Grammar) (text : Text) : Bool :=
  match g.expression text 0 with
  | none => false
  | some e =>
    match drop? e.span.stop text with
    | none => false
    | some trailing =>
      (skipGap .script .blank false e.span.stop trailing).any fun r => r.2.2.isEmpty

theorem Script.Grammar.exists_accepts {text : Text} (h : g.isWhole text = true) :
    ∃ e trailing, g.Accepts text e trailing := by
  unfold Grammar.isWhole at h
  split at h
  · cases h
  rename_i e hread
  split at h
  · cases h
  rename_i trailing hcut
  refine ⟨e, trailing, hread, hcut, ?_⟩
  cases hskip : skipGap .script .blank false e.span.stop trailing with
  | none =>
    rw [hskip] at h
    cases h
  | some r =>
    obtain ⟨newline, stop, rest⟩ := r
    rw [hskip] at h
    have hrest : rest = [] := List.isEmpty_iff.1 h
    exact ⟨newline, stop, by rw [hrest]⟩

/-- A whole expression that is no block and no alternative, and cannot be written in a mustache. -/
structure Unwritable (text : Text) : Prop where
  whole : ∃ e trailing, Grammar.standard.Accepts text e trailing
  noDirective : ¬ Directive ((text ++ [' ']).dropWhile isBlank)
  fails : (readTemplate .standard (inMustache text)).toOption.isNone = true

/-- A template literal in a template literal, a quote in a regular expression, and a quote in a
comment. -/
theorem unwritable_unskimmed :
    Unwritable "\x60$\x7b\x60\x7d\x7d\x60\x7d\x60".toList ∧ Unwritable "x.match(/'/)".toList ∧
      Unwritable "a /* ' */".toList := by
  refine ⟨?_, ?_, ?_⟩ <;>
    exact ⟨Grammar.exists_accepts (by decide +kernel),
      not_directive_of_start (by decide) (by decide) (by decide), by decide +kernel⟩

end TemplateCompiler
