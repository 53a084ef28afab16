import TemplateCompiler.Proofs.Template.Cursor

/-!
# How tags and pieces are read

The readers recurse on a bound that is larger than any source needs. Here the same steps are rules
without a bound: what the value of an attribute or a tag is read from, and which cursor reading it
leads to. Every successful run of a reader follows the rules, and what holds of all that is read is
shown by induction on them.

## What this module delivers

* `ReadsParts`, `ReadsValue`, `ReadsAttributes`, `ReadsTag`: the rules for tags.
* `Mustache.piece`, `PieceRead`: what the next piece of a source can be.
* `nextPiece_read`: the next piece of a source follows the rules.
-/

set_option autoImplicit false

namespace TemplateCompiler

open Script

variable {g : Grammar}

/-! ## Values of attributes -/

/-- Reading the parts of a value up to its end. -/
inductive ReadsParts (g : Grammar) (quote : Option Char) :
    Cursor → List AttributePart → Cursor → Prop where
  | stop {c : Cursor} (hends : endsValue quote c.rest = true ∨ c.rest = [] ∧ quote = none) :
    ReadsParts g quote c [] c
  | expr {c content after stop : Cursor} {e : Expr} {parts : List AttributePart}
    (hends : endsValue quote c.rest = false) (hmustache : Mustached c content after)
    (hexpr : expressionAt g content = .ok e) (hrest : ReadsParts g quote after parts stop) :
    ReadsParts g quote c (.expr e :: parts) stop
  | char {c stop : Cursor} {x : Char} {t : Text} {parts : List AttributePart}
    (hends : endsValue quote c.rest = false) (hread : c.rest = x :: t)
    (hopen : Text.startsWith c.rest "\x7b\x7b".toList = false)
    (hrest : ReadsParts g quote ⟨c.pos + x.utf8Size, t⟩ parts stop) :
    ReadsParts g quote c (consPart x parts) stop

theorem startsWith_braces_iff {t : Text} :
    Text.startsWith t "\x7b\x7b".toList = true ↔ ∃ rest, t = '\x7b' :: '\x7b' :: rest := by
  constructor
  · intro h
    rcases t with - | ⟨x, - | ⟨y, rest⟩⟩
    · cases h
    · simp [Text.startsWith] at h
    · simp [Text.startsWith] at h
      exact ⟨rest, by rw [h.1, h.2]⟩
  · rintro ⟨rest, rfl⟩
    simp [Text.startsWith]

/-- The parts of a value are read by the rules. -/
theorem attributeParts_reads {quote : Option Char} {start n : Nat} {c stop : Cursor}
    {parts : List AttributePart} (hn : c.rest.length < n)
    (h : attributeParts g quote start n c = .ok (parts, stop)) :
    ReadsParts g quote c parts stop := by
  induction n generalizing c parts with
  | zero => exact absurd hn (Nat.not_lt_zero _)
  | succ n ih =>
    rw [attributeParts] at h
    cases hrest : c.rest with
    | nil =>
      simp only [hrest] at h
      cases quote with
      | some q => cases h
      | none =>
        cases h
        exact .stop (.inr ⟨hrest, rfl⟩)
    | cons x t =>
      rw [hrest] at h
      dsimp only at h
      split at h
      · rename_i hends
        cases h
        exact .stop (.inl (by rw [hrest]; exact hends))
      rename_i hends
      have hends : endsValue quote c.rest = false := by
        rw [hrest]
        simpa using hends
      split at h
      · rename_i hopen
        obtain ⟨u, hu⟩ := startsWith_braces_iff.1 hopen
        obtain ⟨⟨content, after⟩, htake, h⟩ := bind_eq_ok_iff.1 h
        obtain ⟨e, hexpr, h⟩ := bind_eq_ok_iff.1 h
        obtain ⟨⟨more, stop'⟩, hmore, h⟩ := bind_eq_ok_iff.1 h
        cases h
        have hmustache := takeMustache_eq_ok (hrest.trans hu) htake
        have hlen := hmustache.four_le
        exact .expr hends hmustache hexpr (ih (by omega) hmore)
      · rename_i hopen
        obtain ⟨⟨more, stop'⟩, hmore, h⟩ := bind_eq_ok_iff.1 h
        cases h
        have hlen : t.length < n := by
          rw [hrest, List.length_cons] at hn
          omega
        exact .char hends hrest (by rw [hrest]; simpa using hopen) (ih hlen hmore)

namespace ReadsParts

variable {quote : Option Char} {c stop : Cursor} {parts : List AttributePart}

theorem leads (h : ReadsParts g quote c parts stop) : ∃ read, c.Leads read stop := by
  induction h with
  | @stop c _ => exact ⟨[], Cursor.Leads.refl c⟩
  | expr _ hmustache _ _ ih =>
    obtain ⟨read, hread⟩ := ih
    exact ⟨_, hmustache.leads.trans hread⟩
  | @char c _ x t _ _ hread _ _ ih =>
    obtain ⟨read, hrest⟩ := ih
    have hx : c.Leads [x] ⟨c.pos + x.utf8Size, t⟩ := Cursor.skip_leads hread
    exact ⟨_, hx.trans hrest⟩

theorem ends (h : ReadsParts g quote c parts stop) :
    endsValue quote stop.rest = true ∨ stop.rest = [] ∧ quote = none := by
  induction h with
  | stop hends => exact hends
  | expr _ _ _ _ ih => exact ih
  | char _ _ _ _ ih => exact ih

end ReadsParts

/-- Reading a quoted or bare value. -/
inductive ReadsValue (g : Grammar) : Cursor → List AttributePart → Cursor → Prop where
  | quoted {c stop : Cursor} {q : Char} {t u : Text} {parts : List AttributePart}
    (hopen : c.rest = q :: t) (hquote : q = '"' ∨ q = '\'')
    (hparts : ReadsParts g (some q) ⟨c.pos + 1, t⟩ parts stop) (hclose : stop.rest = q :: u) :
    ReadsValue g c parts ⟨stop.pos + 1, u⟩
  | bare {c stop : Cursor} {parts : List AttributePart} (hparts : ReadsParts g none c parts stop) :
    ReadsValue g c parts stop

theorem attributeValue_reads {c after : Cursor} {parts : List AttributePart}
    (h : attributeValue g c = .ok (parts, after)) : ReadsValue g c parts after := by
  unfold attributeValue at h
  split at h
  · rename_i q t hopen
    split at h
    · rename_i hquote
      obtain ⟨⟨read, stop⟩, hparts, h⟩ := bind_eq_ok_iff.1 h
      cases h
      have hparts := attributeParts_reads (Nat.lt_succ_self t.length) hparts
      -- A quoted value ends at its quote, never at the end of the source.
      rcases hparts.ends with hends | ⟨-, hnone⟩
      · cases hrest : stop.rest with
        | nil =>
          rw [hrest] at hends
          cases hends
        | cons x u =>
          rw [hrest] at hends
          have hx : x = q := by simpa [endsValue] using hends
          subst hx
          exact .quoted hopen (by simpa using hquote) hparts hrest
      · cases hnone
    · exact .bare (attributeParts_reads (Nat.lt_succ_self _) h)
  · rename_i hrest
    cases h
    exact .bare (.stop (.inr ⟨hrest, rfl⟩))

theorem utf8Size_quote {q : Char} (hquote : q = '"' ∨ q = '\'') : q.utf8Size = 1 := by
  rcases hquote with rfl | rfl <;> decide

theorem ReadsValue.leads {c after : Cursor} {parts : List AttributePart}
    (h : ReadsValue g c parts after) : ∃ read, c.Leads read after := by
  cases h with
  | quoted hopen hquote hparts hclose =>
    obtain ⟨read, hread⟩ := hparts.leads
    have hq := utf8Size_quote hquote
    exact ⟨_, ((Cursor.leads_char hopen hq).trans hread).trans (Cursor.leads_char hclose hq)⟩
  | bare hparts => exact hparts.leads

/-! ## Attributes and tags -/

/-- Reading an attribute at its name. -/
inductive ReadsAttribute (g : Grammar) (c : Cursor) : Attribute → Cursor → Prop where
  | switch {name : Text} {afterName : Cursor}
    (hname : c.span isAttributeNameChar = (name, afterName)) (hne : name ≠ [])
    (hvalue : ∀ t, afterName.skipBlanks.rest ≠ '=' :: t) :
    ReadsAttribute g c ⟨name, none, ⟨c.pos, afterName.skipBlanks.pos⟩⟩ afterName.skipBlanks
  | valued {name t : Text} {afterName after : Cursor} {parts : List AttributePart}
    (hname : c.span isAttributeNameChar = (name, afterName)) (hne : name ≠ [])
    (hequals : afterName.skipBlanks.rest = '=' :: t)
    (hvalue : ReadsValue g (Cursor.skipBlanks ⟨afterName.skipBlanks.pos + 1, t⟩) parts after) :
    ReadsAttribute g c ⟨name, some parts, ⟨c.pos, after.pos⟩⟩ after

theorem ReadsAttribute.leads {c after : Cursor} {a : Attribute} (h : ReadsAttribute g c a after) :
    ∃ read, read ≠ [] ∧ c.Leads read after := by
  cases h with
  | @switch name afterName hname hne _ =>
    have hlead := c.span_leads isAttributeNameChar
    rw [hname] at hlead
    obtain ⟨blanks, hblanks⟩ := afterName.skipBlanks_leads
    exact ⟨_, by simp [hne], hlead.trans hblanks⟩
  | @valued name t afterName _ _ hname hne hequals hvalue =>
    have hlead := c.span_leads isAttributeNameChar
    rw [hname] at hlead
    obtain ⟨blanks, hblanks⟩ := afterName.skipBlanks_leads
    obtain ⟨blanks', hblanks'⟩ :=
      Cursor.skipBlanks_leads ⟨afterName.skipBlanks.pos + 1, t⟩
    obtain ⟨read, hread⟩ := hvalue.leads
    have hequals := Cursor.leads_char hequals rfl
    exact ⟨_, by simp [hne], (((hlead.trans hblanks).trans hequals).trans hblanks').trans hread⟩

/-- Reading the attributes of a tag up to its end. -/
inductive ReadsAttributes (g : Grammar) : Cursor → List Attribute → Cursor → Prop where
  | stop {c : Cursor} (hends : endsTag c.skipBlanks.rest = true) :
    ReadsAttributes g c [] c.skipBlanks
  | cons {c after stop : Cursor} {a : Attribute} {more : List Attribute}
    (hends : endsTag c.skipBlanks.rest = false) (ha : ReadsAttribute g c.skipBlanks a after)
    (hmore : ReadsAttributes g after more stop) : ReadsAttributes g c (a :: more) stop

theorem attributeRest_reads {c afterName after : Cursor} {name : Text}
    {value : Option (List AttributePart)} (hname : c.span isAttributeNameChar = (name, afterName))
    (hne : name ≠ []) (h : attributeRest g afterName = .ok (value, after)) :
    ReadsAttribute g c ⟨name, value, ⟨c.pos, after.pos⟩⟩ after := by
  unfold attributeRest at h
  dsimp only at h
  split at h
  · rename_i t hequals
    obtain ⟨⟨parts, after'⟩, hvalue, h⟩ := bind_eq_ok_iff.1 h
    cases h
    exact .valued hname hne hequals (attributeValue_reads hvalue)
  · rename_i hequals
    cases h
    exact .switch hname hne hequals

/-- The attributes of a tag are read by the rules. -/
theorem attributes_reads {n : Nat} {c stop : Cursor} {attrs : List Attribute}
    (hn : c.rest.length < n) (h : attributes g n c = .ok (attrs, stop)) :
    ReadsAttributes g c attrs stop := by
  induction n generalizing c attrs with
  | zero => exact absurd hn (Nat.not_lt_zero _)
  | succ n ih =>
    rw [attributes] at h
    dsimp only at h
    split at h
    · rename_i hends
      cases h
      exact .stop hends
    split at h
    · cases h
    rename_i hends hempty
    have hne : (c.skipBlanks.span isAttributeNameChar).1 ≠ [] := by simpa using hempty
    obtain ⟨⟨value, after⟩, hvalue, h⟩ := bind_eq_ok_iff.1 h
    obtain ⟨⟨more, stop'⟩, hmore, h⟩ := bind_eq_ok_iff.1 h
    cases h
    have ha := attributeRest_reads rfl hne hvalue
    -- The name of an attribute is not empty, so the bound lasts for the next one.
    have hlen : after.rest.length < n := by
      obtain ⟨blanks, hblanks⟩ := c.skipBlanks_leads
      obtain ⟨read, hread, hlead⟩ := ha.leads
      have hpos := List.length_pos_iff.2 hread
      have hb := hblanks.length_eq
      have hl := hlead.length_eq
      omega
    exact .cons (by simpa using hends) ha (ih hlen hmore)

theorem ReadsAttributes.leads {c stop : Cursor} {attrs : List Attribute}
    (h : ReadsAttributes g c attrs stop) : ∃ read, c.Leads read stop := by
  induction h with
  | @stop c _ => exact c.skipBlanks_leads
  | @cons c _ _ _ _ _ ha _ ih =>
    obtain ⟨blanks, hblanks⟩ := c.skipBlanks_leads
    obtain ⟨read, -, hread⟩ := ha.leads
    obtain ⟨more, hmore⟩ := ih
    exact ⟨_, (hblanks.trans hread).trans hmore⟩

/-- What ends an opening tag. -/
def tagEnd (selfClosing : Bool) : Text :=
  if selfClosing then ['/', '>'] else ['>']

/-- Reading an opening tag. -/
inductive ReadsTag (g : Grammar) (c : Cursor) : OpeningTag → Prop where
  | mk {name t : Text} {attrs : List Attribute} {selfClosing : Bool} {afterName stop after : Cursor}
    (hopen : c.rest = '<' :: t)
    (hname : Cursor.span ⟨c.pos + 1, t⟩ isTagNameChar = (name, afterName)) (hne : name ≠ [])
    (hattrs : ReadsAttributes g afterName attrs stop) (hend : stop.Leads (tagEnd selfClosing) after) :
    ReadsTag g c ⟨name, attrs, selfClosing, after⟩

theorem openingTag_reads {c : Cursor} {tag : OpeningTag} {t : Text} (hopen : c.rest = '<' :: t)
    (h : openingTag g c = .ok tag) : ReadsTag g c tag := by
  unfold openingTag at h
  rw [hopen, List.drop_succ_cons, List.drop_zero] at h
  dsimp only at h
  split at h
  · cases h
  rename_i hempty
  have hne : (Cursor.span ⟨c.pos + 1, t⟩ isTagNameChar).1 ≠ [] := by simpa using hempty
  obtain ⟨⟨attrs, stop⟩, hattrs, h⟩ := bind_eq_ok_iff.1 h
  have hattrs := attributes_reads (Nat.lt_succ_self _) hattrs
  dsimp only at h
  split at h
  · rename_i hend
    cases h
    exact .mk hopen rfl hne hattrs (Cursor.leads_chars hend rfl rfl)
  · rename_i hend
    cases h
    exact .mk hopen rfl hne hattrs (Cursor.leads_char hend rfl)
  · cases h

theorem ReadsTag.leads {c : Cursor} {tag : OpeningTag} (h : ReadsTag g c tag) :
    ∃ read, read ≠ [] ∧ c.Leads read tag.after := by
  obtain ⟨hopen, hname, -, hattrs, hend⟩ := h
  rename_i t _ _ _ _ _
  have hlead := Cursor.span_leads ⟨c.pos + 1, t⟩ isTagNameChar
  rw [hname] at hlead
  obtain ⟨read, hread⟩ := hattrs.leads
  refine ⟨_, ?_, (((Cursor.leads_char hopen rfl).trans hlead).trans hread).trans hend⟩
  simp

/-! ## Pieces -/

/-- What a mustache is as a piece of the source. -/
def Mustache.piece : Mustache → Piece
  | .tag e => .tag e
  | .opensIf test => .opensIf test
  | .opensEach iterable item index => .opensEach iterable item index
  | .closes name => .stop (.closes name)
  | .alternative => .stop .alternative
  | .alternativeIf test => .stop (.alternativeIf test)

/-- What the next piece of a source can be. -/
inductive PieceRead (g : Grammar) (c : Cursor) : Piece → Cursor → Prop where
  | endOfSource (hrest : c.rest = []) : PieceRead g c (.stop .endOfSource) c
  | mustache {content after : Cursor} {m : Mustache} (hmustache : Mustached c content after)
    (hm : mustacheOf g content c.pos after.pos = .ok m) : PieceRead g c m.piece after
  | comment {body rest : Text} (hrest : c.rest = '<' :: body ++ "-->".toList ++ rest) :
    PieceRead g c (.text ('<' :: body ++ "-->".toList))
      (c.skip ('<' :: body ++ "-->".toList) rest)
  | closing {name read : Text} {after : Cursor} (hlead : c.Leads read after) (hne : read ≠ []) :
    PieceRead g c (.stop (.closingTag name)) after
  | opens {tag : OpeningTag} (htag : ReadsTag g c tag) : PieceRead g c (.opens tag) tag.after
  /-- Text runs up to the next markup or to the end of the source. -/
  | text {data : Text} {after : Cursor} (hlead : c.Leads data after) (hne : data ≠ [])
    (hstart : startsMarkup c.rest = false)
    (hstop : startsMarkup after.rest = true ∨ after.rest = []) : PieceRead g c (.text data) after

theorem splitText_eq (t : Text) :
    t = (splitText t).1 ++ (splitText t).2 ∧
      (startsMarkup (splitText t).2 = true ∨ (splitText t).2 = []) := by
  induction t with
  | nil => exact ⟨rfl, .inr rfl⟩
  | cons c t ih =>
    rw [splitText]
    split
    · rename_i h
      exact ⟨rfl, .inl h⟩
    · exact ⟨congrArg (c :: ·) ih.1, ih.2⟩

theorem find?_eq_some {pattern t before rest : Text} (h : Text.find? pattern t = some (before, rest)) :
    t = before ++ rest ∧ Text.startsWith rest pattern = true := by
  induction t generalizing before with
  | nil =>
    rw [Text.find?] at h
    split at h
    · cases h
      exact ⟨rfl, by assumption⟩
    · cases h
  | cons c t ih =>
    rw [Text.find?] at h
    split at h
    · cases h
      exact ⟨rfl, by assumption⟩
    · obtain ⟨p, hp, heq⟩ := Option.map_eq_some_iff.1 h
      cases heq
      obtain ⟨ht, hstart⟩ := ih hp
      exact ⟨by rw [ht]; rfl, hstart⟩

theorem startsWith_iff {t pattern : Text} :
    Text.startsWith t pattern = true ↔ ∃ rest, t = pattern ++ rest := by
  induction pattern generalizing t with
  | nil => simp [Text.startsWith]
  | cons p pattern ih =>
    cases t with
    | nil => simp [Text.startsWith]
    | cons c t => simp [Text.startsWith, ih]

/-- Markup starts with two braces, or with a bracket before a letter, a slash or the rest of what
opens a comment. -/
theorem startsMarkup_iff {t : Text} :
    startsMarkup t = true ↔
      (∃ rest, t = '\x7b' :: '\x7b' :: rest) ∨
        ∃ x rest, t = '<' :: x :: rest ∧
          (isAsciiLetter x = true ∨ x = '/' ∨ ∃ rest', x :: rest = '!' :: '-' :: '-' :: rest') := by
  rw [startsMarkup, Bool.or_eq_true, startsWith_braces_iff]
  refine or_congr_right ?_
  constructor
  · intro h
    unfold startsTag at h
    split at h
    · rename_i x rest
      refine ⟨x, rest, rfl, ?_⟩
      rw [Bool.or_eq_true, Bool.or_eq_true, startsWith_iff, beq_iff_eq, or_assoc] at h
      refine h.imp_right (Or.imp_right ?_)
      rintro ⟨rest', hrest⟩
      exact ⟨rest', (List.cons.inj hrest).2⟩
    · cases h
  · rintro ⟨x, rest, rfl, h⟩
    rw [startsTag, Bool.or_eq_true, Bool.or_eq_true, startsWith_iff, beq_iff_eq, or_assoc]
    refine h.imp_right (Or.imp_right ?_)
    rintro ⟨rest', hrest⟩
    exact ⟨rest', congrArg ('<' :: ·) hrest⟩

/-- The text at a cursor where no markup starts. -/
theorem readText_read {c : Cursor} {x : Char} {t : Text} (hrest : c.rest = x :: t)
    (hstart : startsMarkup c.rest = false) :
    PieceRead g c (.text (readText c).1) (readText c).2 := by
  obtain ⟨hsplit, hstop⟩ := splitText_eq t
  have heq : readText c = (x :: (splitText t).1, c.skip (x :: (splitText t).1) (splitText t).2) := by
    rw [readText, hrest]
  rw [heq]
  refine .text (Cursor.skip_leads ?_) (List.cons_ne_nil _ _) hstart hstop
  rw [hrest, List.cons_append, ← hsplit]

/-- The next piece of a source is one of the pieces it can be. -/
theorem nextPiece_read {c after : Cursor} {p : Piece} (h : nextPiece g c = .ok (p, after)) :
    PieceRead g c p after := by
  unfold nextPiece at h
  split at h
  · rename_i hrest
    cases h
    exact .endOfSource hrest
  · rename_i hopen
    obtain ⟨⟨m, after'⟩, hm, h⟩ := bind_eq_ok_iff.1 h
    obtain ⟨⟨content, after''⟩, htake, hm⟩ := bind_eq_ok_iff.1 hm
    obtain ⟨m', hm', hm⟩ := bind_eq_ok_iff.1 hm
    cases hm
    have hmustache := takeMustache_eq_ok hopen htake
    cases m <;> cases h <;> exact .mustache hmustache hm'
  · rename_i hopen
    split at h
    · cases h
    · rename_i before rest hfind
      cases h
      obtain ⟨hrest, hend⟩ := find?_eq_some hfind
      obtain ⟨after, rfl⟩ := startsWith_iff.1 hend
      cases before with
      | nil =>
        rw [hopen] at hrest
        cases hrest
      | cons x body =>
        obtain rfl : x = '<' := by
          rw [hopen] at hrest
          exact (List.cons.inj hrest).1.symm
        exact .comment (by rw [hrest, List.append_assoc]; rfl)
  · rename_i hopen
    obtain ⟨⟨name, after'⟩, hclosing, h⟩ := bind_eq_ok_iff.1 h
    cases h
    obtain ⟨blanks, hlead⟩ := closingTag_leads hopen hclosing
    exact .closing hlead (by simp)
  · rename_i hopen
    split at h
    · obtain ⟨tag, htag, h⟩ := bind_eq_ok_iff.1 h
      cases h
      exact .opens (openingTag_reads hopen htag)
    · cases h
      refine readText_read hopen (Bool.eq_false_iff.2 fun hmarkup => ?_)
      rename_i hcomment hslash hletter
      rcases startsMarkup_iff.1 hmarkup with ⟨_, heq⟩ | ⟨x, rest, heq, hx⟩
      · rw [hopen] at heq
        cases heq
      · rw [hopen] at heq
        cases heq
        rcases hx with hx | hx | ⟨rest', hx⟩
        · exact hletter hx
        · exact hslash hx
        · cases hx
          exact hcomment rest' rfl rfl
  · rename_i hnil hbraces hcomment hslash hbracket
    obtain ⟨x, t, hrest⟩ := List.exists_cons_of_ne_nil hnil
    cases h
    refine readText_read hrest (Bool.eq_false_iff.2 fun hmarkup => ?_)
    rcases startsMarkup_iff.1 hmarkup with ⟨_, heq⟩ | ⟨x, rest, heq, -⟩
    · exact hbraces _ heq
    · exact hbracket x rest heq

end TemplateCompiler
