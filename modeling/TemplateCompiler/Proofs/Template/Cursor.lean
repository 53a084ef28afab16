import Mathlib.Data.List.TakeWhile
import TemplateCompiler.Proofs.Outcome
import TemplateCompiler.Proofs.Text.Cut
import TemplateCompiler.Template.Reader

/-!
# Cursors

Reading moves a cursor over the source from left to right. What has been read and what is still
unread are the source, and the offset of the cursor is the length of what has been read.

## What this module delivers

* `Cursor.Leads`: a cursor that reading leads to, with what was read in between.
* `Cursor.Within`: a cursor whose text is a part of the source.
* `span_leads`, `takeMustache_eq_ok`, `closingTag_leads`, `rawContent_leads`: the simple readers.
-/

set_option autoImplicit false

namespace TemplateCompiler

namespace Cursor

/-! ## Moves of a cursor -/

/-- Reading a text leads from one cursor to another. -/
def Leads (c : Cursor) (read : Text) (c' : Cursor) : Prop :=
  c.rest = read ++ c'.rest ∧ c'.pos = c.pos + Text.byteLength read

theorem Leads.refl (c : Cursor) : c.Leads [] c :=
  ⟨rfl, rfl⟩

theorem Leads.trans {a b c : Cursor} {s t : Text} (h : a.Leads s b) (h' : b.Leads t c) :
    a.Leads (s ++ t) c := by
  refine ⟨?_, ?_⟩
  · rw [h.1, h'.1, List.append_assoc]
  · rw [h'.2, h.2, Text.byteLength_append, Nat.add_assoc]

theorem Leads.pos_le {a b : Cursor} {s : Text} (h : a.Leads s b) : a.pos ≤ b.pos := by
  rw [h.2]
  exact Nat.le_add_right ..

theorem Leads.length_eq {a b : Cursor} {s : Text} (h : a.Leads s b) :
    a.rest.length = s.length + b.rest.length := by
  rw [h.1, List.length_append]

/-- The text of a cursor is a part of the source, at the offset of the cursor. -/
def Within (source : Text) (c : Cursor) : Prop :=
  ∃ before after, source = before ++ c.rest ++ after ∧ Text.byteLength before = c.pos

/-- What follows some read text within a source is within it too. -/
theorem Within.of_leads {source read : Text} {c c' : Cursor} (h : c.Within source)
    (h' : c.Leads read c') : c'.Within source := by
  obtain ⟨before, after, hsource, hpos⟩ := h
  refine ⟨before ++ read, after, ?_, ?_⟩
  · rw [hsource, h'.1]
    simp only [List.append_assoc]
  · rw [Text.byteLength_append, hpos, h'.2]

/-- A cursor that stops earlier is within the source too. -/
theorem Within.of_append {source t rest : Text} {pos : Nat} (h : Within source ⟨pos, t ++ rest⟩) :
    Within source ⟨pos, t⟩ := by
  obtain ⟨before, after, hsource, hpos⟩ := h
  refine ⟨before, rest ++ after, ?_, hpos⟩
  rw [hsource]
  simp only [List.append_assoc]

theorem within_start (source : Text) : Within source ⟨0, source⟩ :=
  ⟨[], [], by simp, rfl⟩

/-! ## Simple readers -/

theorem skip_leads {c : Cursor} {read rest : Text} (h : c.rest = read ++ rest) :
    c.Leads read (c.skip read rest) :=
  ⟨h, rfl⟩

theorem span_leads (c : Cursor) (p : Char → Bool) : c.Leads (c.span p).1 (c.span p).2 :=
  skip_leads (List.takeWhile_append_dropWhile).symm

theorem span_all (c : Cursor) (p : Char → Bool) : ∀ x ∈ (c.span p).1, p x = true :=
  fun _ hx => List.mem_takeWhile_imp hx

/-- A character of one byte. -/
theorem leads_char {c : Cursor} {x : Char} {t : Text} (h : c.rest = x :: t) (hx : x.utf8Size = 1) :
    c.Leads [x] ⟨c.pos + 1, t⟩ :=
  ⟨h, by rw [Text.byteLength_cons, hx, Text.byteLength_nil]⟩

/-- Two characters of one byte each. -/
theorem leads_chars {c : Cursor} {x y : Char} {t : Text} (h : c.rest = x :: y :: t)
    (hx : x.utf8Size = 1) (hy : y.utf8Size = 1) : c.Leads [x, y] ⟨c.pos + 2, t⟩ :=
  (leads_char h hx).trans (leads_char rfl hy)

theorem skipBlanks_leads (c : Cursor) : ∃ read, c.Leads read c.skipBlanks :=
  ⟨_, c.span_leads Text.isBlank⟩

end Cursor

/-! ## Mustaches -/

theorem consContent_eq_some_iff {c : Char} {r : Option (Text × Text)} {content rest : Text} :
    consContent c r = some (content, rest) ↔
      ∃ inner, r = some (inner, rest) ∧ content = c :: inner := by
  simp only [consContent, Option.map_eq_some_iff, Prod.mk.injEq, Prod.exists]
  constructor
  · rintro ⟨inner, rest', hr, rfl, rfl⟩
    exact ⟨inner, hr, rfl⟩
  · rintro ⟨inner, hr, rfl⟩
    exact ⟨inner, rest, hr, rfl, rfl⟩

/-- A mustache is its content and the two braces after it. -/
theorem splitMustache_eq_some {depth : Nat} {quote : Option Char} {t content rest : Text}
    (h : splitMustache depth quote t = some (content, rest)) :
    t = content ++ '\x7d' :: '\x7d' :: rest := by
  fun_induction splitMustache depth quote t generalizing content with
  | case1 => cases h
  | case2 depth q c t ih =>
    obtain ⟨inner, hinner, rfl⟩ := consContent_eq_some_iff.1 h
    obtain ⟨inner', hinner', rfl⟩ := consContent_eq_some_iff.1 hinner
    rw [ih hinner']
    rfl
  | case6 t =>
    cases h
    rfl
  | case3 | case4 | case5 | case7 =>
    rename_i ih
    obtain ⟨inner, hinner, rfl⟩ := consContent_eq_some_iff.1 h
    rw [ih hinner]
    rfl

/-- The braces before a mustache, its content, and the braces after it. -/
structure Mustached (c content after : Cursor) : Prop where
  text : c.rest = '\x7b' :: '\x7b' :: (content.rest ++ '\x7d' :: '\x7d' :: after.rest)
  contentPos : content.pos = c.pos + 2
  afterPos : after.pos = content.stop + 2

theorem takeMustache_eq_ok {c content after : Cursor} {t : Text}
    (hopen : c.rest = '\x7b' :: '\x7b' :: t) (h : takeMustache c = .ok (content, after)) :
    Mustached c content after := by
  unfold takeMustache at h
  rw [hopen, List.drop_succ_cons, List.drop_succ_cons, List.drop_zero] at h
  cases hsplit : splitMustache 0 none t with
  | none =>
    rw [hsplit] at h
    cases h
  | some p =>
    obtain ⟨inner, rest⟩ := p
    rw [hsplit] at h
    cases h
    refine ⟨?_, rfl, rfl⟩
    rw [hopen, splitMustache_eq_some hsplit]

namespace Mustached

variable {c content after : Cursor}

theorem leads (h : Mustached c content after) :
    c.Leads ('\x7b' :: '\x7b' :: (content.rest ++ ['\x7d', '\x7d'])) after := by
  refine ⟨?_, ?_⟩
  · rw [h.text]
    simp
  · have hbrace : '\x7b'.utf8Size = 1 ∧ '\x7d'.utf8Size = 1 := by decide
    have hcontent := h.contentPos
    have hafter := h.afterPos
    simp only [Cursor.stop] at hafter
    simp only [Text.byteLength_cons, Text.byteLength_append, Text.byteLength_nil, hbrace]
    omega

theorem within {source : Text} (h : Mustached c content after) (hc : c.Within source) :
    content.Within source := by
  have hopen : c.Leads ['\x7b', '\x7b'] ⟨content.pos, content.rest ++ '\x7d' :: '\x7d' :: after.rest⟩ :=
    ⟨h.text, h.contentPos⟩
  exact (hc.of_leads hopen).of_append

theorem four_le (h : Mustached c content after) : after.rest.length + 4 ≤ c.rest.length := by
  rw [h.text]
  simp only [List.length_cons, List.length_append]
  omega

end Mustached

/-! ## Closing tags, scripts and styles -/

theorem findIgnoringCase?_eq_some {pattern t before rest : Text}
    (h : findIgnoringCase? pattern t = some (before, rest)) :
    t = before ++ rest ∧ startsWithIgnoringCase rest pattern = true := by
  induction t generalizing before with
  | nil => cases h
  | cons c t ih =>
    rw [findIgnoringCase?] at h
    split at h
    · cases h
      exact ⟨rfl, by assumption⟩
    · obtain ⟨p, hp, heq⟩ := Option.map_eq_some_iff.1 h
      cases heq
      obtain ⟨ht, hstart⟩ := ih hp
      exact ⟨by rw [ht]; rfl, hstart⟩

/-- The name of a closing tag is read, with its brackets and the blanks after the name. -/
theorem closingTag_leads {c after : Cursor} {name t : Text} (hopen : c.rest = '<' :: '/' :: t)
    (h : closingTag c = .ok (name, after)) :
    ∃ blanks, c.Leads (['<', '/'] ++ name ++ blanks ++ ['>']) after := by
  simp only [closingTag, hopen, List.drop_succ_cons, List.drop_zero] at h
  have hstart : c.Leads ['<', '/'] ⟨c.pos + 2, t⟩ := Cursor.leads_chars hopen rfl rfl
  have hname := Cursor.span_leads ⟨c.pos + 2, t⟩ isTagNameChar
  obtain ⟨blanks, hblanks⟩ := (Cursor.span ⟨c.pos + 2, t⟩ isTagNameChar).2.skipBlanks_leads
  split at h
  · cases h
  · rename_i hrest _
    cases h
    exact ⟨blanks, ((hstart.trans hname).trans hblanks).trans (Cursor.leads_char hrest rfl)⟩
  · cases h

theorem utf8Size_eq_one_of_toNat_le {c : Char} (h : c.toNat ≤ 127) : c.utf8Size = 1 :=
  Char.utf8Size_eq_one_iff.2 (UInt32.le_iff_toNat_le.2 h)

theorem utf8Size_lowerAscii (c : Char) : (Text.lowerAscii c).utf8Size = c.utf8Size := by
  unfold Text.lowerAscii
  split
  · rename_i h
    have hle : c.toNat ≤ 90 := by
      simp only [Bool.and_eq_true, decide_eq_true_eq, Char.le_def, UInt32.le_iff_toNat_le] at h
      exact h.2
    have hvalid : (c.toNat + 32).isValidChar := .inl (by omega)
    have hc : c.utf8Size = 1 := utf8Size_eq_one_of_toNat_le (by omega)
    rw [hc]
    apply utf8Size_eq_one_of_toNat_le
    have hlower : (Char.ofNat (c.toNat + 32)).toNat = c.toNat + 32 := by
      rw [Char.ofNat, dif_pos hvalid]
      rfl
    rw [hlower]
    omega
  · rfl

theorem byteLength_map_lowerAscii (t : Text) :
    Text.byteLength (t.map Text.lowerAscii) = Text.byteLength t := by
  induction t with
  | nil => rfl
  | cons c t ih =>
    rw [List.map_cons, Text.byteLength_cons, Text.byteLength_cons, ih, utf8Size_lowerAscii]

/-- The content of a script or style is read, with its closing tag. -/
theorem rawContent_leads {name content : Text} {start : Nat} {selfClosing : Bool} {c after : Cursor}
    (h : rawContent name start selfClosing c = .ok (content, after)) :
    ∃ closing, c.Leads (content ++ closing) after := by
  unfold rawContent at h
  split at h
  · cases h
    exact ⟨[], Cursor.Leads.refl c⟩
  · dsimp only at h
    split at h
    · cases h
    · rename_i body rest hfind
      cases h
      obtain ⟨hrest, hclosing⟩ := findIgnoringCase?_eq_some hfind
      generalize "</".toList ++ name.map Text.lowerAscii ++ ">".toList = closing at hclosing ⊢
      refine ⟨rest.take closing.length, (Cursor.skip_leads hrest).trans ⟨?_, ?_⟩⟩
      · exact (List.take_append_drop ..).symm
      · -- The tag that was found and the one looked for differ in case at most.
        have heq : (rest.take closing.length).map Text.lowerAscii = closing.map Text.lowerAscii :=
          by simpa [startsWithIgnoringCase, Text.equalIgnoringCase] using hclosing
        have hlen := congrArg Text.byteLength heq
        rw [byteLength_map_lowerAscii, byteLength_map_lowerAscii] at hlen
        rw [hlen]
        rfl

end TemplateCompiler
