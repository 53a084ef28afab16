import TemplateCompiler.Proofs.Text.Cut
import TemplateCompiler.Script.Scanner

/-!
# Blanks and comments at the end of a text

Between two tokens a text has blanks and comments. A text that ends with them leaves the scanner in
one of two states: between two tokens, or in a line comment that no end of a line has closed. What
is put behind such a text is the next token in the first case, and a part of the comment in the
second.

## What this module delivers

* `Blanks`: texts of blanks and comments, and whether the last comment is closed.
* `skipGap_eq_some`: what the scanner skips is a part of the text.
* `blanksFrom_of_skipGap`: what the scanner skips up to the end of a text.
* `scan_brace_iff`: a closing brace behind blanks and comments is the next token exactly if they are
  closed.
-/

set_option autoImplicit false

namespace TemplateCompiler.Script

open Text

/-- Blanks and comments of a module, and whether they are closed: the last comment is not a line
comment without the end of its line. -/
inductive Blanks : Bool → Text → Prop
  | nil : Blanks true []
  | unclosed {comment : Text} (hcomment : ∀ x ∈ comment, isLineTerminator x = false) :
    Blanks false ('/' :: '/' :: comment)
  | blank {closed : Bool} {c : Char} {t : Text} (hc : isScriptBlank c = true)
    (h : Blanks closed t) :
    Blanks closed (c :: t)
  | line {closed : Bool} {comment t : Text} {c : Char}
    (hcomment : ∀ x ∈ comment, isLineTerminator x = false) (hc : isLineTerminator c = true)
    (h : Blanks closed t) : Blanks closed ('/' :: '/' :: (comment ++ c :: t))
  | block {closed : Bool} {comment t : Text} (hcomment : ¬ ['*', '/'] <:+: comment)
    (h : Blanks closed t) : Blanks closed ('/' :: '*' :: (comment ++ '*' :: '/' :: t))

theorem utf8Size_slash : '/'.utf8Size = 1 := rfl

theorem utf8Size_star : '*'.utf8Size = 1 := rfl

/-! ## Steps of the scanner -/

section Steps

variable {goal : Goal} {newline : Bool} {pos : Nat} {t : Text}

attribute [local simp] skipGap

theorem skipGap_blank {c : Char} (hc : isScriptBlank c = true) :
    skipGap goal .blank newline pos (c :: t) =
      skipGap goal .blank (newline || isLineTerminator c) (pos + c.utf8Size) t := by
  have hslash : c ≠ '/' := by
    rintro rfl
    cases hc
  have hless : c ≠ '<' := by
    rintro rfl
    cases hc
  have hminus : c ≠ '-' := by
    rintro rfl
    cases hc
  simp [hslash, hless, hminus, hc]

/-- A line comment goes on over everything but the end of its line. -/
theorem skipGap_lineComment {comment : Text}
    (hcomment : ∀ x ∈ comment, isLineTerminator x = false) :
    skipGap goal .lineComment newline pos (comment ++ t) =
      skipGap goal .lineComment newline (pos + byteLength comment) t := by
  induction comment generalizing pos with
  | nil => rfl
  | cons c comment ih =>
    obtain ⟨hc, hcomment⟩ := List.forall_mem_cons.1 hcomment
    simp [hc, ih hcomment, Nat.add_assoc]

/-- A block comment goes on up to its end. -/
theorem skipGap_blockComment {comment : Text} (hcomment : ¬ ['*', '/'] <:+: comment) :
    ∃ newline', skipGap goal .blockComment newline pos (comment ++ '*' :: '/' :: t) =
      skipGap goal .blank newline' (pos + byteLength comment + 2) t := by
  induction comment generalizing newline pos with
  | nil => exact ⟨newline, by rw [List.nil_append, skipGap]; rfl⟩
  | cons c comment ih =>
    rw [List.infix_cons_iff, not_or] at hcomment
    obtain ⟨newline', hrest⟩ := @ih (newline || isLineTerminator c) (pos + c.utf8Size) hcomment.2
    refine ⟨newline', ?_⟩
    rw [List.cons_append, skipGap, hrest, byteLength_cons, Nat.add_assoc pos]
    -- The end of the comment does not start with this character.
    rintro t' rfl heq
    cases comment with
    | nil => cases heq
    | cons d comment =>
      cases heq
      exact hcomment.1 ⟨comment, rfl⟩

/-- From an offset in front of a text on, what is left of it and where that starts. -/
def Skips (pos : Nat) (t : Text) (pos' : Nat) (t' : Text) : Prop :=
  ∃ read, t = read ++ t' ∧ pos' = pos + byteLength read

theorem Skips.refl (pos : Nat) (t : Text) : Skips pos t pos t :=
  ⟨[], rfl, rfl⟩

theorem Skips.append {pos pos' n : Nat} {t t' : Text} (read : Text) (hn : n = byteLength read)
    (h : Skips (pos + n) t pos' t') : Skips pos (read ++ t) pos' t' := by
  obtain ⟨more, rfl, rfl⟩ := h
  exact ⟨read ++ more, (List.append_assoc _ _ _).symm, by rw [byteLength_append, hn]; omega⟩

theorem Skips.cons {pos pos' : Nat} {c : Char} {t t' : Text}
    (h : Skips (pos + c.utf8Size) t pos' t') : Skips pos (c :: t) pos' t' :=
  h.append [c] rfl

/-- Behind blanks and comments, the text goes on with something that is no blank. -/
theorem skipGap_eq_some {goal : Goal} {gap : Gap} {newline newline' : Bool} {pos pos' : Nat}
    {t t' : Text} (h : skipGap goal gap newline pos t = some (newline', pos', t')) :
    Skips pos t pos' t' ∧ ∀ c, t'.head? = some c → isScriptBlank c = false := by
  fun_induction skipGap goal gap newline pos t with
  | case1 newline pos =>
    cases h
    exact ⟨.refl _ _, by simp⟩
  | case2 newline pos t ih => exact ⟨(ih h).1.append ['/', '/'] rfl, (ih h).2⟩
  | case3 newline pos t ih => exact ⟨(ih h).1.append ['/', '*'] rfl, (ih h).2⟩
  | case4 newline pos t hgoal ih =>
    subst hgoal
    exact ⟨(ih h).1.append ['<', '!', '-', '-'] rfl, (ih h).2⟩
  | case5 => cases h
  | case6 pos t hgoal ih =>
    subst hgoal
    exact ⟨(ih h).1.append ['-', '-', '>'] rfl, (ih h).2⟩
  | case7 => cases h
  | case8 newline pos t hno =>
    cases h
    exact ⟨.refl _ _, fun c hc => Option.some.inj hc ▸ by decide⟩
  | case9 newline pos c t _ _ _ _ hblank ih => exact ⟨(ih h).1.cons, (ih h).2⟩
  | case10 newline pos c t _ _ _ _ hblank =>
    cases h
    exact ⟨.refl _ _, fun d hd => Option.some.inj hd ▸ by simpa using hblank⟩
  | case11 newline pos =>
    cases h
    exact ⟨.refl _ _, by simp⟩
  | case12 newline pos c t hend ih => exact ⟨(ih h).1.cons, (ih h).2⟩
  | case13 newline pos c t hend ih => exact ⟨(ih h).1.cons, (ih h).2⟩
  | case14 => cases h
  | case15 newline pos t ih => exact ⟨(ih h).1.append ['*', '/'] rfl, (ih h).2⟩
  | case16 newline pos c t hno ih => exact ⟨(ih h).1.cons, (ih h).2⟩

end Steps

/-! ## Blanks and comments -/

/-- After closed blanks and comments the scanner is between two tokens, and after others it is still
in a line comment. -/
theorem Blanks.skipGap_append {closed : Bool} {gap : Text} (h : Blanks closed gap) (goal : Goal)
    (newline : Bool) (pos : Nat) (rest : Text) :
    ∃ newline', skipGap goal .blank newline pos (gap ++ rest) =
      skipGap goal (if closed then .blank else .lineComment) newline' (pos + byteLength gap)
        rest := by
  induction h generalizing newline pos with
  | nil => exact ⟨newline, rfl⟩
  | @unclosed comment hcomment =>
    refine ⟨newline, ?_⟩
    rw [List.cons_append, List.cons_append, skipGap, skipGap_lineComment hcomment]
    simp only [byteLength_cons, utf8Size_slash]
    congr 1
    omega
  | @blank closed c t hc _ ih =>
    obtain ⟨newline', hrest⟩ := ih (newline || isLineTerminator c) (pos + c.utf8Size)
    refine ⟨newline', ?_⟩
    rw [List.cons_append, skipGap_blank hc, hrest, byteLength_cons, Nat.add_assoc]
  | @line closed comment t c hcomment hc _ ih =>
    obtain ⟨newline', hrest⟩ := ih true (pos + 2 + byteLength comment + c.utf8Size)
    refine ⟨newline', ?_⟩
    rw [List.cons_append, List.cons_append, List.append_assoc, skipGap,
      skipGap_lineComment hcomment, List.cons_append, skipGap, if_pos hc, hrest]
    simp only [byteLength_cons, byteLength_append, utf8Size_slash]
    congr 1
    omega
  | @block closed comment t hcomment _ ih =>
    obtain ⟨newline₁, hcomment⟩ := skipGap_blockComment hcomment
    obtain ⟨newline₂, hrest⟩ := ih newline₁ (pos + 2 + byteLength comment + 2)
    refine ⟨newline₂, ?_⟩
    rw [List.cons_append, List.cons_append, List.append_assoc, skipGap, List.cons_append,
      List.cons_append, hcomment, hrest]
    simp only [byteLength_cons, byteLength_append, utf8Size_slash, utf8Size_star]
    congr 1
    omega

/-- What is left of blanks and comments, from where the scanner is. -/
def BlanksFrom : Gap → Text → Prop
  | .blank, t => ∃ closed, Blanks closed t
  | .lineComment, t => (∀ x ∈ t, isLineTerminator x = false) ∨
      ∃ comment c rest closed, t = comment ++ c :: rest ∧
        (∀ x ∈ comment, isLineTerminator x = false) ∧ isLineTerminator c = true ∧
        Blanks closed rest
  | .blockComment, t => ∃ comment rest closed, t = comment ++ '*' :: '/' :: rest ∧
      ¬ ['*', '/'] <:+: comment ∧ Blanks closed rest

/-- What the scanner of a module skips up to the end of a text are blanks and comments. -/
theorem blanksFrom_of_skipGap {gap : Gap} {newline newline' : Bool} {pos stop : Nat} {t : Text}
    (h : skipGap .module gap newline pos t = some (newline', stop, [])) : BlanksFrom gap t := by
  fun_induction skipGap .module gap newline pos t with
  | case1 => exact ⟨true, .nil⟩
  | case2 newline pos t ih =>
    rcases ih h with hcomment | ⟨comment, c, rest, closed, rfl, hcomment, hc, hrest⟩
    · exact ⟨false, .unclosed hcomment⟩
    · exact ⟨closed, .line hcomment hc hrest⟩
  | case3 newline pos t ih =>
    obtain ⟨comment, rest, closed, rfl, hcomment, hrest⟩ := ih h
    exact ⟨closed, .block hcomment hrest⟩
  | case4 | case6 =>
    -- Markup comments are those of a script.
    rename_i hgoal _
    cases hgoal
  | case5 | case7 | case14 => cases h
  | case8 | case10 => cases h
  | case9 newline pos c t _ _ _ _ hc ih =>
    obtain ⟨closed, hrest⟩ := ih h
    exact ⟨closed, .blank hc hrest⟩
  | case11 => exact .inl fun x hx => nomatch hx
  | case12 newline pos c t hc ih =>
    obtain ⟨closed, hrest⟩ := ih h
    exact .inr ⟨[], c, t, closed, rfl, fun x hx => (nomatch hx), hc, hrest⟩
  | case13 newline pos c t hc ih =>
    rw [Bool.not_eq_true] at hc
    rcases ih h with hcomment | ⟨comment, d, rest, closed, rfl, hcomment, hd, hrest⟩
    · exact .inl (List.forall_mem_cons.2 ⟨hc, hcomment⟩)
    · exact .inr ⟨c :: comment, d, rest, closed, rfl, List.forall_mem_cons.2 ⟨hc, hcomment⟩, hd,
        hrest⟩
  | case15 newline pos t ih =>
    obtain ⟨closed, hrest⟩ := ih h
    exact ⟨[], t, closed, rfl, by decide, hrest⟩
  | case16 newline pos c t hend ih =>
    obtain ⟨comment, rest, closed, rfl, hcomment, hrest⟩ := ih h
    refine ⟨c :: comment, rest, closed, rfl, ?_, hrest⟩
    rw [List.infix_cons_iff, not_or]
    refine ⟨?_, hcomment⟩
    rintro ⟨more, heq⟩
    obtain ⟨rfl, rfl⟩ := List.cons.inj heq
    exact hend _ rfl rfl

example : skipGap .module .blank false 0 "/* a */ // b\nc".toList = some (true, 13, "c".toList) := by
  decide +kernel

/-! ## The next token -/

theorem readToken_punctuator {c : Char} {t : Text} (hquote : c ≠ '"' ∧ c ≠ '\'' ∧ c ≠ '.')
    (hdigit : isDigitOf 10 c = false) (hname : isNameStart c = false) (hescape : c ≠ '\\') :
    readToken (c :: t) = readPunctuator punctuators (c :: t) := by
  rw [readToken]
  · rw [hdigit, if_neg Bool.false_ne_true, hname, Bool.false_or, if_neg (by simpa using hescape)]
  · exact hquote.1
  · exact hquote.2.1
  · exact fun _ _ h _ => hquote.2.2 h

theorem readToken_brace (rest : Text) :
    readToken ('\x7d' :: rest) = some (.braceClose, rest) := by
  rw [readToken_punctuator (by decide) (by decide) (by decide) (by decide)]
  simp [readPunctuator, punctuators, stripStart?]

/-- A closing brace behind blanks and comments is the next token exactly if they are closed.
Otherwise it is a part of the last comment. -/
theorem scan_brace_iff {gap : Text} {newline newline' : Bool} {pos stop : Nat}
    (h : skipGap .module .blank newline pos gap = some (newline', stop, [])) (rest : Text) :
    (∃ l, scan .script newline pos (gap ++ '\x7d' :: rest) = some l ∧ l.token = .braceClose ∧
      l.start = pos + byteLength gap) ↔ Blanks true gap := by
  constructor
  · rintro ⟨l, hscan, -, hstart⟩
    obtain ⟨closed, hgap⟩ := blanksFrom_of_skipGap h
    cases closed with
    | true => exact hgap
    | false =>
      -- In an open comment the scanner goes on behind the brace.
      obtain ⟨newline₁, hskip⟩ := hgap.skipGap_append .script newline pos ('\x7d' :: rest)
      obtain ⟨⟨newline₂, start, t⟩, hgap', hscan⟩ := Option.bind_eq_some_iff.1 hscan
      obtain ⟨⟨token, after⟩, -, hl⟩ := Option.bind_eq_some_iff.1 hscan
      rw [hskip, if_neg Bool.false_ne_true, skipGap, if_neg (by decide)] at hgap'
      obtain ⟨read, -, hread⟩ := (skipGap_eq_some hgap').1
      have hbrace : '\x7d'.utf8Size = 1 := rfl
      cases hl
      simp only at hstart
      omega
  · intro hgap
    obtain ⟨newline₁, hskip⟩ := hgap.skipGap_append .script newline pos ('\x7d' :: rest)
    exact ⟨_, Option.bind_eq_some_iff.2 ⟨_, hskip.trans rfl, Option.bind_eq_some_iff.2
      ⟨_, readToken_brace rest, rfl⟩⟩, rfl, rfl⟩

end TemplateCompiler.Script
