import TemplateCompiler.Proofs.Script.Headers
import TemplateCompiler.Proofs.Template.Skimming

/-!
# What stands behind an expression

Behind an expression only blanks and comments are allowed, and a check of the markup looks for them.
It has a notion of both that is not the one of scripts: the next line control is a blank for it, and
a line comment goes on to a line feed whatever other line terminators it has. So a text can pass the
check although the scanner of scripts finds a token in it, and that token is dropped. Here is said
exactly when this happens.

## What this module delivers

* `isTokenFree`: texts in which the scanner finds no token.
* `HidesToken`: where the scanner and the check of the markup part.
* `Trivia.isTokenFree_iff`: the blanks and comments of the markup that have no token in them.
* `expressionAt_tokenFree_iff`: the same for what stands behind an expression.
-/

set_option autoImplicit false

namespace TemplateCompiler

open Script Text

/-! ## Texts without a token -/

/-- Where a text stands does not matter for what is skipped. -/
theorem skipGap_add (goal : Goal) (gap : Gap) (newline : Bool) (pos k : Nat) (t : Text) :
    skipGap goal gap newline (pos + k) t =
      (skipGap goal gap newline pos t).map fun r => (r.1, r.2.1 + k, r.2.2) := by
  fun_induction skipGap goal gap newline pos t with
  | case1 | case5 | case7 | case11 | case14 => simp_all [skipGap]
  | case8 newline pos t hline =>
    rw [Bool.not_eq_true] at hline
    subst hline
    rfl
  | case2 newline pos t ih | case3 newline pos t ih | case15 newline pos t ih =>
    rw [skipGap, Nat.add_right_comm pos k, ih]
  | case4 newline pos t hgoal ih =>
    subst hgoal
    rw [skipGap, Nat.add_right_comm pos k]
    exact ih
  | case6 pos t hgoal ih =>
    subst hgoal
    rw [skipGap, if_pos rfl, Nat.add_right_comm pos k]
    exact ih
  | case9 newline pos c t _ _ _ _ hc ih =>
    rw [skipGap_blank hc, Nat.add_right_comm pos k, ih]
  | case10 newline pos c t hline hblock hmarkup hend hc =>
    rw [skipGap, if_neg hc]
    · rfl
    · exact hline
    · exact hblock
    · exact hmarkup
    · exact hend
  | case12 newline pos c t hc ih | case13 newline pos c t hc ih =>
    simp only [skipGap, hc, Nat.add_right_comm pos k, ih]
    simp
  | case16 newline pos c t hend ih =>
    rw [skipGap, Nat.add_right_comm pos k, ih]
    exact hend

/-- Whether the scanner of expressions finds no token in a text, but only blanks and comments.
`newline` tells whether a line ended before. -/
def isTokenFree (newline : Bool) (t : Text) : Bool :=
  (skipGap .script .blank newline 0 t).any fun r => r.2.2.isEmpty

theorem isTokenFree_eq (newline : Bool) (t : Text) (pos : Nat) :
    isTokenFree newline t =
      (skipGap .script .blank newline pos t).any fun r => r.2.2.isEmpty := by
  have hpos := skipGap_add .script .blank newline 0 pos t
  rw [Nat.zero_add] at hpos
  rw [isTokenFree, hpos, Option.any_map]

/-- Behind blanks and comments the scanner goes on with the text that follows. -/
theorem isTokenFree_append {front : Text} (hfront : Blanks true front) (newline : Bool)
    (rest : Text) :
    ∃ newline', isTokenFree newline (front ++ rest) = isTokenFree newline' rest := by
  obtain ⟨newline', hskip⟩ := hfront.skipGap_append .script newline 0 rest
  refine ⟨newline', ?_⟩
  rw [isTokenFree, hskip, if_pos rfl, ← isTokenFree_eq]

theorem isTokenFree_blank {c : Char} (hc : isScriptBlank c = true) (newline : Bool) (t : Text) :
    isTokenFree newline (c :: t) = isTokenFree (newline || isLineTerminator c) t := by
  rw [isTokenFree, skipGap_blank hc, ← isTokenFree_eq]

/-- A line comment ends with its line. -/
theorem isTokenFree_line {comment : Text} {c : Char}
    (hcomment : ∀ x ∈ comment, isLineTerminator x = false) (hc : isLineTerminator c = true)
    (newline : Bool) (t : Text) :
    isTokenFree newline ('/' :: '/' :: (comment ++ c :: t)) = isTokenFree true t := by
  rw [isTokenFree, skipGap, skipGap_lineComment hcomment, skipGap, if_pos hc, ← isTokenFree_eq]

/-- The rest of a text may be a line comment that no line ends. -/
theorem isTokenFree_unclosed {comment : Text}
    (hcomment : ∀ x ∈ comment, isLineTerminator x = false) (newline : Bool) :
    isTokenFree newline ('/' :: '/' :: comment) = true := by
  rw [isTokenFree, skipGap, ← List.append_nil comment, skipGap_lineComment hcomment]
  rfl

/-! ## Tokens that are passed over -/

/-- Texts with which the scanner and the check of the markup part. The next line control is a blank
of the markup only. And a line comment ends at each line terminator, but for the markup at a line
feed: if what follows the end of its line is more than blanks and comments, a token is taken for a
part of the comment. -/
inductive HidesToken : Text → Prop where
  | nextLine (t : Text) : HidesToken ('\u0085' :: t)
  | comment {comment t : Text} {c : Char} (hcomment : ∀ x ∈ comment, isLineTerminator x = false)
    (hc : isLineTerminator c = true) (hne : c ≠ '\n') (h : isTokenFree true t = false) :
    HidesToken ('/' :: '/' :: (comment ++ c :: t))

theorem HidesToken.isTokenFree_eq_false {t : Text} (h : HidesToken t) (newline : Bool) :
    isTokenFree newline t = false := by
  cases h with
  | nextLine t =>
    have hopens : OpensToken '\u0085' := ⟨by decide, by decide⟩
    rw [isTokenFree, hopens.skipGap_eq]
    rfl
  | comment hcomment hc _ h => rw [isTokenFree_line hcomment hc, h]

/-- The one blank of the markup that is none of scripts. -/
theorem eq_nextLine_of_isBlank {c : Char} (hc : isBlank c = true) (hscript : isScriptBlank c = false) :
    c = '\u0085' := by
  have hall : ∀ n ∈ blankRanges.flatMap fun r => List.range' r.1 (r.2 + 1 - r.1),
      isScriptBlank (Char.ofNat n) = true ∨ Char.ofNat n = '\u0085' := by
    decide
  have hcode := hall c.toNat (mem_codes_of_inRanges hc)
  rw [Char.ofNat_toNat, hscript] at hcode
  exact hcode.resolve_left Bool.false_ne_true

/-- A comment without a line feed goes on to its end, or only up to another line terminator. -/
theorem exists_terminator_of_comment {comment : Text} (hcomment : '\n' ∉ comment) :
    (∀ x ∈ comment, isLineTerminator x = false) ∨
      ∃ front c rest, comment = front ++ c :: rest ∧ (∀ x ∈ front, isLineTerminator x = false) ∧
        isLineTerminator c = true ∧ c ≠ '\n' := by
  cases hfind : List.find? isLineTerminator comment with
  | none => exact .inl (by simpa using hfind)
  | some c =>
    obtain ⟨hc, front, rest, rfl, hfront⟩ := List.find?_eq_some_iff_append.1 hfind
    refine .inr ⟨front, c, rest, rfl, by simpa using hfront, hc, ?_⟩
    rintro rfl
    exact hcomment (by simp)

/-- Where the scanner finds a token in blanks and comments of the markup. -/
theorem Trivia.exists_hidesToken {t : Text} (h : Trivia t) {newline : Bool}
    (hfree : isTokenFree newline t = false) :
    ∃ front rest, t = front ++ rest ∧ Blanks true front ∧ HidesToken rest := by
  induction h generalizing newline with
  | nil => cases hfree
  | unclosed hcomment =>
    rcases exists_terminator_of_comment hcomment with hall | ⟨front, c, rest, rfl, hfront, hc, hne⟩
    · rw [isTokenFree_unclosed hall] at hfree
      cases hfree
    · rw [isTokenFree_line hfront hc] at hfree
      exact ⟨[], _, rfl, .nil, .comment hfront hc hne hfree⟩
  | @blank c t hc _ ih =>
    cases hscript : isScriptBlank c with
    | false =>
      rw [eq_nextLine_of_isBlank hc hscript]
      exact ⟨[], _, rfl, .nil, .nextLine t⟩
    | true =>
      rw [isTokenFree_blank hscript] at hfree
      obtain ⟨front, rest, rfl, hfront, hrest⟩ := ih hfree
      exact ⟨c :: front, rest, rfl, .blank hscript hfront, hrest⟩
  | @line comment t hcomment _ ih =>
    rcases exists_terminator_of_comment hcomment with hall | ⟨front, c, rest, rfl, hfront, hc, hne⟩
    · rw [isTokenFree_line hall (by decide)] at hfree
      obtain ⟨front, rest, rfl, hfront, hrest⟩ := ih hfree
      refine ⟨'/' :: '/' :: (comment ++ '\n' :: front), rest, by simp, ?_, hrest⟩
      exact .line hall (by decide) hfront
    · rw [List.append_assoc, List.cons_append] at hfree ⊢
      rw [isTokenFree_line hfront hc] at hfree
      exact ⟨[], _, rfl, .nil, .comment hfront hc hne hfree⟩
  | @block comment t hcomment _ ih =>
    obtain ⟨newline', hskip⟩ := isTokenFree_append (.block hcomment .nil) newline t
    rw [List.cons_append, List.cons_append, List.append_assoc] at hskip
    obtain ⟨front, rest, rfl, hfront, hrest⟩ := ih (hskip.symm.trans hfree)
    refine ⟨'/' :: '*' :: (comment ++ '*' :: '/' :: front), rest, by simp, ?_, hrest⟩
    exact .block hcomment hfront

/-- Blanks and comments of the markup have a token in them exactly if behind some blanks and closed
comments of scripts they go on with what the scanner takes for something else. -/
theorem Trivia.isTokenFree_iff {t : Text} (h : Trivia t) (newline : Bool) :
    isTokenFree newline t = true ↔
      ¬ ∃ front rest, t = front ++ rest ∧ Blanks true front ∧ HidesToken rest := by
  constructor
  · rintro hfree ⟨front, rest, rfl, hfront, hrest⟩
    obtain ⟨newline', heq⟩ := isTokenFree_append hfront newline rest
    rw [heq, hrest.isTokenFree_eq_false] at hfree
    cases hfree
  · intro hno
    by_contra hfree
    exact hno (h.exists_hidesToken (Bool.not_eq_true _ ▸ hfree))

/-! ## Expressions -/

/-- An expression is accepted if behind it there are only blanks and comments of the markup. -/
theorem expressionAt_eq_ok_iff {g : Grammar} {c : Cursor} {e : Expr} :
    expressionAt g c = .ok e ↔
      g.expression c.rest c.pos = some e ∧ c.pos ≤ e.span.stop ∧
        ∃ trailing, drop? (e.span.stop - c.pos) c.rest = some trailing ∧ Trivia trailing := by
  unfold expressionAt
  constructor
  · intro h
    split at h
    · cases h
    rename_i hread
    split at h
    · cases h
    rename_i hle
    split at h
    · cases h
    rename_i trailing hdrop
    split at h
    · rename_i htrivia
      cases h
      exact ⟨hread, Nat.not_lt.1 hle, trailing, hdrop, (isTrivia_iff _).1 htrivia⟩
    · cases h
  · rintro ⟨hread, hle, trailing, hdrop, htrivia⟩
    simp only [hread, if_neg (Nat.not_lt.2 hle), hdrop, (isTrivia_iff _).2 htrivia, if_true]

/-- What an accepted expression leaves behind it are blanks and comments of the markup. The scanner
finds no token in them, unless somewhere behind blanks and closed comments of scripts they go on
with a next line control, or with a line comment that another line terminator than a line feed ends
and behind which there is more than blanks and comments. -/
theorem expressionAt_tokenFree_iff {g : Grammar} {c : Cursor} {e : Expr}
    (h : expressionAt g c = .ok e) :
    c.pos ≤ e.span.stop ∧
      ∃ trailing, drop? (e.span.stop - c.pos) c.rest = some trailing ∧ Trivia trailing ∧
        (isTokenFree false trailing = true ↔
          ¬ ∃ front rest, trailing = front ++ rest ∧ Blanks true front ∧ HidesToken rest) := by
  obtain ⟨-, hle, trailing, hdrop, htrivia⟩ := expressionAt_eq_ok_iff.1 h
  exact ⟨hle, trailing, hdrop, htrivia, htrivia.isTokenFree_iff false⟩

/-- A line comment that a carriage return ends, with a name behind it. -/
def returnedComment : Text := " a /* */ // x\rb ".toList

/-- A name, and a next line control. -/
def nextLineName : Text := " a\u0085".toList

theorem expressionAt_tokenFree_iff_returnedComment :
    ∃ e, expressionAt .standard ⟨2, returnedComment⟩ = .ok e ∧ e.span = ⟨3, 4⟩ ∧
      ∃ front rest, " /* */ // x\rb ".toList = front ++ rest ∧ Blanks true front ∧
        HidesToken rest := by
  have hread : ((expressionAt .standard ⟨2, returnedComment⟩).toOption.any fun e =>
      decide (e.span = ⟨3, 4⟩)) = true := by
    decide +kernel
  obtain ⟨e, he, hspan⟩ := (Option.any_eq_true _ _).1 hread
  have he := toOption_eq_some_iff.1 he
  have hspan := of_decide_eq_true hspan
  obtain ⟨-, trailing, hdrop, -, hiff⟩ := expressionAt_tokenFree_iff he
  have hcut : drop? (e.span.stop - 2) returnedComment = some " /* */ // x\rb ".toList := by
    rw [hspan]
    decide
  cases hdrop.symm.trans hcut
  exact ⟨e, he, hspan, not_not.1 (mt hiff.2 (by decide))⟩

/-- Whether an expression is accepted and the scanner finds a token behind it. -/
def dropsToken (token : Token) (text : Text) : Bool :=
  (expressionAt .standard ⟨0, text⟩).toOption.any fun e =>
    (drop? e.span.stop text).any fun trailing =>
      (scan .script false e.span.stop trailing).any fun l => decide (l.token = token)

/-- The name behind the comment is dropped, and so is what forms no token at all. -/
theorem expressionAt_dropsToken :
    dropsToken (.word "b".toList false) returnedComment = true ∧
      dropsToken .malformed nextLineName = true := by
  decide +kernel

end TemplateCompiler
