import Mathlib.Logic.Function.Basic
import TemplateCompiler.Script.Scanner
import TemplateCompiler.Script.Spelling

/-!
# Quoted strings

A text that is quoted as a string literal is read back by the scanner: the token is that text, it ends
where the literal ends, and no part of what follows belongs to it. So a literal has one text, and a
property access one name.

## What this module delivers

* `readString_quoteChar`, `readString_quoted`: the characters between the quotes.
* `readToken_quoteString`, `scan_quoteString`: the literal as a token.
* `quoteString_reads_back`: every text is read back, and different texts are spelled differently.
-/

set_option autoImplicit false

namespace TemplateCompiler.Script

open Text

/-- One step of the scanner reads one character, written as it is or as an escape. -/
theorem readString_quoteChar (c : Char) (steps : Nat) (legacy : Bool) (value rest : Text) :
    readString '\'' (steps + 1) legacy value (quoteChar c ++ rest) =
      readString '\'' steps legacy (c :: value) rest := by
  -- None of the four escapes is one that strict code refuses.
  have hescape : ∀ e d : Char, (∀ t, readEscape false (e :: t) = .chars [d] false t) →
      readString '\'' (steps + 1) legacy value ('\\' :: e :: rest) =
        readString '\'' steps legacy (d :: value) rest := by
    intro e d he
    conv => lhs; unfold readString
    simp [he]
  unfold quoteChar
  split
  · rename_i hc
    subst hc
    exact hescape '\'' '\'' fun _ => rfl
  · split
    · rename_i hc
      subst hc
      exact hescape '\\' '\\' fun _ => rfl
    · split
      · rename_i hc
        subst hc
        exact hescape 'n' '\n' fun _ => rfl
      · split
        · rename_i hc
          subst hc
          exact hescape 'r' '\r' fun _ => rfl
        · simp [readString, *]

/-- The scanner reads the characters of a text up to the quote behind them. -/
theorem readString_quoted (t : Text) {steps : Nat} (hsteps : t.length < steps) (legacy : Bool)
    (value rest : Text) :
    readString '\'' steps legacy value (t.flatMap quoteChar ++ '\'' :: rest) =
      some (.string (value.reverse ++ t) legacy, rest) := by
  induction t generalizing steps value with
  | nil =>
    obtain ⟨steps, rfl⟩ := Nat.exists_eq_succ_of_ne_zero (Nat.ne_of_gt hsteps)
    simp [readString]
  | cons c t ih =>
    obtain ⟨steps, rfl⟩ := Nat.exists_eq_succ_of_ne_zero (Nat.ne_of_gt (Nat.zero_lt_of_lt hsteps))
    rw [List.flatMap_cons, List.append_assoc, readString_quoteChar,
      ih (Nat.lt_of_succ_lt_succ hsteps), List.reverse_cons, List.append_assoc, List.singleton_append]

theorem length_le_flatMap_quoteChar (t : Text) : t.length ≤ (t.flatMap quoteChar).length := by
  induction t with
  | nil => exact Nat.le_refl 0
  | cons c t ih =>
    have hc : 1 ≤ (quoteChar c).length := by
      unfold quoteChar
      repeat' split
      all_goals simp
    rw [List.flatMap_cons, List.length_append, List.length_cons]
    omega

theorem readToken_quoteString (t rest : Text) :
    readToken (quoteString t ++ rest) = some (.string t false, rest) := by
  have htext : quoteString t ++ rest = '\'' :: (t.flatMap quoteChar ++ '\'' :: rest) := by
    simp [quoteString]
  -- The scanner takes a step for each character, and each is written with one at least.
  have hsteps : t.length < (t.flatMap quoteChar ++ '\'' :: rest).length + 1 := by
    have hle := length_le_flatMap_quoteChar t
    rw [List.length_append]
    omega
  rw [htext, readToken, readString_quoted t hsteps]
  rfl

/-- The scanner finds the literal where it starts, and goes on right behind it. -/
theorem scan_quoteString (goal : Goal) (newline : Bool) (pos : Nat) (t rest : Text) :
    scan goal newline pos (quoteString t ++ rest) =
      some ⟨.string t false, pos, pos + byteLength (quoteString t), newline, rest⟩ := by
  have hgap : skipGap goal .blank newline pos (quoteString t ++ rest) =
      some (newline, pos, quoteString t ++ rest) := by
    rw [quoteString]
    rfl
  simp [scan, hgap, readToken_quoteString]

theorem quoteString_injective : Function.Injective quoteString := by
  intro t u h
  have ht := readToken_quoteString t []
  rw [h, readToken_quoteString u []] at ht
  injection ht with ht
  injection ht with ht
  injection ht with ht
  exact ht.symm

/-- An access with a dot is none in brackets, and both show the name. -/
theorem propertyAccess_injective : Function.Injective propertyAccess := by
  intro t u h
  unfold propertyAccess at h
  split at h
  · split at h
    · exact (List.cons.inj h).2
    · exact absurd (List.cons.inj h).1 (by decide)
  · split at h
    · exact absurd (List.cons.inj h).1 (by decide)
    · exact quoteString_injective (List.append_cancel_left (List.append_cancel_right h))

/-- A text that is quoted as a string literal is read back: wherever the literal stands and whatever
follows it, the scanner reads all of it and nothing else, as that text. So no two texts have the same
literal, and no two names the same access. -/
theorem quoteString_reads_back :
    (∀ (goal : Goal) (newline : Bool) (pos : Nat) (t rest : Text),
      scan goal newline pos (quoteString t ++ rest) =
        some ⟨.string t false, pos, pos + byteLength (quoteString t), newline, rest⟩) ∧
    Function.Injective quoteString ∧ Function.Injective propertyAccess :=
  ⟨scan_quoteString, quoteString_injective, propertyAccess_injective⟩

end TemplateCompiler.Script
