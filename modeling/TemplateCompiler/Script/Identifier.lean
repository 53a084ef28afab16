import TemplateCompiler.Text.Letter

/-!
# Identifiers

The names that a block can bind, and the names of properties that are accessed with a dot. The rule is
simpler than that of the script language: it knows letters and digits, and no escapes or keywords.

## What this module delivers

* `isIdentifier`: whether a text is such a name.
-/

set_option autoImplicit false

namespace TemplateCompiler

/-- The characters that an identifier starts with. -/
def isIdentifierStart (c : Char) : Bool :=
  Text.isAlphabetic c || c == '_' || c == '$'

/-- The characters that an identifier goes on with. -/
def isIdentifierPart (c : Char) : Bool :=
  Text.isAlphanumeric c || c == '_' || c == '$'

/-- Whether a text is an identifier: a letter, an underscore or a dollar sign, and then also digits.
Keywords are not told apart. -/
def isIdentifier : Text → Bool
  | [] => false
  | c :: t => isIdentifierStart c && t.all isIdentifierPart

theorem isIdentifierPart_of_start {c : Char} (hc : isIdentifierStart c = true) :
    isIdentifierPart c = true := by
  simp only [isIdentifierStart, isIdentifierPart, Text.isAlphanumeric, Bool.or_eq_true] at hc ⊢
  rcases hc with (hc | hc) | hc
  · exact .inl (.inl (.inl hc))
  · exact .inl (.inr hc)
  · exact .inr hc

theorem isIdentifierPart_of_mem {name : Text} (h : isIdentifier name = true) :
    ∀ c ∈ name, isIdentifierPart c = true := by
  cases name with
  | nil => exact fun c hc => nomatch hc
  | cons d t =>
    rw [isIdentifier, Bool.and_eq_true, List.all_eq_true] at h
    intro c hc
    rcases List.mem_cons.1 hc with rfl | hc
    · exact isIdentifierPart_of_start h.1
    · exact h.2 c hc

end TemplateCompiler
