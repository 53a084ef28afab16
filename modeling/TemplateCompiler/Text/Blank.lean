import TemplateCompiler.Text.Basic

/-!
# Blank characters

Two classes of blanks meet in a template. Markup, mustaches and block headers use the Unicode
property `White_Space`. Scripts and expressions use the white space and line terminators of the
script language, which count U+FEFF and do not count U+0085.

## What this module delivers

* `isBlank`: white space of the markup.
* `isScriptBlank`, `isLineTerminator`: white space of scripts, line ends included, and the line ends.
* `isLineBlank`: the blanks that an indentation is made of.
-/

set_option autoImplicit false

namespace TemplateCompiler.Text

/-- The code points with the property `White_Space`. -/
def blankRanges : List (Nat × Nat) :=
  [(0x09, 0x0D), (0x20, 0x20), (0x85, 0x85), (0xA0, 0xA0), (0x1680, 0x1680), (0x2000, 0x200A),
   (0x2028, 0x2029), (0x202F, 0x202F), (0x205F, 0x205F), (0x3000, 0x3000)]

/-- White space of the markup. -/
def isBlank (c : Char) : Bool :=
  inRanges blankRanges c.toNat

/-- The white space of the script language, its line terminators included. -/
def scriptBlankRanges : List (Nat × Nat) :=
  [(0x09, 0x0D), (0x20, 0x20), (0xA0, 0xA0), (0x1680, 0x1680), (0x2000, 0x200A),
   (0x2028, 0x2029), (0x202F, 0x202F), (0x205F, 0x205F), (0x3000, 0x3000), (0xFEFF, 0xFEFF)]

/-- White space of scripts and expressions. -/
def isScriptBlank (c : Char) : Bool :=
  inRanges scriptBlankRanges c.toNat

/-- Line feed, carriage return, line separator and paragraph separator. -/
def isLineTerminator (c : Char) : Bool :=
  c == '\n' || c == '\r' || c.toNat == 0x2028 || c.toNat == 0x2029

/-- Space and tab. -/
def isLineBlank (c : Char) : Bool :=
  c == ' ' || c == '\t'

end TemplateCompiler.Text
