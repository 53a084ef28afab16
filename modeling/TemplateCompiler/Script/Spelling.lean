import TemplateCompiler.Script.Identifier
import TemplateCompiler.Text.Blank

/-!
# Spelling values in scripts

## What this module delivers

* `quoteString`: a string literal for a text.
* `propertyAccess`: the access to a property by its name.
* `lineIndent?`: the indentation of a place in a source.
-/

set_option autoImplicit false

namespace TemplateCompiler.Script

/-- A character between single quotes. -/
def quoteChar (c : Char) : Text :=
  if c = '\'' then "\\'".toList
  else if c = '\\' then "\\\\".toList
  else if c = '\n' then "\\n".toList
  else if c = '\r' then "\\r".toList
  else [c]

/-- A string literal in single quotes. -/
def quoteString (t : Text) : Text :=
  '\'' :: t.flatMap quoteChar ++ ['\'']

/-- The access to a property: with a dot if its name is an identifier, in brackets otherwise. -/
def propertyAccess (name : Text) : Text :=
  if isIdentifier name then '.' :: name
  else "[".toList ++ quoteString name ++ "]".toList

/-- The key of a property in an object literal: quoted unless it is an identifier. -/
def propertyKeyText (name : Text) : Text :=
  if isIdentifier name then name else quoteString name

/-- The blanks between the start of the line and an offset. The answer is empty if there is anything
else, and missing if the text cannot be cut at the offset. -/
def lineIndent? (source : Text) (offset : Nat) : Option Text :=
  (Text.take? offset source).map fun before =>
    let line := (before.reverse.takeWhile fun c => c != '\n').reverse
    if line.all Text.isLineBlank then line else []

end TemplateCompiler.Script
