import TemplateCompiler.Text.Blank

/-!
# Names in templates

## What this module delivers

* `isTagNameChar`, `isAttributeNameChar`: the characters of names in tags.
* `isVoidElement`: the elements that never have children.
-/

set_option autoImplicit false

namespace TemplateCompiler

/-- An ASCII letter. -/
def isAsciiLetter (c : Char) : Bool :=
  ('a' ≤ c && c ≤ 'z') || ('A' ≤ c && c ≤ 'Z')

/-- An ASCII letter or digit. -/
def isAsciiAlphanumeric (c : Char) : Bool :=
  isAsciiLetter c || ('0' ≤ c && c ≤ '9')

/-- The characters of the name of an element. -/
def isTagNameChar (c : Char) : Bool :=
  isAsciiAlphanumeric c || c == '-' || c == ':' || c == '_' || c == '.'

/-- The characters of the name of an attribute. -/
def isAttributeNameChar (c : Char) : Bool :=
  !Text.isBlank c
    && !(c == '=' || c == '>' || c == '/' || c == '"' || c == '\'' || c == '<')

/-- The elements that never have children. -/
def voidElements : List String :=
  ["area", "base", "br", "col", "command", "doctype", "embed", "hr", "img", "input", "keygen",
   "link", "meta", "param", "source", "track", "wbr"]

/-- Whether an element never has children. The case of its name does not matter. -/
def isVoidElement (name : Text) : Bool :=
  voidElements.any fun v => v.toList == name.map Text.lowerAscii

end TemplateCompiler
