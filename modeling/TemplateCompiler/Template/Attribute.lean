import TemplateCompiler.Template.Mustache

/-!
# Attributes

## What this module delivers

* `attributeValue`: a quoted or bare value with mustaches in it.
* `attributes`: the attributes of a tag, up to its end.
-/

set_option autoImplicit false

namespace TemplateCompiler

open Script

/-- Whether a value ends at the start of a text: at its quote, or, without one, at a blank or at the
end of the tag. -/
def endsValue (quote : Option Char) : Text → Bool
  | [] => false
  | c :: t =>
    match quote with
    | some q => c == q
    | none => Text.isBlank c || c == '>' || Text.startsWith (c :: t) "/>".toList

/-- Puts a character in front of the text that the parts of a value start with. -/
def consPart (c : Char) : List AttributePart → List AttributePart
  | .text data :: parts => .text (c :: data) :: parts
  | parts => .text [c] :: parts

/-- The parts of a value, and the cursor at its end. The value started at `start`. -/
def attributeParts (g : Grammar) (quote : Option Char) (start : Nat) :
    Nat → Cursor → Except TemplateError (List AttributePart × Cursor)
  | 0, c => .ok ([], c)
  | n + 1, c =>
    match c.rest with
    | [] => if quote.isSome then faultAt .unclosedAttributeValue start c.pos else .ok ([], c)
    | x :: t =>
      if endsValue quote c.rest then .ok ([], c)
      else if Text.startsWith c.rest "\x7b\x7b".toList then do
        let (content, after) ← takeMustache c
        let e ← expressionAt g content
        let (parts, stop) ← attributeParts g quote start n after
        return (.expr e :: parts, stop)
      else do
        let (parts, stop) ← attributeParts g quote start n ⟨c.pos + x.utf8Size, t⟩
        return (consPart x parts, stop)

/-- A quoted or bare value, and the cursor behind it. -/
def attributeValue (g : Grammar) (c : Cursor) :
    Except TemplateError (List AttributePart × Cursor) :=
  match c.rest with
  | q :: t =>
    if q = '"' || q = '\'' then do
      let (parts, stop) ← attributeParts g (some q) c.pos (t.length + 1) ⟨c.pos + 1, t⟩
      return (parts, ⟨stop.pos + 1, stop.rest.drop 1⟩)
    else attributeParts g none c.pos (c.rest.length + 1) c
  | [] => .ok ([], c)

/-- The value that follows the name of an attribute, if there is one. -/
def attributeRest (g : Grammar) (c : Cursor) :
    Except TemplateError (Option (List AttributePart) × Cursor) :=
  let c := c.skipBlanks
  match c.rest with
  | '=' :: t => do
    let (parts, after) ← attributeValue g (Cursor.skipBlanks ⟨c.pos + 1, t⟩)
    return (some parts, after)
  | _ => .ok (none, c)

/-- Whether a tag, or the source, ends at the start of a text. -/
def endsTag (t : Text) : Bool :=
  t.isEmpty || Text.startsWith t ">".toList || Text.startsWith t "/>".toList

/-- The attributes of a tag, and the cursor at its end. -/
def attributes (g : Grammar) : Nat → Cursor → Except TemplateError (List Attribute × Cursor)
  | 0, c => .ok ([], c)
  | n + 1, c =>
    let c := c.skipBlanks
    if endsTag c.rest then .ok ([], c)
    else
      let (name, afterName) := c.span isAttributeNameChar
      if name.isEmpty then faultAt .malformedTag c.pos (c.pos + 1)
      else do
        let (value, after) ← attributeRest g afterName
        let (more, stop) ← attributes g n after
        return (⟨name, value, ⟨c.pos, after.pos⟩⟩ :: more, stop)

end TemplateCompiler
