import TemplateCompiler.Template.Attribute

/-!
# Reading templates

The children of an element or block are read until something that cannot be a child: the end of the
source, a closing tag, the end of a block or an alternative. What stopped the reading decides how the
element or block ends.

A script and a style at the top level are no nodes. They are kept apart, one of each at most.

## What this module delivers

* `readText`, `closingTag`, `rawBlock`: text, closing tags, and the content of scripts and styles.
* `children`, `element`, `ifBlock`: nodes, by mutual recursion.
* `readTemplate`: a whole source as a template.
-/

set_option autoImplicit false

namespace TemplateCompiler

open Script

/-! ## Text and tags -/

/-- Whether a tag or comment starts at the start of a text. -/
def startsTag (t : Text) : Bool :=
  match t with
  | '<' :: c :: _ => isAsciiLetter c || c == '/' || Text.startsWith t "<!--".toList
  | _ => false

/-- Whether a mustache, a tag or a comment starts at the start of a text. -/
def startsMarkup (t : Text) : Bool :=
  Text.startsWith t "\x7b\x7b".toList || startsTag t

/-- Cuts a text before the first markup in it. -/
def splitText : Text → Text × Text
  | [] => ([], [])
  | c :: t =>
    if startsMarkup (c :: t) then ([], c :: t)
    else
      let (data, rest) := splitText t
      (c :: data, rest)

/-- The text at a cursor. It has at least one character, even if that could start markup. -/
def readText (c : Cursor) : Text × Cursor :=
  match c.rest with
  | [] => ([], c)
  | x :: t =>
    let (data, rest) := splitText t
    (x :: data, c.skip (x :: data) rest)

/-- The name of the closing tag at a cursor, and the cursor behind it. -/
def closingTag (c : Cursor) : Except TemplateError (Text × Cursor) :=
  let (name, afterName) := Cursor.span ⟨c.pos + 2, c.rest.drop 2⟩ isTagNameChar
  let stop := afterName.skipBlanks
  match name, stop.rest with
  | [], _ => faultAt .malformedTag c.pos stop.pos
  | name, '>' :: t => .ok (name, ⟨stop.pos + 1, t⟩)
  | _, _ => faultAt .malformedTag c.pos stop.pos

/-! ## Scripts and styles -/

/-- The script and the style found so far. -/
structure Found where
  script : Option ScriptBlock
  style : Option Span

/-- Whether a text starts with a pattern in lower case, up to the case of ASCII letters. -/
def startsWithIgnoringCase (t pattern : Text) : Bool :=
  Text.equalIgnoringCase (t.take pattern.length) pattern

/-- Cuts a text before the first occurrence of a pattern, up to the case of ASCII letters. -/
def findIgnoringCase? (pattern : Text) : Text → Option (Text × Text)
  | [] => none
  | c :: t =>
    if startsWithIgnoringCase (c :: t) pattern then some ([], c :: t)
    else (findIgnoringCase? pattern t).map fun p => (c :: p.1, p.2)

/-- Whether an element holds a script or a style. -/
def isRawElement (name : Text) : Bool :=
  Text.equalIgnoringCase name "script".toList || Text.equalIgnoringCase name "style".toList

/-- The content of a script or style whose opening tag ends at a cursor, and the cursor behind the
closing tag. -/
def rawContent (name : Text) (start : Nat) (selfClosing : Bool) (c : Cursor) :
    Except TemplateError (Text × Cursor) :=
  if selfClosing then .ok ([], c)
  else
    let closing := "</".toList ++ name.map Text.lowerAscii ++ ">".toList
    match findIgnoringCase? closing c.rest with
    | none => faultAt (.unclosedElement name) start c.stop
    | some (content, rest) =>
      .ok (content, (c.skip content rest).skip closing (rest.drop closing.length))

/-- Records a script or style whose opening tag runs from `start` to a cursor. -/
def rawBlock (g : Grammar) (name : Text) (start : Nat) (selfClosing : Bool) (found : Found)
    (c : Cursor) : Except TemplateError (Found × Cursor) := do
  let (content, after) ← rawContent name start selfClosing c
  let stop := c.pos + Text.byteLength content
  if Text.equalIgnoringCase name "style".toList then
    if found.style.isSome then faultAt .duplicateStyle start after.pos
    else return ({ found with style := some ⟨c.pos, stop⟩ }, after)
  else if found.script.isSome then faultAt .duplicateScript start after.pos
  else
    match g.module content c.pos with
    | none => faultAt .malformedScript c.pos stop
    | some content => return ({ found with script := some ⟨content, ⟨c.pos, stop⟩⟩ }, after)

/-! ## Elements -/

/-- An opening tag: its name, its attributes, whether it closes itself, and the cursor behind it. -/
structure OpeningTag where
  name : Text
  attributes : List Attribute
  selfClosing : Bool
  after : Cursor

/-- Reads the opening tag at a cursor. -/
def openingTag (g : Grammar) (c : Cursor) : Except TemplateError OpeningTag := do
  let (name, afterName) := Cursor.span ⟨c.pos + 1, c.rest.drop 1⟩ isTagNameChar
  if name.isEmpty then faultAt .malformedTag c.pos afterName.pos
  else
    let (attrs, stop) ← attributes g (afterName.rest.length + 1) afterName
    match stop.rest with
    | '/' :: '>' :: t => return ⟨name, attrs, true, ⟨stop.pos + 2, t⟩⟩
    | '>' :: t => return ⟨name, attrs, false, ⟨stop.pos + 1, t⟩⟩
    | _ => faultAt .malformedTag c.pos stop.pos

/-! ## Nodes -/

/-- What stopped the reading of children. -/
inductive Stop where
  | endOfSource
  | closingTag (name : Text)
  | closes (name : Text)
  | alternative
  | alternativeIf (test : Expr)

/-- The fault of an unexpected stop, if it is one that is unexpected wherever it is not expected. -/
def Stop.fault? : Stop → Option TemplateFault
  | .endOfSource => none
  | .closingTag name => some (.unexpectedClosingTag name)
  | .closes name => some (.unexpectedBlockClose name)
  | .alternative | .alternativeIf _ => some .unexpectedElse

/-- Children, what stopped their reading and where that starts, and the cursor behind it. -/
structure Children where
  nodes : List Node
  stop : Stop
  stopStart : Nat
  found : Found
  after : Cursor

/-- Puts a node in front of children. -/
def Children.cons (node : Node) (c : Children) : Children := { c with nodes := node :: c.nodes }

/-- Checks that children end with the end of their block, which starts at `start`. -/
def expectClose (name : Text) (start : Nat) (c : Children) : Except TemplateError Unit :=
  match c.stop with
  | .closes closed =>
    if closed = name then .ok () else faultAt (.unexpectedBlockClose closed) c.stopStart c.after.pos
  | .endOfSource => faultAt (.unclosedBlock name) start c.stopStart
  | .closingTag closed => faultAt (.unexpectedClosingTag closed) c.stopStart c.after.pos
  | .alternative | .alternativeIf _ => faultAt .unexpectedElse c.stopStart c.after.pos

/-- Checks that children end with the closing tag of their element, which starts at `start`. -/
def expectClosingTag (name : Text) (start : Nat) (c : Children) : Except TemplateError Unit :=
  match c.stop with
  | .closingTag closed =>
    if closed = name then .ok () else faultAt (.unexpectedClosingTag closed) c.stopStart c.after.pos
  | _ => faultAt (.unclosedElement name) start c.stopStart

/-- What the next piece of the source is. -/
inductive Piece where
  | stop (stop : Stop)
  | text (data : Text)
  | tag (e : Expr)
  | opensIf (test : Expr)
  | opensEach (iterable : Expr) (item : BlockBinding) (index : Option BlockBinding)
  | opens (tag : OpeningTag)

/-- The next piece of the source, and the cursor behind it. -/
def nextPiece (g : Grammar) (c : Cursor) : Except TemplateError (Piece × Cursor) :=
  match c.rest with
  | [] => .ok (.stop .endOfSource, c)
  | '\x7b' :: '\x7b' :: _ => do
    let (m, after) ← readMustache g c
    match m with
    | .tag e => return (.tag e, after)
    | .opensIf test => return (.opensIf test, after)
    | .opensEach iterable item index => return (.opensEach iterable item index, after)
    | .closes name => return (.stop (.closes name), after)
    | .alternative => return (.stop .alternative, after)
    | .alternativeIf test => return (.stop (.alternativeIf test), after)
  | '<' :: '!' :: '-' :: '-' :: _ =>
    -- The end of a comment may share its dashes with the start.
    match Text.find? "-->".toList c.rest with
    | none => faultAt .unclosedComment c.pos c.stop
    | some (before, rest) =>
      let data := before ++ "-->".toList
      .ok (.text data, c.skip data (rest.drop 3))
  | '<' :: '/' :: _ => do
    let (name, after) ← closingTag c
    return (.stop (.closingTag name), after)
  | '<' :: x :: _ =>
    if isAsciiLetter x then do
      let tag ← openingTag g c
      return (.opens tag, tag.after)
    else
      let (data, after) := readText c
      .ok (.text data, after)
  | _ =>
    let (data, after) := readText c
    .ok (.text data, after)

mutual

/-- The children at a cursor. `depth` is the number of elements and blocks around them. -/
def children (g : Grammar) : Nat → Nat → Found → Cursor → Except TemplateError Children
  | 0, _, found, c => .ok ⟨[], .endOfSource, c.pos, found, c⟩
  | n + 1, depth, found, c => do
    let (piece, after) ← nextPiece g c
    match piece with
    | .stop stop => return ⟨[], stop, c.pos, found, after⟩
    | .text data =>
      let rest ← children g n depth found after
      return rest.cons (.text data ⟨c.pos, after.pos⟩)
    | .tag e =>
      let rest ← children g n depth found after
      return rest.cons (.mustache e ⟨c.pos, after.pos⟩)
    | .opensIf test =>
      let (node, found, after) ← ifBlock g n depth test c.pos found after
      let rest ← children g n depth found after
      return rest.cons node
    | .opensEach iterable item index =>
      let body ← children g n (depth + 1) found after
      expectClose "each".toList c.pos body
      let rest ← children g n depth body.found body.after
      return rest.cons (.eachBlock iterable item index body.nodes ⟨c.pos, body.after.pos⟩)
    | .opens tag =>
      if isRawElement tag.name then
        if depth = 0 then
          let (found, after) ← rawBlock g tag.name c.pos tag.selfClosing found after
          children g n depth found after
        else faultAt (.nestedRawElement tag.name) c.pos after.pos
      else if tag.selfClosing || isVoidElement tag.name then
        let rest ← children g n depth found after
        return rest.cons (.element tag.name tag.attributes [] ⟨c.pos, after.pos⟩)
      else
        let body ← children g n (depth + 1) found after
        expectClosingTag tag.name c.pos body
        let rest ← children g n depth body.found body.after
        return rest.cons (.element tag.name tag.attributes body.nodes ⟨c.pos, body.after.pos⟩)

/-- The conditional block that starts at `start` and whose header ends at a cursor. A further
condition makes a nested block that shares the end of this one. -/
def ifBlock (g : Grammar) : Nat → Nat → Expr → Nat → Found → Cursor →
    Except TemplateError (Node × Found × Cursor)
  | 0, _, test, start, found, c => .ok (.ifBlock test [] none ⟨start, c.pos⟩, found, c)
  | n + 1, depth, test, start, found, c => do
    let body ← children g n (depth + 1) found c
    match body.stop with
    | .alternative =>
      let other ← children g n (depth + 1) body.found body.after
      expectClose "if".toList start other
      let node := Node.ifBlock test body.nodes (some other.nodes) ⟨start, other.after.pos⟩
      return (node, other.found, other.after)
    | .alternativeIf test' =>
      let (nested, found, after) ← ifBlock g n depth test' body.stopStart body.found body.after
      return (.ifBlock test body.nodes (some [nested]) ⟨start, after.pos⟩, found, after)
    | _ =>
      expectClose "if".toList start body
      return (.ifBlock test body.nodes none ⟨start, body.after.pos⟩, body.found, body.after)

end

/-- Reads a whole source as a template. -/
def readTemplate (g : Grammar) (source : Text) : Except TemplateError Template := do
  let top ← children g (source.length + 2) 0 ⟨none, none⟩ ⟨0, source⟩
  match top.stop.fault? with
  | some fault => faultAt fault top.stopStart top.after.pos
  | none => return ⟨top.nodes, top.found.script, top.found.style⟩

end TemplateCompiler
