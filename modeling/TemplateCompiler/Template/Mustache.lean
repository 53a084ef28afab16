import TemplateCompiler.Script.Grammar
import TemplateCompiler.Script.Identifier
import TemplateCompiler.Template.Fault
import TemplateCompiler.Template.Name
import TemplateCompiler.Template.Tree

/-!
# Mustaches

A mustache runs from two opening braces to the first two closing braces that are neither nested nor
inside of a quoted text. Its content is an expression, the header of a block, its end, or an
alternative.

## What this module delivers

* `Cursor`: the unread text and its offset.
* `splitMustache`: the content of a mustache and the text after it.
* `expressionAt`: a text that is one whole expression.
* `splitAs?`, `eachHeader`: the header of an each block.
* `Mustache`, `readMustache`: what a mustache is.
-/

set_option autoImplicit false

namespace TemplateCompiler

open Script

/-- The unread text and its offset in the source. -/
structure Cursor where
  pos : Nat
  rest : Text
deriving DecidableEq, Repr

namespace Cursor

/-- The cursor behind a text that has been read. -/
def skip (c : Cursor) (read rest : Text) : Cursor := ⟨c.pos + Text.byteLength read, rest⟩

/-- The offset of the end of the source. -/
def stop (c : Cursor) : Nat := c.pos + Text.byteLength c.rest

/-- Reads the characters of a class. -/
def span (c : Cursor) (p : Char → Bool) : Text × Cursor :=
  let read := c.rest.takeWhile p
  (read, c.skip read (c.rest.dropWhile p))

/-- The cursor behind the blanks. -/
def skipBlanks (c : Cursor) : Cursor := (c.span Text.isBlank).2

end Cursor

/-- A failure with a fault and the range it concerns. -/
def faultAt {α : Type} (fault : TemplateFault) (start stop : Nat) : Except TemplateError α :=
  .error ⟨fault, ⟨start, max start stop⟩⟩

/-! ## The extent of a mustache -/

/-- Whether a character opens a quoted text. -/
def isQuote (c : Char) : Bool := c == '"' || c == '\'' || c == '\x60'

/-- Puts a character in front of the content of a mustache. -/
def consContent (c : Char) (r : Option (Text × Text)) : Option (Text × Text) :=
  r.map fun p => (c :: p.1, p.2)

/-- Cuts the text after the opening braces into the content of the mustache and the text after its
closing braces. `depth` counts the open braces, and `quote` is the quote of an open quoted text, in
which a backslash hides the next character. -/
def splitMustache : Nat → Option Char → Text → Option (Text × Text)
  | _, _, [] => none
  | depth, some q, '\\' :: c :: t => consContent '\\' (consContent c (splitMustache depth (some q) t))
  | depth, some q, c :: t =>
    consContent c (splitMustache depth (if c = q then none else some q) t)
  | depth, none, '\x7b' :: t => consContent '\x7b' (splitMustache (depth + 1) none t)
  | depth + 1, none, '\x7d' :: t => consContent '\x7d' (splitMustache depth none t)
  | 0, none, '\x7d' :: '\x7d' :: t => some ([], t)
  | depth, none, c :: t =>
    consContent c (splitMustache depth (if isQuote c then some c else none) t)

/-- The content of the mustache at a cursor, and the cursor behind it. -/
def takeMustache (c : Cursor) : Except TemplateError (Cursor × Cursor) :=
  match splitMustache 0 none (c.rest.drop 2) with
  | none => faultAt .unclosedMustache c.pos c.stop
  | some (content, rest) =>
    .ok (⟨c.pos + 2, content⟩, ⟨c.pos + 2 + Text.byteLength content + 2, rest⟩)

/-! ## Expressions -/

/-- Whether a text has only blanks and comments. Here a line comment ends at a line feed. -/
def isTrivia : Gap → Text → Bool
  | .blank, [] => true
  | .blank, '/' :: '*' :: t => isTrivia .blockComment t
  | .blank, '/' :: '/' :: t => isTrivia .lineComment t
  | .blank, c :: t => Text.isBlank c && isTrivia .blank t
  | .lineComment, [] => true
  | .lineComment, c :: t => isTrivia (if c = '\n' then .blank else .lineComment) t
  | .blockComment, [] => false
  | .blockComment, '*' :: '/' :: t => isTrivia .blank t
  | .blockComment, _ :: t => isTrivia .blockComment t

/-- The text at a cursor as one whole expression. -/
def expressionAt (g : Grammar) (c : Cursor) : Except TemplateError Expr :=
  match g.expression c.rest c.pos with
  | none => faultAt .malformedScript c.pos c.stop
  | some e =>
    if e.span.stop < c.pos then faultAt .strayExpression c.pos c.stop
    else
      match Text.drop? (e.span.stop - c.pos) c.rest with
      | none => faultAt .strayExpression c.pos c.stop
      | some trailing =>
        if isTrivia .blank trailing then .ok e else faultAt .trailingContent e.span.stop c.stop

/-! ## The header of an each block -/

/-- Cuts a text around the last `as` that has blanks on both sides. -/
def splitAs? : Text → Option (Text × Text)
  | [] => none
  | c :: t =>
    match splitAs? t with
    | some (before, after) => some (c :: before, after)
    | none =>
      match t with
      | 'a' :: 's' :: d :: after =>
        if Text.isBlank c && Text.isBlank d then some ([c], d :: after) else none
      | _ => none

/-- The bindings that some pieces of a header name. -/
def bindingsAt : Nat → List Text → Except TemplateError (List BlockBinding)
  | _, [] => .ok []
  | offset, piece :: pieces =>
    let name := Text.trim Text.isBlank piece
    let start := offset + Text.byteLength (piece.takeWhile Text.isBlank)
    let stop := start + Text.byteLength name
    if isIdentifier name then do
      let rest ← bindingsAt (offset + Text.byteLength piece + 1) pieces
      return ⟨name, ⟨start, stop⟩⟩ :: rest
    else faultAt (.invalidBindingName name) start stop

/-- What a mustache is. -/
inductive Mustache where
  | tag (e : Expr)
  | opensIf (test : Expr)
  | opensEach (iterable : Expr) (item : BlockBinding) (index : Option BlockBinding)
  | closes (name : Text)
  | alternative
  | alternativeIf (test : Expr)

/-- Reads the header of an each block: an expression, and one or two names. -/
def eachHeader (g : Grammar) (c : Cursor) : Except TemplateError Mustache :=
  match splitAs? c.rest with
  | none => faultAt .malformedEachHeader c.pos c.stop
  | some (before, after) => do
    let iterable ← expressionAt g ⟨c.pos, before⟩
    let bindings ← bindingsAt (c.pos + Text.byteLength before + 2) (Text.splitOn ',' after)
    match bindings with
    | [item] => return .opensEach iterable item none
    | [item, index] => return .opensEach iterable item (some index)
    | _ => faultAt .malformedEachHeader c.pos c.stop

/-! ## Kinds of mustaches -/

/-- Reads the header of a block after its mark. The mustache runs from `start` to `stop`. -/
def blockHeader (g : Grammar) (c : Cursor) (start stop : Nat) : Except TemplateError Mustache :=
  let (keyword, args) := c.span isAsciiAlphanumeric
  if keyword = "if".toList then do return .opensIf (← expressionAt g args)
  else if keyword = "each".toList then eachHeader g args
  else faultAt (.unknownBlock keyword) start stop

/-- Reads what follows the word `else`: nothing, or a further condition. Any other text does not make
the mustache an alternative. -/
def alternative? (g : Grammar) (c : Cursor) : Option (Except TemplateError Mustache) :=
  if c.rest.all Text.isBlank then some (.ok .alternative)
  else
    let test := c.skipBlanks
    match Text.stripStart? test.rest "if".toList with
    | some (b :: t) =>
      if Text.isBlank b then
        some (Mustache.alternativeIf <$> expressionAt g ⟨test.pos + 2, b :: t⟩)
      else none
    | _ => none

/-- Reads the content of a mustache that runs from `start` to `stop`. -/
def mustacheOf (g : Grammar) (content : Cursor) (start stop : Nat) :
    Except TemplateError Mustache :=
  let c := content.skipBlanks
  match c.rest with
  | '#' :: t => blockHeader g ⟨c.pos + 1, t⟩ start stop
  | '/' :: t => .ok (.closes (Text.trim Text.isBlank t))
  | t =>
    match (Text.stripStart? t "else".toList).bind fun t => alternative? g ⟨c.pos + 4, t⟩ with
    | some result => result
    | none => do return .tag (← expressionAt g content)

/-- Reads the mustache at a cursor. -/
def readMustache (g : Grammar) (c : Cursor) : Except TemplateError (Mustache × Cursor) := do
  let (content, after) ← takeMustache c
  let m ← mustacheOf g content c.pos after.pos
  return (m, after)

end TemplateCompiler
