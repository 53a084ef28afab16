import TemplateCompiler.Script.Scanner

/-!
# Reading trees from tokens

A reader looks at one token, advances over it, and answers a tree or fails. A text that does not
follow the grammar has no tree; which rule it breaks is not recorded.

The rules of the grammar refer to each other without an end. Each rule is therefore written against
`Deeper`, the rules that it uses one level further in, and the levels are built upwards from one where
every rule fails. A text is never nested more deeply than it is long, so a level as high as the length
of the text misses nothing.

## What this module delivers

* `Reader`, and the steps over the current token: `accept`, `expect`, `acceptWord`, `expectWord`.
* `Context`: what the surroundings of a rule permit.
* `Deeper`: the rules one level further in.
* `identifierReference`, `bindingIdentifier`, `identifierName`: names in their three roles.
-/

set_option autoImplicit false

namespace TemplateCompiler.Script

/-- The state of a reader. -/
structure ReaderState where
  goal : Goal
  /-- The token under consideration. -/
  current : Lexeme
  /-- Where the token before it ends. -/
  lastStop : Nat

/-- A computation that consumes tokens and may fail. -/
abbrev Reader (α : Type) := StateT ReaderState Option α

/-- What the surroundings of a rule permit. -/
structure Context where
  /-- Whether `in` is an operator here. -/
  allowIn : Bool := true
  strict : Bool := false
  inAsync : Bool := false
  inGenerator : Bool := false
  inFunction : Bool := false
  inParameters : Bool := false
  /-- Whether a function other than an arrow function is around. -/
  inOrdinaryFunction : Bool := false
  inClassField : Bool := false
  inStaticBlock : Bool := false
  superProperty : Bool := false
  superCall : Bool := false
  allowBreak : Bool := false
  allowContinue : Bool := false
  /-- The labels of the statements around. -/
  labels : List Text := []
  /-- The offset where an arrow function may start. -/
  arrowAt : Option Nat := none

/-- The rules one level further in. -/
structure Deeper where
  /-- A bound for the repetitions of a rule. -/
  budget : Nat
  assignment : Context → Reader Expr
  unary : Context → Reader Expr
  /-- What a class extends. -/
  leftHandSide : Context → Reader Expr
  /-- The callee of a construction. -/
  constructed : Context → Reader Expr
  /-- A pattern of parameters and declarations. -/
  binding : Context → Reader Pat
  /-- A statement, or also a declaration. -/
  statement : Context → Bool → Reader Stmt

namespace Reader

/-- The text does not follow the grammar. -/
def fail {α : Type} : Reader α := fun _ => none

/-- Fails unless a condition holds. -/
def require (condition : Bool) : Reader Unit :=
  if condition then pure () else fail

/-! ## The current token -/

/-- The current lexeme. -/
def lexeme : Reader Lexeme := do return (← get).current

/-- The current token. -/
def token : Reader Token := do return (← get).current.token

/-- The offset where the current token starts. -/
def offset : Reader Nat := do return (← get).current.start

/-- Whether a line ends before the current token. -/
def newlineBefore : Reader Bool := do return (← get).current.newlineBefore

/-- The span from an offset to the end of the last consumed token. -/
def spanFrom (start : Nat) : Reader Span := do return ⟨start, (← get).lastStop⟩

/-- The lexeme after the current one. -/
def peek : Reader Lexeme := fun s =>
  (scan s.goal false s.current.stop s.current.after).map fun l => (l, s)

/-- Continues at an offset with a text. -/
def resumeAt (pos : Nat) (text : Text) : Reader Unit := fun s =>
  (scan s.goal false pos text).map fun l => ((), { s with current := l, lastStop := pos })

/-- Advances over the current token, unless it is malformed. -/
def advance : Reader Unit := do
  let l ← lexeme
  if l.token == .malformed then fail else resumeAt l.stop l.after

/-- Whether the current token is a given one. -/
def sees (t : Token) : Reader Bool := do return (← token) == t

/-- Advances over a given token if it is the current one. -/
def accept (t : Token) : Reader Bool := do
  if ← sees t then
    advance
    return true
  else return false

/-- Advances over a given token. -/
def expect (t : Token) : Reader Unit := do require (← accept t)

/-- Whether a token is a given word, written without escapes. -/
def isWord (t : Token) (w : String) : Bool := t == .word w.toList false

/-- Whether the current token is a given word. -/
def seesWord (w : String) : Reader Bool := do return isWord (← token) w

/-- Advances over a given word if it is the current token. -/
def acceptWord (w : String) : Reader Bool := accept (.word w.toList false)

/-- Advances over a given word. -/
def expectWord (w : String) : Reader Unit := expect (.word w.toList false)

/-! ## Ends of statements -/

/-- Whether a statement can end before the current token. -/
def seesEnd : Reader Bool := do
  match ← token with
  | .semicolon | .braceClose | .eof => return true
  | _ => newlineBefore

/-- Advances over the end of a statement: a semicolon, or nothing before a brace, at the end of the
text and after the end of a line. -/
def acceptEnd : Reader Bool := do
  if ← accept .semicolon then return true else seesEnd

/-- Advances over the end of a statement. -/
def expectEnd : Reader Unit := do require (← acceptEnd)

/-! ## Repetition -/

/-- Reads items until a closing token, with commas between them. A comma may stand before the closing
token. -/
def listUntil {α : Type} (close : Token) (item : Reader α) : Nat → Reader (List α)
  | 0 => fail
  | n + 1 => do
    if ← accept close then return []
    else
      let x ← item
      if ← accept close then return [x]
      else
        expect .comma
        return x :: (← listUntil close item n)

/-- Reads items until a closing token. -/
def manyUntil {α : Type} (close : Token) (item : Reader α) : Nat → Reader (List α)
  | 0 => fail
  | n + 1 => do
    if ← accept close then return []
    else
      let x ← item
      return x :: (← manyUntil close item n)

/-- Reads one or more items with commas between them. -/
def listOf {α : Type} (item : Reader α) : Nat → Reader (List α)
  | 0 => fail
  | n + 1 => do
    let x ← item
    if ← accept .comma then return x :: (← listOf item n) else return [x]

end Reader

open Reader

/-! ## Names -/

/-- Any word, keywords included. -/
def identifierName : Reader Ident := do
  let l ← lexeme
  match l.token with
  | .word name _ =>
    advance
    return ⟨name, l.span⟩
  | _ => fail

/-- Whether a word can be an identifier somewhere in the surroundings. -/
def isIdentifierIn (ctx : Context) (name : Text) : Bool :=
  !isReservedWord name && !(ctx.strict && isStrictReservedWord name)

/-- Whether a word can refer to a variable. -/
def isReferenceIn (ctx : Context) (goal : Goal) (name : Text) : Bool :=
  isIdentifierIn ctx name
    && !(name == "yield".toList && ctx.inGenerator)
    && !(name == "await".toList && (ctx.inAsync || ctx.inStaticBlock || goal == .module))
    && !(name == "arguments".toList && ctx.inClassField)

/-- A name that refers to a variable. -/
def identifierReference (ctx : Context) : Reader Ident := do
  let id ← identifierName
  require (isReferenceIn ctx (← get).goal id.name)
  return id

/-- Whether a name may be assigned to. -/
def isAssignableName (ctx : Context) (name : Text) : Bool :=
  !(ctx.strict && isOneOf ["eval", "arguments"] name)

/-- A name that is bound. -/
def bindingIdentifier (ctx : Context) : Reader Ident := do
  let id ← identifierReference ctx
  require (isAssignableName ctx id.name)
  return id

end TemplateCompiler.Script
