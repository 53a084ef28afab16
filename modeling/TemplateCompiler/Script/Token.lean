import TemplateCompiler.Number.Binary64
import TemplateCompiler.Script.Tree

/-!
# Tokens of scripts

## What this module delivers

* `Token`: the tokens. Keywords and identifiers are both words; the grammar tells them apart.
* `Lexeme`: a token where it stands, with the text that follows it.
* `Goal`: whether a text is read as a script or as a module.
* `isReservedWord`, `isStrictReservedWord`: the words that are never identifiers, and those that are
  not in strict code.
-/

set_option autoImplicit false

namespace TemplateCompiler.Script

/-- What a text is read as. Modules are strict and have no comments in the manner of markup. -/
inductive Goal where
  | script
  | module
deriving DecidableEq, Repr

/-- A token. -/
inductive Token where
  | eof
  /-- Characters that form no token. It is an error only where the token is used. -/
  | malformed
  /-- An identifier or keyword, and whether it was written with an escape. -/
  | word (name : Text) (escaped : Bool)
  /-- A number, and whether it has a form that strict code refuses. -/
  | number (value : Binary64) (legacy : Bool)
  | bigint (value : Nat)
  /-- A string, and whether it has an escape that strict code refuses. -/
  | string (value : Text) (legacy : Bool)
  | backquote
  | hash
  | parenOpen
  | parenClose
  | bracketOpen
  | bracketClose
  | braceOpen
  | braceClose
  | dot
  | ellipsis
  | semicolon
  | comma
  | colon
  | question
  | arrow
  | equals
  /-- An operator that assigns, division apart. -/
  | updateEquals
  /-- The assigning division, which can also open a regular expression. -/
  | divEquals
  | operator (op : BinaryOp)
  | bang
  | tilde
  | increment
  | decrement
deriving DecidableEq, Repr

/-- A token where it stands. -/
structure Lexeme where
  token : Token
  start : Nat
  stop : Nat
  /-- Whether a line ends between the token before and this one. -/
  newlineBefore : Bool
  /-- The text after the token. -/
  after : Text
deriving DecidableEq, Repr

/-- The span of a token. -/
def Lexeme.span (l : Lexeme) : Span := ⟨l.start, l.stop⟩

/-! ## Reserved words -/

/-- The words that are never identifiers. -/
def reservedWords : List String :=
  ["break", "case", "catch", "class", "const", "continue", "debugger", "default", "delete", "do",
   "else", "enum", "export", "extends", "false", "finally", "for", "function", "if", "import", "in",
   "instanceof", "new", "null", "return", "super", "switch", "this", "throw", "true", "try",
   "typeof", "var", "void", "while", "with"]

/-- The words that are not identifiers in strict code. -/
def strictReservedWords : List String :=
  ["implements", "interface", "let", "package", "private", "protected", "public", "static", "yield"]

/-- Whether a word is in a list of words. -/
def isOneOf (words : List String) (name : Text) : Bool :=
  words.any fun w => w.toList == name

/-- Whether a word is never an identifier. -/
def isReservedWord (name : Text) : Bool := isOneOf reservedWords name

/-- Whether a word is not an identifier in strict code. -/
def isStrictReservedWord (name : Text) : Bool := isOneOf strictReservedWords name

end TemplateCompiler.Script
