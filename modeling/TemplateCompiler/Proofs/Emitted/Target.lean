import TemplateCompiler.Proofs.Emitted.Lexical
import TemplateCompiler.Script.Tree

/-!
# The programs that emitted code is read as

The part of the script language that emitted code uses: expressions of the source, template literals,
conditionals, the mapping and joining of lists, and calls that render a component. Atoms are parsed the
way the language does it, with the precedence of expressions: an expression of the source can stand
only where its own form is allowed to.

## What this module delivers

* `level`: how tightly an expression binds.
* `Target`: programs.
* `parseAt`, `parseStatement`: what atoms are parsed as.
-/

set_option autoImplicit false

namespace TemplateCompiler.Emitted

open Script

/-! ## Programs -/

/-- How tightly an expression binds: `0` for a sequence, `1` for what can be assigned, passed or put
into an object as it is, `2` for what can be tested by a conditional too, and `3` for what a member can
be accessed on. A number or an optional chain would swallow the access, so it is not of level `3`. -/
def level : Expr → Nat
  | .sequence .. => 0
  | .assign .. | .assignUpdate .. | .arrow .. | .arrowExpr .. | .conditional .. | .yield .. => 1
  | .ident _ | .this _ | .array .. | .object .. | .function .. | .classExpr .. | .template .. => 3
  | .tagged .. | .paren .. | .member .. | .superMember .. | .call .. | .superCall .. => 3
  | .importCall .. => 3
  | _ => 2

/-- Programs. -/
inductive Target where
  /-- An expression of the source. -/
  | source (e : Expr)
  /-- A program between parentheses. -/
  | grouped (t : Target)
  /-- The value of a switch that is on. -/
  | switch
  | quoted (t : Text)
  /-- A template literal: its characters, as strings, and its holes. -/
  | literal (parts : List Target)
  | conditional (test yes no : Target)
  /-- A list with a function of an item, and maybe of its index, applied to every item. -/
  | mapped (list : Target) (params : List Text) (body : Target)
  | joined (list : Target) (separator : Text)
  /-- The call that renders a component, with the keys and the values of what it receives. -/
  | component (name : Text) (keys : List Text) (values : List Target)

/-- How tightly a program binds. -/
def Target.level : Target → Nat
  | .source e => Emitted.level e
  | .conditional .. => 1
  | _ => 3

/-- Goes on if a condition holds. -/
def demand (condition : Bool) : Option Unit :=
  if condition then some () else none

@[simp] theorem demand_true : demand true = some () := rfl

/-! ## Words and marks -/

/-- The blanks of emitted code. -/
def isGap (c : Char) : Bool :=
  c == ' ' || c == '\n'

/-- The atoms after blanks. -/
def skipBlanks : List Atom → List Atom
  | .code c :: rest => if isGap c then skipBlanks rest else .code c :: rest
  | atoms => atoms

/-- The atoms after a character of code, blanks before it skipped. -/
def mark (c : Char) (atoms : List Atom) : Option (List Atom) :=
  match skipBlanks atoms with
  | .code d :: rest => if d = c then some rest else none
  | _ => none

/-- The characters of a name, and the atoms after them. -/
def nameRun : List Atom → Text × List Atom
  | .code c :: rest =>
    if isIdentifierPart c then (c :: (nameRun rest).1, (nameRun rest).2) else ([], .code c :: rest)
  | atoms => ([], atoms)

/-- Whether atoms go on with an expression of the source or with a character of a name, which would be
read together with a name or an expression right before them. -/
def runsOn : List Atom → Bool
  | .source _ :: _ => true
  | .code c :: _ => isIdentifierPart c
  | _ => false

/-- A name, and the atoms after it. -/
def takeName (atoms : List Atom) : Option (Text × List Atom) :=
  let (name, rest) := nameRun (skipBlanks atoms)
  if isIdentifier name && !runsOn rest then some (name, rest) else none

/-- The atoms after a given name. -/
def word (name : Text) (atoms : List Atom) : Option (List Atom) :=
  match takeName atoms with
  | some (n, rest) => if n = name then some rest else none
  | none => none

/-- The value of a string up to its end, and the atoms after it. -/
def takeQuoted : List Atom → Option (Text × List Atom)
  | .quoted c :: rest => (takeQuoted rest).map fun r => (c :: r.1, r.2)
  | .quoteClose :: rest => some ([], rest)
  | _ => none

/-- The value of a string, and the atoms after it. -/
def takeString (atoms : List Atom) : Option (Text × List Atom) :=
  match skipBlanks atoms with
  | .quoteOpen :: rest => takeQuoted rest
  | _ => none

/-- The key of a property: a string or a name. -/
def takeKey (atoms : List Atom) : Option (Text × List Atom) :=
  match takeString atoms with
  | some r => some r
  | none => takeName atoms

/-- The access to a property by a name, or by a string in brackets. -/
def takeAccess (atoms : List Atom) : Option (Text × List Atom) :=
  match mark '.' atoms with
  | some rest => takeName rest
  | none => do
    let rest ← mark '[' atoms
    let (name, rest) ← takeString rest
    let rest ← mark ']' rest
    return (name, rest)

/-- The parameters of a function: a name, or two names between parentheses. -/
def takeParams (atoms : List Atom) : Option (List Text × List Atom) :=
  match mark '(' atoms with
  | some rest => do
    let (item, rest) ← takeName rest
    let rest ← mark ',' rest
    let (index, rest) ← takeName rest
    let rest ← mark ')' rest
    return ([item, index], rest)
  | none => do
    let (item, rest) ← takeName atoms
    return ([item], rest)

/-- The atoms after an arrow. -/
def takeArrow (atoms : List Atom) : Option (List Atom) :=
  match skipBlanks atoms with
  | .code '=' :: .code '>' :: rest => some rest
  | _ => none

/-- The atoms after the mark of a conditional. The marks of an optional chain and of a coalescing
operator start with the same character. -/
def takeQuestion (atoms : List Atom) : Option (List Atom) :=
  match mark '?' atoms with
  | some rest =>
    if rest.head? = some (.code '.') ∨ rest.head? = some (.code '?') then none else some rest
  | none => none

/-! ## Expressions -/

mutual

/-- A literal, an expression of the source, something between parentheses, a switch or a component. -/
def parsePrimary (lookup : Span → Option Expr) : Nat → List Atom → Option (Target × List Atom)
  | 0, _ => none
  | fuel + 1, atoms =>
    match skipBlanks atoms with
    | .source range :: rest =>
      if runsOn rest then none else (lookup range).map fun e => (.source e, rest)
    | .literalOpen :: rest => do
      let (parts, rest) ← parseParts lookup fuel rest
      return (.literal parts, rest)
    | rest =>
      match mark '(' rest with
      | some rest => do
        let (t, rest) ← parseAt lookup 0 fuel rest
        let rest ← mark ')' rest
        return (.grouped t, rest)
      | none => do
        let (name, rest) ← takeName rest
        parseNamed lookup fuel name rest

/-- A switch or a component, after the name it starts with. -/
def parseNamed (lookup : Span → Option Expr) :
    Nat → Text → List Atom → Option (Target × List Atom)
  | 0, _, _ => none
  | fuel + 1, name, atoms =>
    if name = "true".toList then some (.switch, atoms)
    else if name = "template".toList then do
      let rest ← mark '.' atoms
      let rest ← word "components".toList rest
      let (component, rest) ← takeAccess rest
      let rest ← mark '.' rest
      let rest ← word "render".toList rest
      let rest ← mark '(' rest
      let rest ← mark '\x7b' rest
      let (keys, values, rest) ← parseProps lookup fuel rest
      let rest ← mark ')' rest
      return (.component component keys values, rest)
    else none

/-- The calls of list methods after a program. -/
def parsePostfix (lookup : Span → Option Expr) :
    Nat → Target → List Atom → Option (Target × List Atom)
  | 0, _, _ => none
  | fuel + 1, t, atoms =>
    match mark '.' atoms with
    | none => some (t, atoms)
    | some rest => do
      demand (t.level == 3)
      let (name, rest) ← takeName rest
      let rest ← mark '(' rest
      if name = "map".toList then
        let (params, rest) ← takeParams rest
        let rest ← takeArrow rest
        let (body, rest) ← parseAt lookup 1 fuel rest
        let rest ← mark ')' rest
        parsePostfix lookup fuel (.mapped t params body) rest
      else if name = "join".toList then
        let (separator, rest) ← takeString rest
        let rest ← mark ')' rest
        parsePostfix lookup fuel (.joined t separator) rest
      else none

/-- An expression of a level: any of them for `0`, and no sequence for `1`. -/
def parseAt (lookup : Span → Option Expr) (least : Nat) :
    Nat → List Atom → Option (Target × List Atom)
  | 0, _ => none
  | fuel + 1, atoms => do
    let (t, rest) ← parsePrimary lookup fuel atoms
    let (t, rest) ← parsePostfix lookup fuel t rest
    match takeQuestion rest with
    | none =>
      demand (least ≤ t.level)
      return (t, rest)
    | some rest =>
      demand (2 ≤ t.level)
      let (yes, rest) ← parseAt lookup 1 fuel rest
      let rest ← mark ':' rest
      let (no, rest) ← parseAt lookup 1 fuel rest
      return (.conditional t yes no, rest)

/-- The inside of a template literal up to its end. -/
def parseParts (lookup : Span → Option Expr) : Nat → List Atom → Option (List Target × List Atom)
  | 0, _ => none
  | _ + 1, .literalClose :: rest => some ([], rest)
  | fuel + 1, .cooked c :: rest => do
    let (parts, rest) ← parseParts lookup fuel rest
    return (.quoted [c] :: parts, rest)
  | fuel + 1, .holeOpen :: rest => do
    let (t, rest) ← parseAt lookup 0 fuel rest
    match skipBlanks rest with
    | .holeClose :: rest =>
      let (parts, rest) ← parseParts lookup fuel rest
      return (t :: parts, rest)
    | _ => none
  | _ + 1, _ => none

/-- The properties of an object up to its end: their keys and values. -/
def parseProps (lookup : Span → Option Expr) :
    Nat → List Atom → Option (List Text × List Target × List Atom)
  | 0, _ => none
  | fuel + 1, atoms =>
    match mark '\x7d' atoms with
    | some rest => some ([], [], rest)
    | none => do
      let (key, rest) ← takeKey atoms
      let rest ← mark ':' rest
      let (value, rest) ← parseAt lookup 1 fuel rest
      match mark ',' rest with
      | some rest =>
        let (keys, values, rest) ← parseProps lookup fuel rest
        return (key :: keys, value :: values, rest)
      | none =>
        let rest ← mark '\x7d' rest
        return ([key], [value], rest)

end

/-- A statement that adds the value of an expression to the rendered text. -/
def parseStatement (lookup : Span → Option Expr) (atoms : List Atom) : Option Target := do
  let rest ← word "rendered".toList atoms
  match skipBlanks rest with
  | .code '+' :: .code '=' :: rest =>
    let (t, rest) ← parseAt lookup 1 (2 * rest.length + 2) rest
    let rest ← mark ';' rest
    demand (skipBlanks rest).isEmpty
    return t
  | _ => none

end TemplateCompiler.Emitted
