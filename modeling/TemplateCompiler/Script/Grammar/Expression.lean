import TemplateCompiler.Script.Grammar.Function

/-!
# Expressions

The rules from the innermost ones outwards: literals, primary expressions, member accesses and calls,
operators by their precedence, conditionals, assignments and sequences.

An arrow function can only stand where an assignment can start. `Context.arrowAt` holds that offset,
so that a rule further in knows whether a parenthesis or a name found there may be a parameter list.

## What this module delivers

* `primary`, `leftHandSide`, `unaryExpression`, `binaryTail`, `conditional`, `assignment`: the rules.
* `expression`: one or more assignments with commas between them.
-/

set_option autoImplicit false

namespace TemplateCompiler.Script

open Reader

/-- Whether an expression is an arrow function. -/
def Expr.isArrow : Expr → Bool
  | .arrow .. | .arrowExpr .. => true
  | _ => false

/-- Whether an expression is a link of an optional chain. -/
def Expr.isChain : Expr → Bool
  | .chainMember .. | .chainCall .. => true
  | _ => false

/-- One or more assignments with commas between them. -/
def expression (d : Deeper) (ctx : Context) : Reader Expr := do
  match ← listOf (d.assignment ctx) d.budget with
  | [e] => return e
  | first :: rest => return .sequence (← spanFrom first.span.start) (first :: rest)
  | [] => fail

/-! ## Arguments and literals -/

/-- An argument or array item, which may be spread. -/
def spreadable (d : Deeper) (ctx : Context) : Reader Expr := do
  let start ← offset
  if ← accept .ellipsis then
    let arg ← d.assignment { ctx with allowIn := true }
    return .spread (← spanFrom start) arg
  else d.assignment { ctx with allowIn := true }

/-- Arguments from the opening parenthesis on. -/
def arguments (d : Deeper) (ctx : Context) : Reader (List Expr) := do
  expect .parenOpen
  listUntil .parenClose (spreadable d ctx) d.budget

/-- The items of an array up to its end, and whether a comma follows the last one. -/
def arrayItems (d : Deeper) (ctx : Context) : Nat → Reader (List Expr × Bool)
  | 0 => fail
  | n + 1 => do
    let l ← lexeme
    if ← accept .bracketClose then return ([], false)
    else if ← accept .comma then
      let (items, trailing) ← arrayItems d ctx n
      return (.omitted l.span :: items, trailing)
    else
      let item ← spreadable d ctx
      if ← accept .bracketClose then return ([item], false)
      else
        expect .comma
        if ← accept .bracketClose then return ([item], true)
        else
          let (items, trailing) ← arrayItems d ctx n
          return (item :: items, trailing)

/-- An array. -/
def arrayLiteral (d : Deeper) (ctx : Context) : Reader Expr := do
  let start ← offset
  expect .bracketOpen
  let (items, trailing) ← arrayItems d ctx d.budget
  return .array (← spanFrom start) items trailing

/-- A method of an object after its key. -/
def objectMethod (d : Deeper) (ctx : Context) (start : Nat) (key : Key) (async generator : Bool) :
    Reader Property := do
  let (params, body) ← methodRest d ctx async generator
  return .method key (← spanFrom start) params body

/-- A property of an object. -/
def objectProperty (d : Deeper) (ctx : Context) : Reader Property := do
  let l ← lexeme
  if ← accept .ellipsis then
    let arg ← d.assignment { ctx with allowIn := true }
    return .spread (← spanFrom l.start) arg
  else if ← accept (.operator .mul) then
    let key ← propertyKey d ctx
    objectMethod d ctx l.start key false true
  else
    let key ← propertyKey d ctx
    match ← token, l.token with
    | .colon, _ =>
      advance
      return .keyValue key (← d.assignment { ctx with allowIn := true })
    | .parenOpen, _ => objectMethod d ctx l.start key false false
    | .comma, .word name _ | .braceClose, .word name _ =>
      require (isReferenceIn ctx (← get).goal name)
      return .shorthand ⟨name, l.span⟩
    | .equals, .word name _ =>
      require (isReferenceIn ctx (← get).goal name)
      advance
      return .shorthandDefault ⟨name, l.span⟩ (← d.assignment { ctx with allowIn := true })
    | _, first =>
      if isWord first "get" then
        let key ← propertyKey d ctx
        let body ← getterRest d ctx
        return .getter key (← spanFrom l.start) body
      else if isWord first "set" then
        let key ← propertyKey d ctx
        let (param, body) ← setterRest d ctx
        return .setter key (← spanFrom l.start) param body
      else if isWord first "async" then
        let generator ← accept (.operator .mul)
        let key ← propertyKey d ctx
        objectMethod d ctx l.start key true generator
      else fail

/-- The properties of an object up to its end, and whether a comma follows the last one. -/
def objectItems (d : Deeper) (ctx : Context) : Nat → Reader (List Property × Bool)
  | 0 => fail
  | n + 1 => do
    if ← accept .braceClose then return ([], false)
    else
      let item ← objectProperty d ctx
      if ← accept .braceClose then return ([item], false)
      else
        expect .comma
        if ← accept .braceClose then return ([item], true)
        else
          let (items, trailing) ← objectItems d ctx n
          return (item :: items, trailing)

/-- An object. -/
def objectLiteral (d : Deeper) (ctx : Context) : Reader Expr := do
  let start ← offset
  expect .braceOpen
  let (props, trailing) ← objectItems d ctx d.budget
  return .object (← spanFrom start) props trailing

/-- A regular expression. The current token is its first slash. -/
def regexLiteral : Reader Expr := do
  let l ← lexeme
  let text := if l.token == .divEquals then '=' :: l.after else l.after
  match readRegex text with
  | some rest =>
    resumeAt (l.start + 1 + (Text.byteLength text - Text.byteLength rest)) rest
    return .literal (← spanFrom l.start)
  | none => fail

/-- The holes of a template, from `text` at `pos` on. A template without a tag refuses malformed
escapes. -/
def templateHoles (d : Deeper) (ctx : Context) (tagged : Bool) :
    Nat → Nat → Text → Reader (List Expr)
  | 0, _, _ => fail
  | n + 1, pos, text =>
    match readTemplatePart true text with
    | none => fail
    | some part => do
      require (tagged || part.escapesValid)
      resumeAt (pos + (Text.byteLength text - Text.byteLength part.after)) part.after
      if part.opensHole then
        let hole ← expression d { ctx with allowIn := true }
        let l ← lexeme
        require (l.token == .braceClose)
        return hole :: (← templateHoles d ctx tagged n l.stop l.after)
      else return []

/-- The holes of a template whose backquote is the current token. -/
def templateRest (d : Deeper) (ctx : Context) (tagged : Bool) : Reader (List Expr) := do
  let l ← lexeme
  require (l.token == .backquote)
  templateHoles d ctx tagged d.budget l.stop l.after

/-! ## Primary expressions -/

/-- Whether an item of a parenthesis is an object with a default that only a pattern may hold. -/
def hasShorthandDefault : Expr → Bool
  | .object _ props _ => props.any fun
    | .shorthandDefault .. => true
    | _ => false
  | _ => false

/-- Whether an expression is spread. -/
def Expr.isSpread : Expr → Bool
  | .spread .. => true
  | _ => false

/-- The items between parentheses, and whether a comma follows the last one. -/
def parenItems (d : Deeper) (ctx : Context) : Nat → Reader (List Expr × Bool)
  | 0 => fail
  | n + 1 => do
    if ← accept .parenClose then return ([], false)
    else
      let item ← spreadable d ctx
      if ← accept .parenClose then return ([item], false)
      else
        expect .comma
        if ← accept .parenClose then return ([item], true)
        else
          let (items, trailing) ← parenItems d ctx n
          return (item :: items, trailing)

/-- The expression that a parenthesis around some items stands for. -/
def parenthesized (start : Nat) (items : List Expr) : Reader Expr := do
  require !(items.any Expr.isSpread || items.any hasShorthandDefault)
  match items with
  | [] => fail
  | [e] => return .paren (← spanFrom start) e
  | first :: rest =>
    let stop := (rest.getLast?.getD first).span.stop
    return .paren (← spanFrom start) (.sequence ⟨first.span.start, stop⟩ (first :: rest))

/-- A parenthesis, a call of `async`, or an arrow function with a parameter list. The current token is
the parenthesis, and `async` the word before it. -/
def parenOrArrow (d : Deeper) (ctx : Context) (start : Nat) (async : Option Ident) :
    Reader Expr := do
  let parenStart ← offset
  expect .parenOpen
  let (items, trailing) ← parenItems d ctx d.budget
  if ← sees .arrow then
    require !(← newlineBefore)
    require (ctx.arrowAt == some start)
    advance
    match arrowParameters? ctx trailing items with
    | none => fail
    | some params =>
      let arrow ← arrowRest d ctx start async.isSome params
      match arrow, ← token with
      | .arrow .., .operator _ => fail
      | arrow, _ => return arrow
  else
    match async with
    | some id => return .call (← spanFrom start) (.ident id) items
    | none => parenthesized parenStart items

/-- A name, or an arrow function whose parameter it is. -/
def nameOrArrow (d : Deeper) (ctx : Context) : Reader Expr := do
  let id ← identifierReference ctx
  let mayBeArrow := ctx.arrowAt == some id.span.start && !(← newlineBefore)
  if !mayBeArrow then return .ident id
  else if ← accept .arrow then
    require (isAssignableName ctx id.name)
    arrowRest d ctx id.span.start false [.ident id]
  else
    match ← token with
    | .word name _ =>
      if id.name == "async".toList && isReferenceIn ctx (← get).goal name then
        let param ← bindingIdentifier ctx
        expect .arrow
        arrowRest d ctx id.span.start true [.ident param]
      else return .ident id
    | _ => return .ident id

/-- A primary expression that starts with a word. -/
def primaryWord (d : Deeper) (ctx : Context) (l : Lexeme) (name : Text) : Reader Expr := do
  if name == "this".toList then
    advance
    return .this l.span
  else if isOneOf ["null", "true", "false"] name then
    advance
    return .literal l.span
  else if name == "function".toList then functionExpression d ctx l.start false
  else if name == "class".toList then classExpression d ctx
  else if name == "async".toList then
    let next ← peek
    if isWord next.token "function" && !next.newlineBefore then
      advance
      functionExpression d ctx l.start true
    else if next.token == .parenOpen && !next.newlineBefore && ctx.arrowAt == some l.start then
      advance
      parenOrArrow d ctx l.start (some ⟨name, l.span⟩)
    else nameOrArrow d ctx
  else nameOrArrow d ctx

/-- A primary expression. -/
def primary (d : Deeper) (ctx : Context) : Reader Expr := do
  let l ← lexeme
  match l.token with
  | .word name _ => primaryWord d ctx l name
  | .number _ legacy | .string _ legacy =>
    require !(ctx.strict && legacy)
    advance
    return .literal l.span
  | .bigint _ =>
    advance
    return .literal l.span
  | .operator .div | .divEquals => regexLiteral
  | .bracketOpen => arrayLiteral d ctx
  | .braceOpen => objectLiteral d ctx
  | .parenOpen => parenOrArrow d ctx l.start none
  | .backquote =>
    let holes ← templateRest d ctx false
    return .template (← spanFrom l.start) holes
  | .hash =>
    advance
    let id ← identifierName
    return .privateName ⟨l.start, id.span.stop⟩
  | _ => fail

/-! ## Member accesses and calls -/

/-- The key between brackets, or the name after a dot that is already consumed. -/
def accessKey (d : Deeper) (ctx : Context) : Reader Key := do
  let start ← offset
  if ← accept .bracketOpen then
    let e ← expression d { ctx with allowIn := true }
    expect .bracketClose
    return .computed (← spanFrom start) e
  else if ← accept .hash then
    let id ← identifierName
    return .privateName id.name ⟨start, id.span.stop⟩
  else
    let id ← identifierName
    return .named id.name id.span

/-- One more link after an expression: nothing if there is none. A link that continues an optional
chain belongs to it. -/
def subscript (d : Deeper) (ctx : Context) (noCall : Bool) (e : Expr) : Reader (Option Expr) := do
  let start := e.span.start
  match ← token with
  | .question =>
    if (← peek).token == .dot then
      advance
      advance
      if ← sees .parenOpen then
        let args ← arguments d ctx
        return some (.chainCall (← spanFrom start) e args)
      else
        let key ← accessKey d ctx
        return some (.chainMember (← spanFrom start) e key)
    else return none
  | .bracketOpen =>
    let key ← accessKey d ctx
    let span ← spanFrom start
    return some (if e.isChain then .chainMember span e key else .member span e key)
  | .dot =>
    advance
    require !(← sees .bracketOpen)
    let key ← accessKey d ctx
    let span ← spanFrom start
    return some (if e.isChain then .chainMember span e key else .member span e key)
  | .parenOpen =>
    if noCall then return none
    else
      let args ← arguments d ctx
      let span ← spanFrom start
      return some (if e.isChain then .chainCall span e args else .call span e args)
  | .backquote =>
    require !e.isChain
    let holes ← templateRest d ctx true
    return some (.tagged (← spanFrom start) e holes)
  | _ => return none

/-- All the links after an expression. -/
def subscripts (d : Deeper) (ctx : Context) (noCall : Bool) : Nat → Expr → Reader Expr
  | 0, _ => fail
  | n + 1, e => do
    match ← subscript d ctx noCall e with
    | some longer => subscripts d ctx noCall n longer
    | none => return e

/-- An access to, or a call of, what a class extends. The word `super` is already consumed. -/
def superRest (d : Deeper) (ctx : Context) (start : Nat) (noCall : Bool) : Reader Expr := do
  if ← sees .parenOpen then
    require (ctx.superCall && !noCall)
    let args ← arguments d ctx
    return .superCall (← spanFrom start) args
  else
    require ctx.superProperty
    if ← sees .bracketOpen then
      let key ← accessKey d ctx
      return .superMember (← spanFrom start) key
    else
      expect .dot
      require !(← sees .bracketOpen)
      let key ← accessKey d ctx
      return .superMember (← spanFrom start) key

/-- A dynamic import, or the metadata of a module. The word `import` is already consumed. -/
def importRest (d : Deeper) (ctx : Context) (start : Nat) (noCall : Bool) : Reader Expr := do
  if ← accept .dot then
    expectWord "meta"
    require ((← get).goal == .module)
    return .metaProperty (← spanFrom start)
  else
    require !noCall
    expect .parenOpen
    let arg ← d.assignment { ctx with allowIn := true }
    expect .parenClose
    return .importCall (← spanFrom start) [arg]

/-- A construction, or an expression with member accesses but no calls. -/
def memberOrNew (d : Deeper) (ctx : Context) : Reader Expr := do
  let start ← offset
  if ← acceptWord "new" then
    if ← accept .dot then
      expectWord "target"
      require (ctx.inOrdinaryFunction || ctx.inParameters)
      subscripts d ctx true d.budget (.metaProperty (← spanFrom start))
    else
      let callee ← d.constructed ctx
      require !callee.isChain
      if callee.isArrow then return callee
      else if ← sees .parenOpen then
        let args ← arguments d ctx
        subscripts d ctx true d.budget (.construct (← spanFrom start) callee args)
      else return .construct (← spanFrom start) callee []
  else if ← acceptWord "super" then
    subscripts d ctx true d.budget (← superRest d ctx start true)
  else if ← acceptWord "import" then
    subscripts d ctx true d.budget (← importRest d ctx start true)
  else
    let e ← primary d ctx
    if e.isArrow then return e else subscripts d ctx true d.budget e

/-- An expression with member accesses and calls. -/
def leftHandSide (d : Deeper) (ctx : Context) : Reader Expr := do
  let start ← offset
  if ← acceptWord "super" then
    subscripts d ctx false d.budget (← superRest d ctx start false)
  else if ← acceptWord "import" then
    subscripts d ctx false d.budget (← importRest d ctx start false)
  else
    let e ← memberOrNew d ctx
    if e.isArrow then return e else subscripts d ctx false d.budget e

/-! ## Operators -/

/-- The operator before an operand. -/
def unaryOperator? : Token → Option UnaryOp
  | .operator .add => some .plus
  | .operator .sub => some .minus
  | .tilde => some .bitNot
  | .bang => some .not
  | t =>
    if isWord t "delete" then some .delete
    else if isWord t "void" then some .void
    else if isWord t "typeof" then some .typeOf
    else none

/-- An expression that waits for a value. Outside of asynchronous code `await` can be a name. -/
def awaitExpression (d : Deeper) (ctx : Context) : Reader Expr := do
  let l ← lexeme
  expectWord "await"
  match ← token with
  | .operator .mul => fail
  | t =>
    if !ctx.inAsync && (t == .parenClose || t == .bracketClose) then
      require ((← get).goal == .script)
      return .ident ⟨"await".toList, l.span⟩
    else
      require (ctx.inAsync || !ctx.inFunction)
      require (ctx.inFunction || !ctx.inParameters)
      let arg ← d.unary ctx
      return .await (← spanFrom l.start) arg

/-- An operand with the operators before and after it. -/
def unaryExpression (d : Deeper) (ctx : Context) : Reader Expr := do
  let l ← lexeme
  match l.token, unaryOperator? l.token with
  | .increment, _ | .decrement, _ =>
    advance
    let arg ← d.unary ctx
    require (isSimpleTarget ctx arg)
    return .update (← spanFrom l.start) arg
  | _, some op =>
    advance
    let arg ← d.unary ctx
    match op, arg with
    | .delete, .ident _ => require !ctx.strict
    | _, _ => pure ()
    return .unary (← spanFrom l.start) op arg
  | t, none =>
    if isWord t "await" then awaitExpression d ctx
    else
      let e ← leftHandSide d ctx
      match e.isArrow || (← newlineBefore), ← token with
      | false, .increment | false, .decrement =>
        require (isSimpleTarget ctx e)
        advance
        return .update (← spanFrom l.start) e
      | _, _ => return e

/-- The operator between two operands. -/
def binaryOperator? (ctx : Context) : Token → Option BinaryOp
  | .operator op => some op
  | t =>
    if isWord t "instanceof" then some .instanceOf
    else if ctx.allowIn && isWord t "in" then some .isIn
    else none

/-- How tightly an operator binds. -/
def BinaryOp.precedence : BinaryOp → Nat
  | .coalesce | .or => 1
  | .and => 2
  | .bitOr => 3
  | .bitXor => 4
  | .bitAnd => 5
  | .equal | .notEqual | .identical | .notIdentical => 6
  | .less | .greater | .lessEqual | .greaterEqual | .instanceOf | .isIn => 7
  | .shiftLeft | .shiftRight | .shiftRightZero => 8
  | .add | .sub => 9
  | .mul | .div | .rem => 10
  | .power => 11

/-- Whether an operand of one operator cannot be the result of another without parentheses. -/
def BinaryOp.excludes : BinaryOp → Expr → Bool
  | .coalesce, .binary _ .or _ _ | .coalesce, .binary _ .and _ _ => true
  | .or, .binary _ .coalesce _ _ | .and, .binary _ .coalesce _ _ => true
  | _, _ => false

/-- Whether an expression cannot be raised to a power without parentheses. -/
def Expr.refusesPower : Expr → Bool
  | .unary .. | .await .. => true
  | _ => false

/-- The operators after a first operand that bind more tightly than `least`, and their operands. -/
def binaryTail (d : Deeper) (ctx : Context) : Nat → Nat → Expr → Reader Expr
  | 0, _, _ => fail
  | n + 1, least, left => do
    match binaryOperator? ctx (← token) with
    | none => return left
    | some op =>
      if op.precedence ≤ least then return left
      else
        require !(op == .power && left.refusesPower)
        advance
        let operand ← d.unary { ctx with arrowAt := none }
        -- A power takes the powers to its right as its exponent.
        let right ← binaryTail d ctx n
          (if op == .power then op.precedence - 1 else op.precedence) operand
        require !(op.excludes left || op.excludes right)
        binaryTail d ctx n least (.binary ⟨left.span.start, right.span.stop⟩ op left right)

/-- Operands with operators between them. -/
def binaryExpression (d : Deeper) (ctx : Context) : Reader Expr := do
  let left ← unaryExpression d ctx
  if left.isArrow then return left else binaryTail d ctx d.budget 0 left

/-! ## Conditionals and assignments -/

/-- A conditional, or its test alone. -/
def conditional (d : Deeper) (ctx : Context) : Reader Expr := do
  let test ← binaryExpression d ctx
  if test.isArrow then return test
  else if ← accept .question then
    let yes ← d.assignment { ctx with allowIn := true }
    expect .colon
    let no ← d.assignment ctx
    return .conditional (← spanFrom test.span.start) test yes no
  else return test

/-- Whether an expression can start with a token. -/
def startsExpression (ctx : Context) : Token → Bool
  | .bang | .parenOpen | .bracketOpen | .braceOpen | .increment | .decrement | .string .. => true
  | .number .. | .bigint _ | .backquote | .tilde | .hash | .operator .add | .operator .sub => true
  | .operator .div | .divEquals => true
  | .word name _ =>
    isIdentifierIn ctx name || isOneOf
      ["this", "null", "true", "false", "function", "class", "new", "super", "import", "delete",
       "typeof", "void", "yield", "await"] name
  | _ => false

/-- An expression that suspends a generator. -/
def yieldExpression (d : Deeper) (ctx : Context) : Reader Expr := do
  let start ← offset
  expectWord "yield"
  require (ctx.inFunction || !ctx.inParameters)
  let delegates ← sees (.operator .mul)
  if (← seesEnd) || (!delegates && !startsExpression ctx (← token)) then
    return .yield (← spanFrom start) none
  else
    let _ ← accept (.operator .mul)
    let arg ← d.assignment ctx
    return .yield (← spanFrom start) (some arg)

/-- Whether an arrow function may start with a token. -/
def startsArrow : Token → Bool
  | .parenOpen => true
  | .word name _ => !isReservedWord name && !isOneOf ["let", "await"] name
  | _ => false

/-- What follows an assignment's target, if it is one. -/
def assignmentRest (d : Deeper) (ctx : Context) (e : Expr) : Reader Expr := do
  match ← token with
  | .equals =>
    match assignmentTarget? ctx e with
    | none => fail
    | some target =>
      advance
      let value ← d.assignment ctx
      return .assign (← spanFrom e.span.start) target value
  | .updateEquals | .divEquals =>
    require (isSimpleTarget ctx e)
    advance
    let value ← d.assignment ctx
    return .assignUpdate (← spanFrom e.span.start) e value
  | _ => return e

/-- An assignment, or any expression that binds more tightly. The result of an operator is never a
target, so what follows it is left alone. -/
def assignment (d : Deeper) (ctx : Context) : Reader Expr := do
  if ctx.inGenerator && (← seesWord "yield") then yieldExpression d ctx
  else
    let l ← lexeme
    let e ← conditional d { ctx with arrowAt := if startsArrow l.token then some l.start else none }
    match e with
    | .arrow .. | .arrowExpr .. | .conditional .. | .binary .. | .unary .. | .update .. => return e
    | e => assignmentRest d ctx e

end TemplateCompiler.Script
