import TemplateCompiler.Script.NameChar
import TemplateCompiler.Script.Token
import TemplateCompiler.Text.Blank

/-!
# Scanning scripts

A scanner step skips blanks and comments and reads one token. Two kinds of trouble are kept apart. A
comment or string that never ends, and a misplaced separator in a number, refuse the whole text: the
step has no answer. Everything else that forms no token gives `Token.malformed`, which is harmless as
long as nobody asks for a token there.

Regular expressions and the parts of templates are read on demand, since only the grammar knows where
they can stand.

## What this module delivers

* `scan`: one token after the blanks before it.
* `readRegex`: the rest of a regular expression.
* `readTemplatePart`: the characters of a template up to a hole or to its end.
-/

set_option autoImplicit false

namespace TemplateCompiler.Script

/-! ## Blanks and comments -/

/-- Where the scanner is between two tokens. -/
inductive Gap where
  | blank
  | lineComment
  | blockComment

/-- Skips blanks and comments. The answer is whether a line ended, the offset and the text that is
left. Markup comments run to the end of the line in a script and are refused in a module. -/
def skipGap (goal : Goal) : Gap → Bool → Nat → Text → Option (Bool × Nat × Text)
  | .blank, newline, pos, [] => some (newline, pos, [])
  | .blank, newline, pos, '/' :: '/' :: t => skipGap goal .lineComment newline (pos + 2) t
  | .blank, newline, pos, '/' :: '*' :: t => skipGap goal .blockComment newline (pos + 2) t
  | .blank, newline, pos, '<' :: '!' :: '-' :: '-' :: t =>
    match goal with
    | .script => skipGap goal .lineComment newline (pos + 4) t
    | .module => none
  | .blank, newline, pos, '-' :: '-' :: '>' :: t =>
    if newline then
      match goal with
      | .script => skipGap goal .lineComment newline (pos + 3) t
      | .module => none
    else some (newline, pos, '-' :: '-' :: '>' :: t)
  | .blank, newline, pos, c :: t =>
    if Text.isScriptBlank c then
      skipGap goal .blank (newline || Text.isLineTerminator c) (pos + c.utf8Size) t
    else some (newline, pos, c :: t)
  | .lineComment, newline, pos, [] => some (newline, pos, [])
  | .lineComment, newline, pos, c :: t =>
    if Text.isLineTerminator c then skipGap goal .blank true (pos + c.utf8Size) t
    else skipGap goal .lineComment newline (pos + c.utf8Size) t
  | .blockComment, _, _, [] => none
  | .blockComment, newline, pos, '*' :: '/' :: t => skipGap goal .blank newline (pos + 2) t
  | .blockComment, newline, pos, c :: t =>
    skipGap goal .blockComment (newline || Text.isLineTerminator c) (pos + c.utf8Size) t

/-! ## Digits -/

/-- The value of a digit of any radix up to sixteen. -/
def digitValue? (c : Char) : Option Nat :=
  if '0' ≤ c && c ≤ '9' then some (c.toNat - '0'.toNat)
  else if 'a' ≤ c && c ≤ 'f' then some (c.toNat - 'a'.toNat + 10)
  else if 'A' ≤ c && c ≤ 'F' then some (c.toNat - 'A'.toNat + 10)
  else none

/-- Whether a character is a digit of a radix. -/
def isDigitOf (radix : Nat) (c : Char) : Bool :=
  match digitValue? c with
  | some d => decide (d < radix)
  | none => false

/-- The number that a list of digits writes. -/
def digitsToNat (radix : Nat) (digits : Text) : Nat :=
  digits.foldl (fun n c => n * radix + (digitValue? c).getD 0) 0

/-- Reads digits with separators between them. `afterDigit` tells whether the character before is a
digit. There is no answer if a separator does not stand between two digits. -/
def readDigits (radix : Nat) : Bool → Text → Option (Text × Text)
  | _, [] => some ([], [])
  | afterDigit, '_' :: t =>
    match t with
    | d :: _ => if afterDigit && isDigitOf radix d then readDigits radix false t else none
    | [] => none
  | _, c :: t =>
    if isDigitOf radix c then (readDigits radix true t).map fun p => (c :: p.1, p.2)
    else some ([], c :: t)

/-! ## Escapes -/

/-- An escape sequence of a string, template or name. -/
inductive Escape where
  /-- The characters it stands for, whether strict code refuses it, and the text after it. -/
  | chars (value : Text) (legacy : Bool) (rest : Text)
  | malformed

/-- A character by its number, unless there is no such character. -/
def charOfNat? (n : Nat) : Option Char :=
  if h : n.isValidChar then some (Char.ofNatAux n h) else none

/-- Reads exactly `n` hexadecimal digits. -/
def readHex : Nat → Text → Option (Text × Text)
  | 0, t => some ([], t)
  | _ + 1, [] => none
  | n + 1, c :: t =>
    if isDigitOf 16 c then (readHex n t).map fun p => (c :: p.1, p.2) else none

/-- Reads the escape of a code point, after its `u`. A code point that is no character stands for the
escape as it is written. -/
def readUnicodeEscape (t : Text) : Escape :=
  match t with
  | '\x7b' :: t =>
    let digits := t.takeWhile (isDigitOf 16)
    match digits, t.dropWhile (isDigitOf 16) with
    | [], _ => .malformed
    | digits, '\x7d' :: rest =>
      match charOfNat? (digitsToNat 16 digits) with
      | some c => .chars [c] false rest
      | none =>
        if digits.length ≤ 6 then .chars ("\\u\x7b".toList ++ digits ++ "\x7d".toList) false rest
        else .malformed
    | _, _ => .malformed
  | t =>
    match readHex 4 t with
    | none => .malformed
    | some (digits, rest) =>
      match charOfNat? (digitsToNat 16 digits) with
      | some c => .chars [c] false rest
      | none => .chars ('\\' :: 'u' :: digits) false rest

/-- Reads an octal escape whose first digit is `d`. Only a zero with no octal digit after it is no
octal escape. Templates have no octal escapes. -/
def readOctalEscape (inTemplate : Bool) (d : Char) (t : Text) : Escape :=
  let more := t.takeWhile (isDigitOf 8)
  if d = '0' && more.isEmpty then .chars [Char.ofNat 0] false t
  else if inTemplate then .malformed
  else
    -- At most three digits, and no more than the value 255.
    let taken := more.take (if d ≤ '3' then 2 else 1)
    .chars [Char.ofNat (digitsToNat 8 (d :: taken))] true (t.drop taken.length)

/-- Reads an escape, after its backslash. -/
def readEscape (inTemplate : Bool) : Text → Escape
  | [] => .malformed
  | 'n' :: t => .chars ['\n'] false t
  | 'r' :: t => .chars ['\r'] false t
  | 't' :: t => .chars ['\t'] false t
  | 'b' :: t => .chars [Char.ofNat 0x08] false t
  | 'v' :: t => .chars [Char.ofNat 0x0B] false t
  | 'f' :: t => .chars [Char.ofNat 0x0C] false t
  | '\r' :: '\n' :: t => .chars [] false t
  | 'x' :: t =>
    match readHex 2 t with
    | some (digits, rest) => .chars [Char.ofNat (digitsToNat 16 digits)] false rest
    | none => .malformed
  | 'u' :: t => readUnicodeEscape t
  | c :: t =>
    if Text.isLineTerminator c then .chars [] false t
    else if isDigitOf 8 c then readOctalEscape inTemplate c t
    else .chars [c] false t

/-! ## Tokens -/

/-- The result of reading one token: the token and the text after it. -/
abbrev Scanned := Option (Token × Text)

/-- A token that is malformed whatever follows. -/
def malformed : Scanned := some (.malformed, [])

/-- Reads a string up to its quote. A line feed or carriage return, or the end of the text, leaves it
unterminated. The step count is bounded by the length of the text. -/
def readString (quote : Char) : Nat → Bool → Text → Text → Scanned
  | 0, _, _, _ => none
  | _ + 1, _, _, [] => none
  | steps + 1, legacy, value, '\\' :: t =>
    match t, readEscape false t with
    | [], _ => none
    | _, .chars cs old rest => readString quote steps (legacy || old) (cs.reverse ++ value) rest
    | _, .malformed => malformed
  | steps + 1, legacy, value, c :: t =>
    if c = quote then some (.string value.reverse legacy, t)
    else if c = '\n' || c = '\r' then none
    else readString quote steps legacy (c :: value) t

/-- Reads the characters of a name, escapes included: the name, whether it has an escape, and the
text after it. -/
def readName : Nat → Text → Option (Text × Bool × Text)
  | 0, t => some ([], false, t)
  | _ + 1, [] => some ([], false, [])
  | steps + 1, '\\' :: t =>
    match t with
    | 'u' :: t =>
      match readUnicodeEscape t with
      | .chars [c] _ rest =>
        if isNamePart c then
          (readName steps rest).map fun p => (c :: p.1, true, p.2.2)
        else none
      | _ => none
    | _ => none
  | steps + 1, c :: t =>
    if isNamePart c then (readName steps t).map fun p => (c :: p.1, p.2.1, p.2.2)
    else some ([], false, c :: t)

/-- Reads a word. An escaped keyword is not a token. -/
def readWord (t : Text) : Scanned :=
  match readName t.length t with
  | some (c :: name, escaped, rest) =>
    if !isNameStart c then malformed
    else if escaped && isReservedWord (c :: name) then malformed
    else some (.word (c :: name) escaped, rest)
  | _ => malformed

/-- A number that is directly followed by the start of a name is malformed. -/
def endNumber (token : Token) (rest : Text) : Scanned :=
  match rest with
  | c :: _ => if isNameStart c || c = '\\' then malformed else some (token, rest)
  | [] => some (token, rest)

/-- Reads the digits of a number with a radix mark. -/
def readRadixNumber (radix : Nat) (t : Text) : Scanned :=
  match readDigits radix false t with
  | none => none
  | some ([], _) => malformed
  | some (digits, 'n' :: rest) => endNumber (.bigint (digitsToNat radix digits)) rest
  | some (digits, rest) => endNumber (.number (.ofNat (digitsToNat radix digits)) false) rest

/-- Reads the exponent of a decimal number, if there is one. The inner answer is missing if the mark
of an exponent has no digits after it. -/
def readExponent (t : Text) : Option (Option (Int × Text)) :=
  match t with
  | c :: t' =>
    if c = 'e' || c = 'E' then
      let (sign, t') : Int × Text := match t' with
        | '+' :: t' => (1, t')
        | '-' :: t' => (-1, t')
        | t' => (1, t')
      match readDigits 10 false t' with
      | none => none
      | some ([], _) => some none
      | some (digits, rest) => some (some (sign * (digitsToNat 10 digits : Int), rest))
    else some (some (0, t))
  | [] => some (some (0, []))

/-- Reads what follows the integer digits of a decimal number. -/
def readFraction (integer : Text) (legacy : Bool) (t : Text) : Scanned :=
  let fraction? := match t with
    | '.' :: t => readDigits 10 false t
    | t => some ([], t)
  match fraction? with
  | none => none
  | some (fraction, t) =>
    match readExponent t with
    | none => none
    | some none => malformed
    | some (some (exponent, rest)) =>
      let value := Binary64.ofDecimal (digitsToNat 10 (integer ++ fraction))
        (exponent - (fraction.length : Int))
      endNumber (.number value legacy) rest

/-- Reads a number without a radix mark. Digits after a leading zero are octal, or decimal if one of
them is not octal; strict code refuses both. -/
def readDecimal (t : Text) : Scanned :=
  match readDigits 10 false t with
  | none => none
  | some (digits, rest) =>
    let leadingZero := match digits with
      | '0' :: _ :: _ => true
      | _ => false
    if leadingZero then
      if digits.all (isDigitOf 8) then
        endNumber (.number (.ofNat (digitsToNat 8 digits)) true) rest
      else readFraction digits true rest
    else
      match rest with
      | 'n' :: rest => endNumber (.bigint (digitsToNat 10 digits)) rest
      | rest => readFraction digits false rest

/-- Reads a number. -/
def readNumber : Text → Scanned
  | '0' :: 'x' :: t | '0' :: 'X' :: t => readRadixNumber 16 t
  | '0' :: 'o' :: t | '0' :: 'O' :: t => readRadixNumber 8 t
  | '0' :: 'b' :: t | '0' :: 'B' :: t => readRadixNumber 2 t
  | t => readDecimal t

/-- The punctuators, those with more characters before their own beginnings. -/
def punctuators : List (String × Token) :=
  [(">>>=", .updateEquals),
   ("...", .ellipsis), ("===", .operator .identical), ("!==", .operator .notIdentical),
   ("**=", .updateEquals), ("<<=", .updateEquals), (">>=", .updateEquals),
   (">>>", .operator .shiftRightZero), ("&&=", .updateEquals), ("||=", .updateEquals),
   ("??=", .updateEquals),
   ("=>", .arrow), ("==", .operator .equal), ("!=", .operator .notEqual),
   ("<=", .operator .lessEqual), (">=", .operator .greaterEqual), ("&&", .operator .and),
   ("||", .operator .or), ("??", .operator .coalesce), ("**", .operator .power),
   ("<<", .operator .shiftLeft), (">>", .operator .shiftRight), ("++", .increment),
   ("--", .decrement), ("+=", .updateEquals), ("-=", .updateEquals), ("*=", .updateEquals),
   ("/=", .divEquals), ("%=", .updateEquals), ("&=", .updateEquals), ("|=", .updateEquals),
   ("^=", .updateEquals),
   ("\x7b", .braceOpen), ("\x7d", .braceClose), ("(", .parenOpen), (")", .parenClose),
   ("[", .bracketOpen), ("]", .bracketClose), (".", .dot), (";", .semicolon), (",", .comma),
   (":", .colon), ("?", .question), ("=", .equals), ("<", .operator .less),
   (">", .operator .greater), ("|", .operator .bitOr), ("^", .operator .bitXor),
   ("&", .operator .bitAnd), ("+", .operator .add), ("-", .operator .sub), ("*", .operator .mul),
   ("/", .operator .div), ("%", .operator .rem), ("!", .bang), ("~", .tilde), ("`", .backquote),
   ("#", .hash)]

/-- Reads the first punctuator of a table that the text starts with. -/
def readPunctuator : List (String × Token) → Text → Scanned
  | [], _ => malformed
  | (spelling, token) :: table, t =>
    match Text.stripStart? t spelling.toList with
    | some rest => some (token, rest)
    | none => readPunctuator table t

/-- Reads a token at the start of a text. -/
def readToken (t : Text) : Scanned :=
  match t with
  | [] => some (.eof, [])
  | '"' :: rest => readString '"' (rest.length + 1) false [] rest
  | '\'' :: rest => readString '\'' (rest.length + 1) false [] rest
  | '.' :: c :: _ => if isDigitOf 10 c then readFraction [] false t else readPunctuator punctuators t
  | c :: _ =>
    if isDigitOf 10 c then readNumber t
    else if isNameStart c || c = '\\' then readWord t
    else readPunctuator punctuators t

/-- Skips blanks and comments and reads one token. `newline` tells whether a line ended before. -/
def scan (goal : Goal) (newline : Bool) (pos : Nat) (t : Text) : Option Lexeme := do
  let (newlineBefore, start, t) ← skipGap goal .blank newline pos t
  let (token, after) ← readToken t
  return ⟨token, start, start + (Text.byteLength t - Text.byteLength after), newlineBefore, after⟩

/-! ## Parts that the grammar asks for -/

/-- The body of a regular expression up to its closing slash: the text after it. A slash in a class
does not close it. -/
def skipRegexBody : Bool → Text → Option Text
  | _, [] => none
  | inClass, '\\' :: c :: t =>
    if Text.isLineTerminator c then none else skipRegexBody inClass t
  | inClass, c :: t =>
    if Text.isLineTerminator c then none
    else if c = '/' && !inClass then some t
    else skipRegexBody (if c = '[' then true else if c = ']' then false else inClass) t

/-- Whether the flags of a regular expression are known and different. -/
def flagsAreValid : Text → Bool
  | [] => true
  | c :: t => "dgimsuvy".toList.contains c && !t.contains c && flagsAreValid t

/-- Reads a regular expression after its first slash: the text after it. -/
def readRegex (t : Text) : Option Text := do
  let t ← skipRegexBody false t
  let flags := t.takeWhile isNamePart
  if flagsAreValid flags then some (t.dropWhile isNamePart) else none

/-- A run of template characters. -/
structure TemplatePart where
  /-- Whether a hole follows, and not the end of the template. -/
  opensHole : Bool
  /-- Whether every escape is well-formed. -/
  escapesValid : Bool
  /-- The text after the run and the mark that ends it. -/
  after : Text

/-- Reads the characters of a template up to a hole or to its end. -/
def readTemplatePart : Bool → Text → Option TemplatePart
  | _, [] => none
  | valid, '\x60' :: t => some ⟨false, valid, t⟩
  | valid, '$' :: '\x7b' :: t => some ⟨true, valid, t⟩
  | valid, '\\' :: c :: t =>
    match readEscape true (c :: t) with
    | .malformed => readTemplatePart false t
    | .chars .. => readTemplatePart valid t
  | valid, _ :: t => readTemplatePart valid t

end TemplateCompiler.Script
