/-!
# Texts measured in bytes

A text is a list of characters. Offsets into a text are byte offsets of its UTF-8 form, so an offset
is usable for cutting only where a character starts or the text ends; the cutting functions answer
`none` everywhere else.

## What this module delivers

* `Text`, `byteLength`: texts and their length in bytes.
* `splitAt?`, `take?`, `drop?`, `slice?`: cutting at byte offsets.
* `inRanges`: membership of a code point in a table of closed ranges.
* `startsWith`, `stripStart?`, `find?`, `trimStart`, `trimEnd`, `splitOn`: searching and splitting.
* `HasChars`: the characters of a literal.
-/

set_option autoImplicit false

namespace TemplateCompiler

/-- A text: its characters in order. -/
abbrev Text := List Char

namespace Text

/-- The text of a string literal. -/
abbrev ofString (s : String) : Text := s.toList

/-- A string has these characters. A literal is `String.ofList` of its characters by definition, so
they are found and checked without the bytes of the literal, which take quadratic time to decode. -/
def HasChars (s : String) (t : Text) : Prop := s.toList = t

theorem HasChars.literal {t : Text} : HasChars (String.ofList t) t := String.toList_ofList

theorem HasChars.append {s s' : String} {t t' : Text} (h : HasChars s t) (h' : HasChars s' t') :
    HasChars (s ++ s') (t ++ t') := by
  rw [HasChars, String.toList_append, h, h']

/-! ## Byte offsets -/

/-- Number of bytes of the UTF-8 form of a text. -/
def byteLength : Text → Nat
  | [] => 0
  | c :: t => c.utf8Size + byteLength t

@[simp] theorem byteLength_nil : byteLength [] = 0 := rfl

@[simp] theorem byteLength_cons (c : Char) (t : Text) :
    byteLength (c :: t) = c.utf8Size + byteLength t := rfl

@[simp] theorem byteLength_append (s t : Text) :
    byteLength (s ++ t) = byteLength s + byteLength t := by
  induction s with
  | nil => simp
  | cons c s ih => simp [ih, Nat.add_assoc]

/-- Cuts a text at a byte offset. There is no cut inside a character or after the end. -/
def splitAt? : Nat → Text → Option (Text × Text)
  | 0, t => some ([], t)
  | _ + 1, [] => none
  | n + 1, c :: t =>
    if c.utf8Size ≤ n + 1 then
      (splitAt? (n + 1 - c.utf8Size) t).map fun p => (c :: p.1, p.2)
    else none

/-- The first `n` bytes of a text. -/
def take? (n : Nat) (t : Text) : Option Text :=
  (splitAt? n t).map Prod.fst

/-- A text without its first `n` bytes. -/
def drop? (n : Nat) (t : Text) : Option Text :=
  (splitAt? n t).map Prod.snd

/-- The bytes from `start` up to `stop`. -/
def slice? (start stop : Nat) (t : Text) : Option Text :=
  if start ≤ stop then (drop? start t).bind (take? (stop - start)) else none

/-- Whether a text can be cut at an offset. -/
def isBoundary (t : Text) (n : Nat) : Bool :=
  (splitAt? n t).isSome

/-! ## Tables of code points -/

/-- Membership in a table of increasing closed ranges. -/
def inRanges : List (Nat × Nat) → Nat → Bool
  | [], _ => false
  | (lo, hi) :: table, n =>
    if n < lo then false else if n ≤ hi then true else inRanges table n

/-! ## Searching and splitting -/

/-- Whether a text starts with a pattern. -/
def startsWith : Text → Text → Bool
  | _, [] => true
  | [], _ :: _ => false
  | c :: t, p :: pattern => c == p && startsWith t pattern

/-- A text without the pattern it starts with. -/
def stripStart? : Text → Text → Option Text
  | t, [] => some t
  | [], _ :: _ => none
  | c :: t, p :: pattern => if c == p then stripStart? t pattern else none

/-- Cuts a text before the first occurrence of a pattern. -/
def find? (pattern : Text) : Text → Option (Text × Text)
  | [] => if startsWith [] pattern then some ([], []) else none
  | c :: t =>
    if startsWith (c :: t) pattern then some ([], c :: t)
    else (find? pattern t).map fun p => (c :: p.1, p.2)

/-- A text without the characters of a class at its start. -/
abbrev trimStart (p : Char → Bool) (t : Text) : Text :=
  t.dropWhile p

/-- A text without the characters of a class at its end. -/
def trimEnd (p : Char → Bool) (t : Text) : Text :=
  (t.reverse.dropWhile p).reverse

/-- A text without the characters of a class at both ends. -/
def trim (p : Char → Bool) (t : Text) : Text :=
  trimEnd p (trimStart p t)

/-- The pieces between the occurrences of a character. There is always at least one. -/
def splitOn (sep : Char) : Text → List Text
  | [] => [[]]
  | c :: t =>
    if c == sep then [] :: splitOn sep t
    else match splitOn sep t with
      | [] => [[c]]
      | piece :: pieces => (c :: piece) :: pieces

/-- A letter with its ASCII case removed. -/
def lowerAscii (c : Char) : Char :=
  if 'A' ≤ c && c ≤ 'Z' then Char.ofNat (c.toNat + 32) else c

/-- Equality up to the case of ASCII letters. -/
def equalIgnoringCase (s t : Text) : Bool :=
  s.map lowerAscii == t.map lowerAscii

/-- The pieces joined with a separator between them. -/
def join (sep : Text) : List Text → Text
  | [] => []
  | [t] => t
  | t :: ts => t ++ sep ++ join sep ts

/-- Decimal digits of a number. -/
def ofNat (n : Nat) : Text :=
  Nat.toDigits 10 n

end Text

end TemplateCompiler
