import TemplateCompiler.Render.Escape
import TemplateCompiler.Render.Fragment
import TemplateCompiler.Script.Scanner
import TemplateCompiler.Script.Spelling

/-!
# Lexical structure of emitted code

Emitted code is read the way the script language reads it: symbol by symbol, with a stack that tells
whether the symbol stands in code, in a string or in a template literal. A hole of a template literal
ends at the first closing brace that closes no brace of the code in it. Escapes stand for what the
language says they stand for, and a carriage return in a literal, alone or before a line feed, is a
line feed.

A range of the source is one symbol. It holds an expression, which is code that leaves the stack as it
is, so it can stand in code and nowhere else.

## What this module delivers

* `Symbol`, `symbolsOf`: the symbols of emitted code.
* `Frame`, `Atom`, `step`, `lexFrom`, `lex`: the atoms that the symbols stand for.
* `Scans`: symbols that are read as some atoms, whatever follows them.
-/

set_option autoImplicit false

namespace TemplateCompiler.Emitted

open Script

/-- What holds of all characters of a text is decided by looking at these. -/
instance (priority := 2000) decidableForallMem (t : Text) (p : Char → Prop) [DecidablePred p] :
    Decidable (∀ c ∈ t, p c) :=
  List.decidableBAll p t

/-! ## Symbols and atoms -/

/-- A symbol of emitted code: a character, or a range of the source that holds an expression. -/
inductive Symbol where
  | char (c : Char)
  | slice (range : Span)
deriving DecidableEq, Repr

/-- The symbols of a text. -/
def chars (t : Text) : List Symbol :=
  t.map .char

/-- The symbols of some fragments. -/
def symbolsOf (fragments : List Fragment) : List Symbol :=
  fragments.flatMap fun
    | .text t => chars t
    | .slice range => [.slice range]

/-- What a symbol can stand in. -/
inductive Frame where
  /-- Code, and the number of braces that are open in it. -/
  | code (depth : Nat)
  /-- A string between single quotes. -/
  | string
  /-- A template literal. -/
  | literal
deriving DecidableEq, Repr

/-- What symbols stand for. -/
inductive Atom where
  /-- A character of code. -/
  | code (c : Char)
  /-- An expression of the source. -/
  | source (range : Span)
  | quoteOpen
  /-- A character of the value of a string. -/
  | quoted (c : Char)
  | quoteClose
  | literalOpen
  /-- A character of the value of a template literal. -/
  | cooked (c : Char)
  | literalClose
  | holeOpen
  | holeClose
  /-- An escape for a code point that is no character. -/
  | unpaired
deriving DecidableEq, Repr

/-! ## Steps -/

/-- One step: the atoms that are read, the stack after it, and how many of the symbols that follow are
read too. -/
structure Step where
  atoms : List Atom
  stack : List Frame
  skip : Nat
deriving DecidableEq, Repr

/-- The characters before the next range of the source. -/
def leading : List Symbol → Text
  | .char c :: rest => c :: leading rest
  | _ => []

/-- An escape, after its backslash. `mk` makes an atom of the character it stands for. -/
def escapeStep (inTemplate : Bool) (mk : Char → Atom) (stack : List Frame) (rest : List Symbol) :
    Option Step :=
  match readEscape inTemplate (leading rest) with
  | .malformed => none
  | .chars value _ after =>
    let atoms := match value with
      | [] => []
      | [c] => [mk c]
      | _ => [.unpaired]
    some ⟨atoms, stack, (leading rest).length - after.length⟩

/-- A character of code. Comments and strings between double quotes are not read. -/
def codeStep (depth : Nat) (below : List Frame) (c : Char) : Option Step :=
  if c = '\x60' then some ⟨[.literalOpen], .literal :: .code depth :: below, 0⟩
  else if c = '\'' then some ⟨[.quoteOpen], .string :: .code depth :: below, 0⟩
  else if c = '\x7b' then some ⟨[.code c], .code (depth + 1) :: below, 0⟩
  else if c = '\x7d' then
    match depth, below with
    | depth + 1, below => some ⟨[.code c], .code depth :: below, 0⟩
    | 0, .literal :: below => some ⟨[.holeClose], .literal :: below, 0⟩
    | 0, _ => none
  else if c = '"' || c = '/' then none
  else some ⟨[.code c], .code depth :: below, 0⟩

/-- A character of a string. -/
def stringStep (below : List Frame) (c : Char) (rest : List Symbol) : Option Step :=
  if c = '\'' then some ⟨[.quoteClose], below, 0⟩
  else if c = '\\' then escapeStep false .quoted (.string :: below) rest
  else if c = '\n' || c = '\r' then none
  else some ⟨[.quoted c], .string :: below, 0⟩

/-- A character of a template literal. -/
def literalStep (below : List Frame) (c : Char) (rest : List Symbol) : Option Step :=
  if c = '\x60' then some ⟨[.literalClose], below, 0⟩
  else if c = '$' && rest.head? = some (.char '\x7b') then
    some ⟨[.holeOpen], .code 0 :: .literal :: below, 1⟩
  else if c = '\\' then escapeStep true .cooked (.literal :: below) rest
  else if c = '\r' then
    some ⟨[.cooked '\n'], .literal :: below, if rest.head? = some (.char '\n') then 1 else 0⟩
  else some ⟨[.cooked c], .literal :: below, 0⟩

/-- What a symbol stands for, before some other symbols. -/
def step : List Frame → Symbol → List Symbol → Option Step
  | .code depth :: below, .slice range, _ => some ⟨[.source range], .code depth :: below, 0⟩
  | .code depth :: below, .char c, _ => codeStep depth below c
  | .string :: below, .char c, rest => stringStep below c rest
  | .literal :: below, .char c, rest => literalStep below c rest
  | _, _, _ => none

/-- The atoms of some symbols, the first `skip` of which have been read already. At the end all that
has been opened is closed. -/
def lexFrom : List Frame → Nat → List Symbol → Option (List Atom)
  | stack, _, [] => if stack = [.code 0] then some [] else none
  | stack, skip + 1, _ :: rest => lexFrom stack skip rest
  | stack, 0, s :: rest =>
    match step stack s rest with
    | none => none
    | some r => (lexFrom r.stack r.skip rest).map (r.atoms ++ ·)

/-- The atoms of emitted code. -/
def lex (fragments : List Fragment) : Option (List Atom) :=
  lexFrom [.code 0] 0 (symbolsOf fragments)

@[simp] theorem chars_nil : chars [] = [] := rfl

@[simp] theorem chars_cons (c : Char) (t : Text) : chars (c :: t) = .char c :: chars t := rfl

@[simp] theorem chars_append (s t : Text) : chars (s ++ t) = chars s ++ chars t :=
  List.map_append

@[simp] theorem symbolsOf_nil : symbolsOf [] = [] := rfl

@[simp] theorem symbolsOf_text (t : Text) (rest : List Fragment) :
    symbolsOf (.text t :: rest) = chars t ++ symbolsOf rest := rfl

@[simp] theorem symbolsOf_slice (range : Span) (rest : List Fragment) :
    symbolsOf (.slice range :: rest) = .slice range :: symbolsOf rest := rfl

@[simp] theorem symbolsOf_append (a b : List Fragment) :
    symbolsOf (a ++ b) = symbolsOf a ++ symbolsOf b :=
  List.flatMap_append

theorem lexFrom_cons {stack : List Frame} {s : Symbol} {rest : List Symbol} {r : Step}
    (h : step stack s rest = some r) :
    lexFrom stack 0 (s :: rest) = (lexFrom r.stack r.skip rest).map (r.atoms ++ ·) := by
  rw [lexFrom, h]

/-- A hole in a template literal holds code, in which a string is read as one. -/
example : lex [.ofString "`a$\x7b'b'\x7d`"] = some [.literalOpen, .cooked 'a', .holeOpen, .quoteOpen,
    .quoted 'b', .quoteClose, .holeClose, .literalClose] := by
  decide +kernel

/-! ## Reading a part of the code -/

/-- Some symbols are read as some atoms and change the stack, whatever follows them. With `dollar` the
last of them may be a dollar sign, and then no brace may follow. -/
def Scans (dollar : Bool) (stack : List Frame) (symbols : List Symbol) (atoms : List Atom)
    (stack' : List Frame) : Prop :=
  ∀ rest, (dollar = true → rest.head? ≠ some (.char '\x7b')) →
    lexFrom stack 0 (symbols ++ rest) = (lexFrom stack' 0 rest).map (atoms ++ ·)

namespace Scans

variable {dollar : Bool} {stack mid stack' : List Frame} {a b : List Symbol} {x y : List Atom}

theorem nil (dollar : Bool) (stack : List Frame) : Scans dollar stack [] [] stack := by
  intro rest _
  simp

theorem mono (h : Scans false stack a x stack') : Scans dollar stack a x stack' :=
  fun rest _ => h rest nofun

theorem weaken (h : Scans dollar stack a x stack') : Scans true stack a x stack' :=
  fun rest hrest => h rest fun _ => hrest rfl

/-- One part after another that ends in no dollar sign. -/
theorem append (h : Scans false stack a x mid) (h' : Scans dollar mid b y stack') :
    Scans dollar stack (a ++ b) (x ++ y) stack' := by
  intro rest hrest
  rw [List.append_assoc, h _ nofun, h' rest hrest, Option.map_map]
  congr 1
  funext z
  exact (List.append_assoc ..).symm

/-- One part after another that may end in a dollar sign. -/
theorem append_open (h : Scans true stack a x mid) (h' : Scans dollar mid b y stack')
    (hhead : b.head? ≠ some (.char '\x7b')) (hend : b ≠ [] ∨ dollar = true) :
    Scans dollar stack (a ++ b) (x ++ y) stack' := by
  intro rest hrest
  have hnext : (b ++ rest).head? ≠ some (.char '\x7b') := by
    cases b with
    | nil => exact hrest (hend.resolve_left (fun h => h rfl))
    | cons s b => exact hhead
  rw [List.append_assoc, h _ (fun _ => hnext), h' rest hrest, Option.map_map]
  congr 1
  funext z
  exact (List.append_assoc ..).symm

/-- A symbol that is read the same way whatever follows it. -/
theorem single {s : Symbol} (h : ∀ rest, step stack s rest = some ⟨x, stack', 0⟩) :
    Scans false stack [s] x stack' := by
  intro rest _
  exact lexFrom_cons (h rest)

end Scans

/-- Code that is read to its end. -/
theorem lex_of_scans {fragments : List Fragment} {atoms : List Atom}
    (h : Scans false [.code 0] (symbolsOf fragments) atoms [.code 0]) :
    lex fragments = some atoms := by
  have hend := h [] nofun
  rw [List.append_nil] at hend
  rw [lex, hend]
  simp [lexFrom]

/-! ## Code -/

section Parts

variable {depth : Nat} {below : List Frame}

/-- Whether a character of code neither opens nor closes anything. -/
def isPlainCode (c : Char) : Bool :=
  !(['\x60', '\'', '\x7b', '\x7d', '"', '/'].contains c)

theorem scans_source (range : Span) :
    Scans false (.code depth :: below) [.slice range] [.source range] (.code depth :: below) :=
  .single fun _ => rfl

theorem scans_code {t : Text} (ht : ∀ c ∈ t, isPlainCode c = true) :
    Scans false (.code depth :: below) (chars t) (t.map .code) (.code depth :: below) := by
  induction t with
  | nil => exact .nil false _
  | cons c t ih =>
    have hstep : Scans false (.code depth :: below) [.char c] [.code c] (.code depth :: below) := by
      refine .single fun rest => ?_
      have hc := ht c List.mem_cons_self
      simp [isPlainCode] at hc
      simp [step, codeStep, hc]
    exact hstep.append (ih fun c' hc' => ht c' (List.mem_cons_of_mem c hc'))

theorem scans_braceOpen :
    Scans false (.code depth :: below) [.char '\x7b'] [.code '\x7b'] (.code (depth + 1) :: below) :=
  .single fun _ => rfl

theorem scans_braceClose :
    Scans false (.code (depth + 1) :: below) [.char '\x7d'] [.code '\x7d'] (.code depth :: below) :=
  .single fun _ => rfl

theorem scans_literalOpen :
    Scans false (.code depth :: below) [.char '\x60'] [.literalOpen]
      (.literal :: .code depth :: below) :=
  .single fun _ => rfl

theorem scans_literalClose :
    Scans false (.literal :: below) [.char '\x60'] [.literalClose] below :=
  .single fun _ => rfl

theorem scans_holeOpen :
    Scans false (.literal :: below) [.char '$', .char '\x7b'] [.holeOpen]
      (.code 0 :: .literal :: below) := by
  intro rest _
  have hstep : step (.literal :: below) (.char '$') (.char '\x7b' :: rest) =
      some ⟨[.holeOpen], .code 0 :: .literal :: below, 1⟩ := rfl
  exact lexFrom_cons hstep

theorem scans_holeClose :
    Scans false (.code 0 :: .literal :: below) [.char '\x7d'] [.holeClose] (.literal :: below) :=
  .single fun _ => rfl

/-- A hole of a template literal. -/
theorem scans_hole {a : List Symbol} {x : List Atom}
    (h : Scans false (.code 0 :: .literal :: below) a x (.code 0 :: .literal :: below)) :
    Scans false (.literal :: below) (chars "$\x7b".toList ++ a ++ chars "\x7d".toList)
      (.holeOpen :: x ++ [.holeClose]) (.literal :: below) :=
  (scans_holeOpen.append h).append scans_holeClose

/-- A template literal. -/
theorem scans_literal {a : List Symbol} {x : List Atom}
    (h : Scans true (.literal :: .code depth :: below) a x (.literal :: .code depth :: below)) :
    Scans false (.code depth :: below) (chars "\x60".toList ++ a ++ chars "\x60".toList)
      (.literalOpen :: x ++ [.literalClose]) (.code depth :: below) := by
  have hclose : Scans false (.literal :: .code depth :: below) (a ++ chars "\x60".toList)
      (x ++ [.literalClose]) (.code depth :: below) :=
    h.append_open scans_literalClose (by simp) (.inl (by simp))
  rw [List.append_assoc]
  exact scans_literalOpen.append hclose

/-! ## Strings -/

/-- An escape of one character that stands for one character. -/
theorem lexFrom_escape {inTemplate : Bool} {mk : Char → Atom} {frame : Frame} {e c : Char}
    (hstep : ∀ rest, step (frame :: below) (.char '\\') rest =
      escapeStep inTemplate mk (frame :: below) rest)
    (hescape : ∀ t, readEscape inTemplate (e :: t) = .chars [c] false t) :
    Scans false (frame :: below) [.char '\\', .char e] [mk c] (frame :: below) := by
  intro rest _
  have hnext : step (frame :: below) (.char '\\') (.char e :: rest) =
      some ⟨[mk c], frame :: below, 1⟩ := by
    rw [hstep, escapeStep, leading, hescape]
    simp
  exact lexFrom_cons hnext

theorem scans_quoteChar (c : Char) :
    Scans false (.string :: below) (chars (quoteChar c)) [.quoted c] (.string :: below) := by
  unfold quoteChar
  split
  · rename_i hc
    subst hc
    exact lexFrom_escape (fun _ => rfl) (fun t => rfl)
  · split
    · rename_i hc
      subst hc
      exact lexFrom_escape (fun _ => rfl) (fun t => rfl)
    · split
      · rename_i hc
        subst hc
        exact lexFrom_escape (fun _ => rfl) (fun t => rfl)
      · split
        · rename_i hc
          subst hc
          exact lexFrom_escape (fun _ => rfl) (fun t => rfl)
        · refine .single fun rest => ?_
          simp [step, stringStep, *]

/-- A text that is quoted as a string stands for itself. -/
theorem scans_quoteString (t : Text) :
    Scans false (.code depth :: below) (chars (quoteString t))
      (.quoteOpen :: t.map .quoted ++ [.quoteClose]) (.code depth :: below) := by
  have hopen : Scans false (.code depth :: below) [.char '\''] [.quoteOpen]
      (.string :: .code depth :: below) := .single fun _ => rfl
  have hclose : Scans false (.string :: .code depth :: below) [.char '\''] [.quoteClose]
      (.code depth :: below) := .single fun _ => rfl
  have hinner : Scans false (.string :: .code depth :: below) (chars (t.flatMap quoteChar))
      (t.map .quoted) (.string :: .code depth :: below) := by
    induction t with
    | nil => exact .nil false _
    | cons c t ih =>
      rw [List.flatMap_cons, chars_append, List.map_cons, ← List.singleton_append]
      exact (scans_quoteChar c).append ih
  rw [quoteString, chars_append, chars_cons]
  exact (hopen.append hinner).append hclose

/-! ## Text of template literals -/

/-- Whether the last character of a text is a dollar sign. -/
def endsInDollar (t : Text) : Bool :=
  t.getLast? == some '$'

/-- Whether a character never stands for itself in a template literal. -/
def isSpecial (c : Char) : Bool :=
  c == '\x60' || c == '\\' || c == '\r'

/-- Whether a text stands for itself in a template literal. -/
def isVerbatim : Text → Bool
  | [] => true
  | c :: t => !isSpecial c && !(c == '$' && t.head? == some '\x7b') && isVerbatim t

theorem isVerbatim_cons_iff {c : Char} {t : Text} :
    isVerbatim (c :: t) = true ↔
      isSpecial c = false ∧ (c = '$' → t.head? ≠ some '\x7b') ∧ isVerbatim t = true := by
  simp [isVerbatim, and_assoc, Decidable.imp_iff_not_or]

/-- A character of a template literal that stands for itself. -/
theorem lexFrom_cooked {c : Char} {rest : List Symbol}
    (hc : isSpecial c = false) (hnext : c = '$' → rest.head? ≠ some (.char '\x7b')) :
    lexFrom (.literal :: below) 0 (.char c :: rest) =
      (lexFrom (.literal :: below) 0 rest).map (.cooked c :: ·) := by
  have hstep : step (.literal :: below) (.char c) rest = some ⟨[.cooked c], .literal :: below, 0⟩ := by
    simp [isSpecial] at hc
    by_cases hdollar : c = '$'
    · simp [step, literalStep, hc, hnext hdollar]
    · simp [step, literalStep, hc, hdollar]
  exact lexFrom_cons hstep

/-- A character that would not stand for itself, behind a backslash. -/
theorem scans_escaped {c : Char} (hescape : ∀ t, readEscape true (c :: t) = .chars [c] false t) :
    Scans false (.literal :: below) [.char '\\', .char c] [.cooked c] (.literal :: below) :=
  lexFrom_escape (fun _ => rfl) hescape

theorem getLast?_of_cons {c : Char} {t : Text} (ht : t ≠ []) : (c :: t).getLast? = t.getLast? := by
  obtain ⟨d, u, rfl⟩ := List.exists_cons_of_ne_nil ht
  exact List.getLast?_cons_cons

theorem endsInDollar_cons {c : Char} (t : Text) (hc : c ≠ '$') :
    endsInDollar (c :: t) = endsInDollar t := by
  cases t with
  | nil => simpa [endsInDollar] using hc
  | cons d t => rw [endsInDollar, getLast?_of_cons (List.cons_ne_nil d t), endsInDollar]

theorem endsInDollar_of_tail {c : Char} {t : Text} (h : endsInDollar t = true) :
    endsInDollar (c :: t) = true := by
  cases t with
  | nil => cases h
  | cons d t =>
    rw [endsInDollar, getLast?_of_cons (List.cons_ne_nil d t)]
    exact h

/-- What follows a text, if the text may end in a dollar sign, is no brace: then what follows any of
its characters is no brace either. -/
theorem follows_of_cons {c : Char} {t : Text} {rest : List Symbol}
    (h : endsInDollar (c :: t) = true → rest.head? ≠ some (.char '\x7b')) :
    endsInDollar t = true → rest.head? ≠ some (.char '\x7b') :=
  fun ht => h (endsInDollar_of_tail ht)

/-- Text is written in a literal by an escape that leaves the text after a dollar sign alone unless it
is a brace. -/
theorem head_append_ne {c : Char} {s t : Text} {rest : List Symbol}
    (hempty : t = [] → s = []) (hhead : t.head? = some '\x7b' → s.head? = some '\x7b')
    (hs : s.head? ≠ some '\x7b')
    (hrest : endsInDollar (c :: s) = true → rest.head? ≠ some (.char '\x7b')) (hc : c = '$') :
    (chars t ++ rest).head? ≠ some (.char '\x7b') := by
  cases t with
  | nil =>
    rw [hempty rfl, hc] at hrest
    exact hrest rfl
  | cons d t =>
    intro h
    have hd : d = '\x7b' := by simpa using h
    exact hs (hhead (by rw [hd]; rfl))

/-- A text that stands for itself. -/
theorem scans_verbatim {t : Text} (ht : isVerbatim t = true) :
    Scans (endsInDollar t) (.literal :: below) (chars t) (t.map .cooked) (.literal :: below) := by
  induction t with
  | nil => exact .nil _ _
  | cons c t ih =>
    intro rest hrest
    obtain ⟨hc, hdollar, ht'⟩ := isVerbatim_cons_iff.1 ht
    have hnext : c = '$' → (chars t ++ rest).head? ≠ some (.char '\x7b') :=
      fun hc => head_append_ne id id (hdollar hc) hrest hc
    rw [chars_cons, List.cons_append, lexFrom_cooked hc hnext, ih ht' rest (follows_of_cons hrest),
      Option.map_map]
    rfl

attribute [local simp] escapeLiteral

theorem head?_escapeLiteral {t : Text} (h : (escapeLiteral t).head? = some '\x7b') :
    t.head? = some '\x7b' := by
  unfold escapeLiteral at h
  split at h
  · cases h
  · cases h
  · cases h
  · cases h
  · exact h

theorem escapeLiteral_ne_nil {t : Text} (h : escapeLiteral t = []) : t = [] := by
  unfold escapeLiteral at h
  split at h
  · rfl
  all_goals cases h

/-- A text that is escaped for a literal stands for itself. -/
theorem scans_escapeLiteral {t : Text} (ht : '\r' ∉ t) :
    Scans (endsInDollar t) (.literal :: below) (chars (escapeLiteral t)) (t.map .cooked)
      (.literal :: below) := by
  fun_induction escapeLiteral t with
  | case1 => exact .nil _ _
  | case2 t ih =>
    rw [endsInDollar_cons t (by decide)]
    exact (scans_escaped fun _ => rfl).append (ih fun h => ht (List.mem_cons_of_mem _ h))
  | case3 t ih =>
    rw [endsInDollar_cons t (by decide)]
    exact (scans_escaped fun _ => rfl).append (ih fun h => ht (List.mem_cons_of_mem _ h))
  | case4 t ih =>
    have hbrace : Scans false (.literal :: below) [.char '\x7b'] [.cooked '\x7b']
        (.literal :: below) := .single fun _ => rfl
    have hdollar : Scans false (.literal :: below) [.char '\\', .char '$'] [.cooked '$']
        (.literal :: below) := scans_escaped fun _ => rfl
    have ht' : '\r' ∉ t := fun h => ht (List.mem_cons_of_mem _ (List.mem_cons_of_mem _ h))
    have hends : endsInDollar ('$' :: '\x7b' :: t) = endsInDollar t := by
      rw [endsInDollar, getLast?_of_cons (List.cons_ne_nil _ t)]
      exact endsInDollar_cons t (by decide)
    rw [hends]
    exact (hdollar.append hbrace).append (ih ht')
  | case5 c t hbackslash hbackquote hhole ih =>
    intro rest hrest
    have hc : isSpecial c = false := by
      have hcr : c ≠ '\r' := fun h => ht (h ▸ List.mem_cons_self)
      have hb : c ≠ '\\' := hbackslash
      have hq : c ≠ '\x60' := hbackquote
      simp [isSpecial, hcr, hb, hq]
    have hbrace : c = '$' → t.head? ≠ some '\x7b' := by
      intro hc hhead
      obtain ⟨u, rfl⟩ := List.head?_eq_some_iff.1 hhead
      exact hhole u hc rfl
    have hnext : c = '$' → (chars (escapeLiteral t) ++ rest).head? ≠ some (.char '\x7b') :=
      fun hc => head_append_ne escapeLiteral_ne_nil head?_escapeLiteral (hbrace hc) hrest hc
    rw [chars_cons, List.cons_append, lexFrom_cooked hc hnext,
      ih (fun h => ht (List.mem_cons_of_mem _ h)) rest (follows_of_cons hrest), Option.map_map]
    rfl

/-- A text with a reference for each double quote, as the value of an attribute is written. -/
def referenced (t : Text) : Text :=
  t.flatMap fun c => if c = '"' then quoteReference else [c]

theorem referenced_cons {c : Char} (t : Text) (hc : c ≠ '"') :
    referenced (c :: t) = c :: referenced t := by
  simp [referenced, hc]

theorem head?_referenced {t : Text} (h : (referenced t).head? = some '\x7b') :
    t.head? = some '\x7b' := by
  cases t with
  | nil => cases h
  | cons c t =>
    by_cases hc : c = '"'
    · subst hc
      cases h
    · rw [referenced_cons t hc] at h
      exact h

theorem escapeLiteral_cons {c : Char} {t : Text} (hbackslash : c ≠ '\\') (hbackquote : c ≠ '\x60')
    (hhole : c = '$' → t.head? ≠ some '\x7b') : escapeLiteral (c :: t) = c :: escapeLiteral t := by
  have hopen : ∀ u, c = '$' → t = '\x7b' :: u → False := fun u hc ht => hhole hc (by rw [ht]; rfl)
  simp

/-- The value of an attribute is escaped for a literal with its double quotes replaced. -/
theorem escapeAttribute_eq (t : Text) : escapeAttribute t = escapeLiteral (referenced t) := by
  fun_induction escapeAttribute t with
  | case1 => rfl
  | case2 t ih | case3 t ih =>
    rw [referenced_cons t (by decide), ih]
    rfl
  | case4 t ih =>
    rw [referenced_cons _ (by decide), referenced_cons _ (by decide), ih]
    rfl
  | case5 t ih =>
    have hquote : referenced ('"' :: t) = quoteReference ++ referenced t := rfl
    rw [hquote, ih]
    rfl
  | case6 c t hbackslash hbackquote hhole hquote ih =>
    have hbrace : c = '$' → (referenced t).head? ≠ some '\x7b' := by
      intro hc hhead
      obtain ⟨u, rfl⟩ := List.head?_eq_some_iff.1 (head?_referenced hhead)
      exact hhole u hc rfl
    rw [referenced_cons t hquote, escapeLiteral_cons hbackslash hbackquote hbrace, ih]

theorem not_mem_referenced {t : Text} (ht : '\r' ∉ t) : '\r' ∉ referenced t := by
  intro h
  obtain ⟨c, hc, hmem⟩ := List.mem_flatMap.1 h
  split at hmem
  · revert hmem
    decide
  · rw [List.mem_singleton] at hmem
    exact ht (hmem ▸ hc)

/-- A text that is escaped for the value of an attribute stands for the text with its double quotes
replaced. -/
theorem scans_escapeAttribute {t : Text} (ht : '\r' ∉ t) :
    Scans true (.literal :: below) (chars (escapeAttribute t)) ((referenced t).map .cooked)
      (.literal :: below) := by
  rw [escapeAttribute_eq]
  exact (scans_escapeLiteral (not_mem_referenced ht)).weaken

end Parts

end TemplateCompiler.Emitted
