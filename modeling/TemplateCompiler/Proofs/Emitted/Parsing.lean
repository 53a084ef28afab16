import TemplateCompiler.Proofs.Emitted.Atoms
import TemplateCompiler.Proofs.Emitted.Target
import TemplateCompiler.Render.Reference

/-!
# Parsing the atoms of nodes

What the atoms of each construct are parsed as, whatever follows them that cannot be a part of it.

## What this module delivers

* `stops`: what cannot be a part of an expression before it.
* `PrimaryRead`, `TargetRead`, `PartsRead`: atoms that are parsed as a program, or as the parts of a
  template literal.
-/

set_option autoImplicit false

namespace TemplateCompiler.Emitted

open Script

variable {rest x : List Atom} {name : Text} {t : Target}

/-! ## Words and marks -/

@[simp] theorem skipBlanks_space (rest : List Atom) :
    skipBlanks (.code ' ' :: rest) = skipBlanks rest := rfl

theorem skipBlanks_code {c : Char} (hc : isGap c = false) (rest : List Atom) :
    skipBlanks (.code c :: rest) = .code c :: rest := by
  simp [skipBlanks, hc]

@[simp] theorem mark_space (c : Char) (rest : List Atom) :
    mark c (.code ' ' :: rest) = mark c rest := rfl

theorem mark_code {c : Char} (hc : isGap c = false) (rest : List Atom) :
    mark c (.code c :: rest) = some rest := by
  simp [mark, skipBlanks_code hc]

theorem mark_code_ne {c d : Char} (hd : isGap d = false) (hne : d ≠ c) (rest : List Atom) :
    mark c (.code d :: rest) = none := by
  simp [mark, skipBlanks_code hd, hne]

theorem isGap_of_isIdentifierPart {c : Char} (h : isIdentifierPart c = true) : isGap c = false := by
  have hno : ∀ d ∈ [' ', '\n'], isIdentifierPart d = false := by decide
  cases hgap : isGap c with
  | false => rfl
  | true =>
    have hmem : c ∈ [' ', '\n'] := by simpa [isGap] using hgap
    rw [hno c hmem] at h
    cases h

theorem nameRun_coded {rest : List Atom} (h : ∀ c ∈ name, isIdentifierPart c = true)
    (hrest : runsOn rest = false) : nameRun (coded name ++ rest) = (name, rest) := by
  induction name with
  | nil =>
    cases rest with
    | nil => rfl
    | cons a rest =>
      cases a with
      | code c => simpa [nameRun, runsOn] using hrest
      | _ => rfl
  | cons c name ih =>
    rw [List.forall_mem_cons] at h
    have hrun := ih h.2
    simp only [List.map_cons, List.cons_append, nameRun, h.1, if_true, hrun]

/-- A name is read up to its end. -/
theorem takeName_coded {rest : List Atom} (h : isIdentifier name = true)
    (hrest : runsOn rest = false) : takeName (coded name ++ rest) = some (name, rest) := by
  have hparts := isIdentifierPart_of_mem h
  have hskip : skipBlanks (coded name ++ rest) = coded name ++ rest := by
    cases name with
    | nil => cases h
    | cons c name =>
      exact skipBlanks_code (isGap_of_isIdentifierPart (hparts c List.mem_cons_self)) _
  simp only [takeName, hskip, nameRun_coded hparts hrest, h, hrest]
  rfl

@[simp] theorem takeName_space (rest : List Atom) :
    takeName (.code ' ' :: rest) = takeName rest := rfl

theorem word_coded {rest : List Atom} (h : isIdentifier name = true)
    (hrest : runsOn rest = false) : word name (coded name ++ rest) = some rest := by
  simp [word, takeName_coded h hrest]

theorem takeString_stringAtoms (t : Text) (rest : List Atom) :
    takeString (stringAtoms t ++ rest) = some (t, rest) := by
  have hquoted : takeQuoted (t.map .quoted ++ .quoteClose :: rest) = some (t, rest) := by
    induction t with
    | nil => rfl
    | cons c t ih => simp [takeQuoted, ih]
  simpa [takeString, stringAtoms, skipBlanks] using hquoted

@[simp] theorem takeString_space (rest : List Atom) :
    takeString (.code ' ' :: rest) = takeString rest := rfl

theorem takeString_coded {rest : List Atom} (h : isIdentifier name = true) :
    takeString (coded name ++ rest) = none := by
  cases name with
  | nil => cases h
  | cons c name =>
    have hgap := isGap_of_isIdentifierPart (isIdentifierPart_of_mem h c List.mem_cons_self)
    simp [takeString, skipBlanks_code hgap]

theorem takeKey_keyAtoms {rest : List Atom} (hrest : runsOn rest = false) :
    takeKey (keyAtoms name ++ rest) = some (name, rest) := by
  unfold keyAtoms
  split
  · rename_i h
    simp only [takeKey, takeString_coded h, takeName_coded h hrest]
  · simp only [takeKey, takeString_stringAtoms]

theorem takeAccess_accessAtoms {rest : List Atom} (hrest : runsOn rest = false) :
    takeAccess (accessAtoms name ++ rest) = some (name, rest) := by
  unfold accessAtoms
  split
  · rename_i h
    have hmark : mark '.' (coded ('.' :: name) ++ rest) = some (coded name ++ rest) :=
      mark_code rfl _
    simp only [takeAccess, hmark, takeName_coded h hrest]
  · have hnone : ∀ more, mark '.' (.code '[' :: more) = none := mark_code_ne rfl (by decide)
    have hopen : ∀ more, mark '[' (.code '[' :: more) = some more := mark_code rfl
    have hclose : mark ']' (.code ']' :: rest) = some rest := mark_code rfl _
    simp [takeAccess, hnone, hopen, takeString_stringAtoms, hclose]

theorem mark_coded {c : Char} {name : Text} (h : isIdentifier name = true)
    (hc : isIdentifierPart c = false) : mark c (coded name ++ rest) = none := by
  cases name with
  | nil => cases h
  | cons d name =>
    have hd := isIdentifierPart_of_mem h d List.mem_cons_self
    refine mark_code_ne (isGap_of_isIdentifierPart hd) ?_ _
    rintro rfl
    rw [hd] at hc
    cases hc

theorem takeParams_itemParams {item : BlockBinding} {index : Option BlockBinding}
    (hitem : isIdentifier item.name = true) (hindex : ∀ i ∈ index, isIdentifier i.name = true)
    (hrest : runsOn rest = false) :
    takeParams (coded (itemParams item index) ++ rest) = some (itemNames item index, rest) := by
  cases index with
  | none =>
    have hmark : mark '(' (coded item.name ++ rest) = none := mark_coded hitem (by decide)
    have hname := takeName_coded hitem hrest
    simp [takeParams, itemParams, itemNames, hmark, hname]
  | some i =>
    have hatoms : coded (itemParams item (some i)) ++ rest = .code '(' :: .code ' ' ::
        (coded item.name ++ .code ',' :: .code ' ' ::
          (coded i.name ++ .code ' ' :: .code ')' :: rest)) := by
      simp [itemParams]
    have hopen : ∀ more, mark '(' (.code '(' :: more) = some more := mark_code rfl
    have hcomma : ∀ more, mark ',' (.code ',' :: more) = some more := mark_code rfl
    have hclose : ∀ more, mark ')' (.code ')' :: more) = some more := mark_code rfl
    have hfirst : ∀ more, takeName (coded item.name ++ .code ',' :: more) =
        some (item.name, .code ',' :: more) := fun more => takeName_coded hitem rfl
    have hsecond : ∀ more, takeName (coded i.name ++ .code ' ' :: more) =
        some (i.name, .code ' ' :: more) := fun more => takeName_coded (hindex i rfl) rfl
    rw [hatoms]
    simp [takeParams, itemNames, hopen, hfirst, hcomma, hsecond, hclose]

/-! ## Expressions -/

/-- Whether atoms, after blanks, cannot be a part of an expression before them. -/
def stops (atoms : List Atom) : Bool :=
  match skipBlanks atoms with
  | .holeClose :: _ => true
  | .code c :: _ => [')', ',', ':', ';', '\x7d'].contains c
  | _ => false

theorem mark_of_stops {c : Char} {rest : List Atom} (h : stops rest = true)
    (hc : [')', ',', ':', ';', '\x7d'].contains c = false) : mark c rest = none := by
  unfold stops at h
  unfold mark
  split at h
  · rename_i heq
    rw [heq]
  · rename_i d more heq
    rw [heq]
    dsimp only
    refine if_neg ?_
    rintro rfl
    rw [h] at hc
    cases hc
  · cases h

theorem takeQuestion_of_stops (h : stops rest = true) :
    takeQuestion rest = none := by
  rw [takeQuestion, mark_of_stops h (by decide)]

theorem runsOn_of_stops (h : stops rest = true) : runsOn rest = false := by
  cases rest with
  | nil => rfl
  | cons a rest =>
    cases a with
    | source range => cases h
    | code c =>
      cases hpart : isIdentifierPart c with
      | false => exact hpart
      | true =>
        have hskip := skipBlanks_code (isGap_of_isIdentifierPart hpart) rest
        have hno : ∀ d ∈ [')', ',', ':', ';', '\x7d'], isIdentifierPart d = false := by decide
        have hmem : c ∈ [')', ',', ':', ';', '\x7d'] := by
          rw [stops, hskip] at h
          exact List.contains_iff_mem.1 h
        rw [hno c hmem] at hpart
        cases hpart
    | _ => rfl

section Reads

variable (lookup : Span → Option Expr)

/-- Atoms that are parsed as a program that nothing has been applied to. -/
def PrimaryRead (x : List Atom) (t : Target) : Prop :=
  ∀ rest, runsOn rest = false → ∀ fuel, 2 * (x ++ rest).length + 1 ≤ fuel →
    parsePrimary lookup fuel (x ++ rest) = some (t, rest)

/-- Atoms that are parsed as a program of a level. -/
def TargetRead (least : Nat) (x : List Atom) (t : Target) : Prop :=
  ∀ rest, stops rest = true → ∀ fuel, 2 * (x ++ rest).length + 2 ≤ fuel →
    parseAt lookup least fuel (x ++ rest) = some (t, rest)

/-- Atoms that are parsed as parts of a template literal, with what follows them. -/
def PartsRead (x : List Atom) (parts : List Target) : Prop :=
  ∀ rest more tail,
    (∀ fuel, 2 * rest.length + 1 ≤ fuel → parseParts lookup fuel rest = some (more, tail)) →
      ∀ fuel, 2 * (x ++ rest).length + 1 ≤ fuel →
        parseParts lookup fuel (x ++ rest) = some (parts ++ more, tail)

end Reads

variable {lookup : Span → Option Expr}

attribute [local simp] parsePrimary parsePostfix parseAt parseParts

namespace PartsRead

variable {x y : List Atom} {p q : List Target}

theorem nil : PartsRead lookup [] [] :=
  fun _ _ _ h fuel hfuel => h fuel hfuel

theorem append (hx : PartsRead lookup x p) (hy : PartsRead lookup y q) :
    PartsRead lookup (x ++ y) (p ++ q) := by
  intro rest more tail h
  rw [List.append_assoc, List.append_assoc]
  exact hx (y ++ rest) (q ++ more) tail (hy rest more tail h)

end PartsRead

/-- A text in a template literal. -/
theorem partsRead_cooked (t : Text) : PartsRead lookup (cooked t) (t.map fun c => .quoted [c]) := by
  induction t with
  | nil => exact .nil
  | cons c t ih =>
    have hc : PartsRead lookup [.cooked c] [.quoted [c]] := by
      intro rest more tail h fuel hfuel
      rw [List.singleton_append, List.length_cons] at hfuel
      cases fuel with
      | zero => omega
      | succ fuel =>
        have hrest := h fuel (by omega)
        simp [hrest]
    exact hc.append ih

/-- A hole of a template literal. -/
theorem partsRead_hole {t : Target} (h : TargetRead lookup 0 x t) :
    PartsRead lookup (holeAtoms x) [t] := by
  intro rest more tail hrest fuel hfuel
  have hatoms : holeAtoms x ++ rest = .holeOpen :: (x ++ .holeClose :: rest) := by
    simp [holeAtoms]
  rw [hatoms] at hfuel ⊢
  simp only [List.length_cons, List.length_append] at hfuel
  cases fuel with
  | zero => omega
  | succ fuel =>
    have hinner := h (.holeClose :: rest) rfl fuel (by
      rw [List.length_append, List.length_cons]
      omega)
    have hmore := hrest fuel (by omega)
    simp [hinner, skipBlanks, hmore]

/-- A template literal. -/
theorem primaryRead_literal {parts : List Target} (h : PartsRead lookup x parts) :
    PrimaryRead lookup (literalAtoms x) (.literal parts) := by
  intro rest _ fuel hfuel
  have hatoms : literalAtoms x ++ rest = .literalOpen :: (x ++ .literalClose :: rest) := by
    simp [literalAtoms]
  rw [hatoms] at hfuel ⊢
  simp only [List.length_cons, List.length_append] at hfuel
  cases fuel with
  | zero => omega
  | succ fuel =>
    have hend : ∀ fuel, 2 * (Atom.literalClose :: rest).length + 1 ≤ fuel →
        parseParts lookup fuel (.literalClose :: rest) = some ([], rest) := by
      intro fuel hfuel
      cases fuel with
      | zero => omega
      | succ fuel => rw [parseParts]
    have hinner := h (.literalClose :: rest) [] rest hend fuel (by
      rw [List.length_append, List.length_cons]
      omega)
    rw [List.append_nil] at hinner
    simp [skipBlanks, hinner]

/-- An expression of the source. -/
theorem primaryRead_source {e : Expr} (he : lookup e.span = some e) :
    PrimaryRead lookup [.source e.span] (.source e) := by
  intro rest hrest fuel hfuel
  cases fuel with
  | zero => omega
  | succ fuel => simp [skipBlanks, hrest, he]

theorem parsePostfix_of_mark {fuel : Nat} {t : Target} (hfuel : 0 < fuel)
    (h : mark '.' rest = none) : parsePostfix lookup fuel t rest = some (t, rest) := by
  cases fuel with
  | zero => omega
  | succ fuel => rw [parsePostfix, h]

/-- A program that nothing is applied to. -/
theorem PrimaryRead.target {least : Nat} {x : List Atom} (h : PrimaryRead lookup x t)
    (hlevel : least ≤ t.level) (hx : x ≠ []) : TargetRead lookup least x t := by
  intro rest hrest fuel hfuel
  have hlength : 0 < x.length := List.length_pos_iff.2 hx
  rw [List.length_append] at hfuel
  cases fuel with
  | zero => omega
  | succ fuel =>
    have hprimary := h rest (runsOn_of_stops hrest) fuel (by
      rw [List.length_append]
      omega)
    have hpostfix : parsePostfix lookup fuel t rest = some (t, rest) :=
      parsePostfix_of_mark (by omega) (mark_of_stops hrest (by decide))
    simp [hprimary, hpostfix, takeQuestion_of_stops hrest, hlevel]

theorem parsePrimary_space (fuel : Nat) (atoms : List Atom) :
    parsePrimary lookup fuel (.code ' ' :: atoms) = parsePrimary lookup fuel atoms := by
  cases fuel with
  | zero => rw [parsePrimary, parsePrimary]
  | succ fuel => rw [parsePrimary, parsePrimary, skipBlanks_space]

theorem TargetRead.space {least : Nat} {x : List Atom} (h : TargetRead lookup least x t) :
    TargetRead lookup least (.code ' ' :: x) t := by
  intro rest hrest fuel hfuel
  rw [List.cons_append, List.length_cons] at hfuel
  have hparse := h rest hrest fuel (by omega)
  cases fuel with
  | zero => omega
  | succ fuel =>
    rw [parseAt] at hparse ⊢
    rw [List.cons_append, parsePrimary_space]
    exact hparse

/-- Something between parentheses. -/
theorem primaryRead_paren {t : Target} (h : TargetRead lookup 0 x t) :
    PrimaryRead lookup (parenAtoms x) (.grouped t) := by
  intro rest _ fuel hfuel
  have hatoms : parenAtoms x ++ rest = .code '(' :: (x ++ .code ')' :: rest) := by
    simp [parenAtoms]
  rw [hatoms] at hfuel ⊢
  simp only [List.length_cons, List.length_append] at hfuel
  cases fuel with
  | zero => omega
  | succ fuel =>
    have hinner := h (.code ')' :: rest) rfl fuel (by
      rw [List.length_append, List.length_cons]
      omega)
    have hskip : ∀ more, skipBlanks (.code '(' :: more) = .code '(' :: more := skipBlanks_code rfl
    have hopen : ∀ more, mark '(' (.code '(' :: more) = some more := mark_code rfl
    have hclose : mark ')' (.code ')' :: rest) = some rest := mark_code rfl _
    simp [hskip, hopen, hinner, hclose]

/-! ## Constructs -/

theorem level_of_needsParens {e : Expr} (h : needsParens e = false) : 1 ≤ level e := by
  cases e with
  | sequence | assign | assignUpdate | arrow | arrowExpr | conditional | yield => cases h
  | _ => simp [level]

theorem level_of_isMemberSafe {e : Expr} (h : isMemberSafe e = true) : level e = 3 := by
  cases e with
  | ident | member | call | superCall | importCall | paren | array => rfl
  | _ => cases h

/-- An expression of the source with the parentheses it needs. -/
def exprTarget (e : Expr) : Target :=
  if needsParens e then .grouped (.source e) else .source e

/-- The collection of an each block with the parentheses it needs. -/
def iterableTarget (e : Expr) : Target :=
  if isMemberSafe e then .source e else .grouped (.source e)

theorem primaryRead_grouped {e : Expr} (he : lookup e.span = some e) :
    PrimaryRead lookup (parenAtoms [.source e.span]) (.grouped (.source e)) :=
  primaryRead_paren ((primaryRead_source he).target (Nat.zero_le _) (List.cons_ne_nil _ _))

theorem targetRead_expr {e : Expr} (he : lookup e.span = some e) {least : Nat} (hleast : least ≤ 1) :
    TargetRead lookup least (exprAtoms e) (exprTarget e) := by
  unfold exprAtoms exprTarget
  split
  · exact (primaryRead_grouped he).target (Nat.le_trans hleast (Nat.le_add_left 1 2))
      (List.cons_ne_nil _ _)
  · rename_i hparens
    have hlevel := level_of_needsParens (by simpa using hparens)
    exact (primaryRead_source he).target (Nat.le_trans hleast hlevel) (List.cons_ne_nil _ _)

theorem primaryRead_iterable {e : Expr} (he : lookup e.span = some e) :
    PrimaryRead lookup (iterableAtoms e) (iterableTarget e) := by
  unfold iterableAtoms iterableTarget
  split
  · exact primaryRead_source he
  · exact primaryRead_grouped he

theorem level_iterableTarget (e : Expr) : (iterableTarget e).level = 3 := by
  unfold iterableTarget
  split
  · rename_i h
    exact level_of_isMemberSafe h
  · rfl

theorem literalAtoms_ne_nil (x : List Atom) : literalAtoms x ≠ [] :=
  List.cons_ne_nil _ _

/-- A conditional between two literals. -/
theorem targetRead_conditional {test : Expr} {x y : List Atom} {yes no : List Target} {least : Nat}
    (htest : lookup test.span = some test) (hyes : PartsRead lookup x yes)
    (hno : PartsRead lookup y no) :
    TargetRead lookup least (parenAtoms [.source test.span] ++ coded " ? ".toList ++ literalAtoms x
      ++ coded " : ".toList ++ literalAtoms y)
      (.conditional (.grouped (.source test)) (.literal yes) (.literal no)) := by
  intro rest hrest fuel hfuel
  have hx := ((primaryRead_literal hyes).target (Nat.le_add_left 1 2)
    (literalAtoms_ne_nil x)).space
  have hy := ((primaryRead_literal hno).target (Nat.le_add_left 1 2)
    (literalAtoms_ne_nil y)).space
  have hatoms : parenAtoms [.source test.span] ++ coded " ? ".toList ++ literalAtoms x
      ++ coded " : ".toList ++ literalAtoms y ++ rest =
      parenAtoms [.source test.span] ++ .code ' ' :: .code '?' :: .code ' ' :: (literalAtoms x ++
        .code ' ' :: .code ':' :: .code ' ' :: (literalAtoms y ++ rest)) := by
    simp
  rw [hatoms] at hfuel ⊢
  simp only [List.length_append, List.length_cons] at hfuel
  cases fuel with
  | zero => omega
  | succ fuel =>
    have hprimary := primaryRead_grouped htest (.code ' ' :: .code '?' :: .code ' ' ::
      (literalAtoms x ++ .code ' ' :: .code ':' :: .code ' ' :: (literalAtoms y ++ rest))) rfl fuel
      (by simp only [List.length_append, List.length_cons]; omega)
    have hfirst := hx (.code ' ' :: .code ':' :: .code ' ' :: (literalAtoms y ++ rest)) rfl fuel
      (by simp only [List.length_append, List.length_cons]; omega)
    have hsecond := hy rest hrest fuel
      (by simp only [List.length_append, List.length_cons]; omega)
    have hpostfix : ∀ t more, parsePostfix lookup fuel t (.code ' ' :: .code '?' :: more) =
        some (t, .code ' ' :: .code '?' :: more) :=
      fun t more => parsePostfix_of_mark (by omega) rfl
    have hquestion : ∀ more, takeQuestion (.code ' ' :: .code '?' :: .code ' ' :: more) =
        some (.code ' ' :: more) := fun more => rfl
    have hcolon : ∀ more, mark ':' (.code ' ' :: .code ':' :: more) = some more := fun more => rfl
    have hlevel : 2 ≤ (Target.grouped (.source test)).level := Nat.le_succ 2
    simp only [List.cons_append] at hfirst hsecond
    simp [hprimary, hpostfix, hquestion, hfirst, hcolon, hsecond,
      hlevel]

/-! ## Lists -/

theorem takeArrow_space (rest : List Atom) :
    takeArrow (.code ' ' :: .code '=' :: .code '>' :: rest) = some rest := rfl

/-- The texts of a list are joined. -/
theorem parsePostfix_join {fuel : Nat} {t : Target} (ht : t.level = 3) (separator : Text)
    (rest : List Atom) :
    parsePostfix lookup (fuel + 1) t (.code '.' :: (coded "join".toList ++ .code '(' :: .code ' ' ::
      (stringAtoms separator ++ .code ' ' :: .code ')' :: rest))) =
      parsePostfix lookup fuel (.joined t separator) rest := by
  have hdot : ∀ more, mark '.' (.code '.' :: more) = some more := mark_code rfl
  have hopen : ∀ more, mark '(' (.code '(' :: more) = some more := mark_code rfl
  have hclose : ∀ more, mark ')' (.code ')' :: more) = some more := mark_code rfl
  have hname : ∀ more, takeName (coded "join".toList ++ .code '(' :: more) =
      some ("join".toList, .code '(' :: more) := fun more => takeName_coded (by decide) rfl
  have hne : "join".toList ≠ "map".toList := by decide
  rw [parsePostfix, hdot]
  simp only [Option.bind_eq_bind, hname, Option.bind_some, hopen, if_neg hne, takeString_space,
    takeString_stringAtoms, mark_space, hclose, ht, beq_self_eq_true, demand_true, if_true]

/-- A function is applied to every item of a list. -/
theorem parsePostfix_map {fuel : Nat} {t : Target} (ht : t.level = 3) {item : BlockBinding}
    {index : Option BlockBinding} (hitem : isIdentifier item.name = true)
    (hindex : ∀ i ∈ index, isIdentifier i.name = true) {x : List Atom} {body : Target}
    (hbody : TargetRead lookup 1 x body) (rest : List Atom)
    (hfuel : 2 * (x ++ .code ' ' :: .code ')' :: rest).length + 2 ≤ fuel) :
    parsePostfix lookup (fuel + 1) t (.code '.' :: (coded "map".toList ++ .code '(' :: .code ' ' ::
      (coded (itemParams item index) ++ .code ' ' :: .code '=' :: .code '>' ::
        (x ++ .code ' ' :: .code ')' :: rest)))) =
      parsePostfix lookup fuel (.mapped t (itemNames item index) body) rest := by
  have hdot : ∀ more, mark '.' (.code '.' :: more) = some more := mark_code rfl
  have hopen : ∀ more, mark '(' (.code '(' :: more) = some more := mark_code rfl
  have hclose : ∀ more, mark ')' (.code ')' :: more) = some more := mark_code rfl
  have hname : ∀ more, takeName (coded "map".toList ++ .code '(' :: more) =
      some ("map".toList, .code '(' :: more) := fun more => takeName_coded (by decide) rfl
  have hparams : ∀ more, takeParams (.code ' ' :: (coded (itemParams item index) ++
      .code ' ' :: more)) = some (itemNames item index, .code ' ' :: more) :=
    fun more => takeParams_itemParams hitem hindex rfl
  have hvalue := hbody (.code ' ' :: .code ')' :: rest) rfl fuel hfuel
  rw [parsePostfix, hdot]
  simp only [Option.bind_eq_bind, hname, Option.bind_some, hopen, hparams, takeArrow_space, hvalue,
    mark_space, hclose, ht, beq_self_eq_true, demand_true, if_true]

/-- The mapping and joining of a list. -/
theorem targetRead_loop {iterable : Expr} {item : BlockBinding} {index : Option BlockBinding}
    {body : List Target} {least : Nat} (hleast : least ≤ 3)
    (hiterable : lookup iterable.span = some iterable) (hitem : isIdentifier item.name = true)
    (hindex : ∀ i ∈ index, isIdentifier i.name = true) (hbody : PartsRead lookup x body) :
    TargetRead lookup least (iterableAtoms iterable ++ coded (".map( ".toList ++ itemParams item index
      ++ " => ".toList) ++ literalAtoms x ++ coded " ).join( ".toList ++ stringAtoms []
      ++ coded " )".toList)
      (.joined (.mapped (iterableTarget iterable) (itemNames item index) (.literal body)) []) := by
  intro rest hrest fuel hfuel
  have hx := ((primaryRead_literal hbody).target (Nat.le_add_left 1 2)
    (literalAtoms_ne_nil x)).space
  have hatoms : iterableAtoms iterable ++ coded (".map( ".toList ++ itemParams item index
      ++ " => ".toList) ++ literalAtoms x ++ coded " ).join( ".toList ++ stringAtoms []
      ++ coded " )".toList ++ rest =
      iterableAtoms iterable ++ .code '.' :: (coded "map".toList ++ .code '(' :: .code ' ' ::
        (coded (itemParams item index) ++ .code ' ' :: .code '=' :: .code '>' ::
          ((.code ' ' :: literalAtoms x) ++ .code ' ' :: .code ')' :: .code '.' ::
            (coded "join".toList ++ .code '(' :: .code ' ' ::
              (stringAtoms [] ++ .code ' ' :: .code ')' :: rest))))) := by
    simp
  rw [hatoms] at hfuel ⊢
  simp only [List.length_append, List.length_cons] at hfuel
  obtain ⟨fuel, rfl⟩ : ∃ m, fuel = m + 4 := ⟨fuel - 4, by omega⟩
  have hprimary := primaryRead_iterable hiterable (.code '.' :: (coded "map".toList ++ .code '(' ::
    .code ' ' :: (coded (itemParams item index) ++ .code ' ' :: .code '=' :: .code '>' ::
      ((.code ' ' :: literalAtoms x) ++ .code ' ' :: .code ')' :: .code '.' ::
        (coded "join".toList ++ .code '(' :: .code ' ' ::
          (stringAtoms [] ++ .code ' ' :: .code ')' :: rest)))))) rfl (fuel + 3)
    (by simp only [List.length_append, List.length_cons]; omega)
  have hmap := @parsePostfix_map lookup (fuel + 2) _ (level_iterableTarget iterable) item index hitem
    hindex _ _ hx (.code '.' :: (coded "join".toList ++ .code '(' :: .code ' ' ::
      (stringAtoms [] ++ .code ' ' :: .code ')' :: rest)))
    (by simp only [List.length_append, List.length_cons]; omega)
  have hjoin := @parsePostfix_join lookup (fuel + 1)
    (.mapped (iterableTarget iterable) (itemNames item index) (.literal body)) rfl [] rest
  have hend : ∀ t, parsePostfix lookup (fuel + 1) t rest = some (t, rest) :=
    fun t => parsePostfix_of_mark (Nat.succ_pos _) (mark_of_stops hrest (by decide))
  rw [parseAt, hprimary]
  simp only [Option.bind_eq_bind, Option.bind_some, hmap, hjoin, hend,
    takeQuestion_of_stops hrest]
  have hlevel : least ≤ (Target.joined (.mapped (iterableTarget iterable) (itemNames item index)
      (.literal body)) []).level := hleast
  simp [hlevel]

/-! ## Values of attributes -/

/-- The parts of a literal that a part of a value stands for. -/
def partTargets (value : Text → Text) : AttributePart → List Target
  | .text data => (value data).map fun c => .quoted [c]
  | .expr e => [exprTarget e]

theorem partsRead_parts {value : Text → Text} {parts : List AttributePart}
    (h : ∀ e, .expr e ∈ parts → lookup e.span = some e) :
    PartsRead lookup (parts.flatMap (partAtoms value)) (parts.flatMap (partTargets value)) := by
  induction parts with
  | nil => exact .nil
  | cons part parts ih =>
    have hmore := ih fun e he => h e (List.mem_cons_of_mem part he)
    rw [List.flatMap_cons, List.flatMap_cons]
    cases part with
    | text data => exact (partsRead_cooked (value data)).append hmore
    | expr e =>
      have he := h e List.mem_cons_self
      exact (partsRead_hole (targetRead_expr he (Nat.zero_le 1))).append hmore

/-- What a component receives for an attribute. -/
def propTarget : Option (List AttributePart) → Target
  | none => .switch
  | some [.expr e] => exprTarget e
  | some parts => .literal (parts.flatMap (partTargets id))

/-- What starts with a name. -/
theorem parsePrimary_coded {rest : List Atom} (fuel : Nat)
    (h : isIdentifier name = true) (hrest : runsOn rest = false) :
    parsePrimary lookup (fuel + 1) (coded name ++ rest) = parseNamed lookup fuel name rest := by
  have hmark : mark '(' (coded name ++ rest) = none := mark_coded h (by decide)
  have hname := takeName_coded h hrest
  cases name with
  | nil => cases h
  | cons c name =>
    have hpart := isIdentifierPart_of_mem h c List.mem_cons_self
    have hskip : skipBlanks (coded (c :: name) ++ rest) = coded (c :: name) ++ rest :=
      skipBlanks_code (isGap_of_isIdentifierPart hpart) _
    rw [parsePrimary, hskip]
    simp only [List.map_cons, List.cons_append] at hmark hname ⊢
    simp only [hmark, hname, Option.bind_eq_bind, Option.bind_some]

theorem primaryRead_switch : PrimaryRead lookup (coded "true".toList) .switch := by
  intro rest hrest fuel hfuel
  rw [List.length_append, List.length_map] at hfuel
  have hlength : "true".toList.length = 4 := by decide
  obtain ⟨fuel, rfl⟩ : ∃ m, fuel = m + 2 := ⟨fuel - 2, by omega⟩
  rw [parsePrimary_coded _ (by decide) hrest, parseNamed, if_pos rfl]

theorem targetRead_prop {a : Attribute}
    (h : ∀ e, .expr e ∈ a.value.getD [] → lookup e.span = some e) :
    TargetRead lookup 1 (propValueAtoms a.value) (propTarget a.value) := by
  cases hvalue : a.value with
  | none => exact primaryRead_switch.target (Nat.le_add_left 1 2) (by simp)
  | some parts =>
    rw [hvalue] at h
    have hliteral := (primaryRead_literal (@partsRead_parts lookup id parts h)).target
      (Nat.le_add_left 1 2) (literalAtoms_ne_nil _)
    rcases parts with - | ⟨⟨data⟩ | ⟨e⟩, - | ⟨part, parts⟩⟩
    · exact hliteral
    · exact hliteral
    · exact hliteral
    · exact targetRead_expr (h e List.mem_cons_self) (Nat.le_refl 1)
    · exact hliteral

/-! ## Components -/

theorem takeKey_space (rest : List Atom) : takeKey (.code ' ' :: rest) = takeKey rest := rfl

theorem mark_keyAtoms (name : Text) (rest : List Atom) :
    mark '\x7d' (keyAtoms name ++ rest) = none := by
  unfold keyAtoms
  split
  · rename_i h
    exact mark_coded h (by decide)
  · rfl

/-- The atoms of some properties, after the separator before them and up to the end of the object. -/
def propsTail (a : Attribute) (attrs : List Attribute) (rest : List Atom) : List Atom :=
  .code ' ' :: (keyAtoms a.name ++ .code ':' :: .code ' ' :: (propValueAtoms a.value ++
    (propsAtoms ", ".toList attrs ++ .code ' ' :: .code '\x7d' :: rest)))

theorem propsAtoms_cons (a : Attribute) (attrs : List Attribute) (rest : List Atom) :
    propsAtoms ", ".toList (a :: attrs) ++ .code ' ' :: .code '\x7d' :: rest =
      .code ',' :: propsTail a attrs rest := by
  simp [propsAtoms, propsTail]

/-- One property of an object, and what follows its value. -/
theorem parseProps_prop {a : Attribute} {attrs : List Attribute} {fuel : Nat}
    (h : ∀ e, .expr e ∈ a.value.getD [] → lookup e.span = some e)
    (hstops : stops (propsAtoms ", ".toList attrs ++ .code ' ' :: .code '\x7d' :: rest) = true)
    (hfuel : 2 * (propsTail a attrs rest).length ≤ fuel) :
    parseProps lookup (fuel + 1) (propsTail a attrs rest) =
      match mark ',' (propsAtoms ", ".toList attrs ++ .code ' ' :: .code '\x7d' :: rest) with
      | some rest => do
        let (keys, values, rest) ← parseProps lookup fuel rest
        return (a.name :: keys, propTarget a.value :: values, rest)
      | none => do
        let rest ← mark '\x7d' (propsAtoms ", ".toList attrs ++ .code ' ' :: .code '\x7d' :: rest)
        return ([a.name], [propTarget a.value], rest) := by
  have hkey : ∀ more, takeKey (.code ' ' :: (keyAtoms a.name ++ .code ':' :: more)) =
      some (a.name, .code ':' :: more) := fun more => takeKey_keyAtoms rfl
  have hcolon : ∀ more, mark ':' (.code ':' :: more) = some more := mark_code rfl
  have hnone : ∀ more, mark '\x7d' (.code ' ' :: (keyAtoms a.name ++ more)) = none :=
    mark_keyAtoms a.name
  have hvalue := (targetRead_prop h).space _ hstops fuel (by
    simp only [propsTail, List.length_cons, List.length_append] at hfuel ⊢
    omega)
  rw [List.cons_append] at hvalue
  rw [propsTail, parseProps, hnone]
  cases hcomma : mark ',' (propsAtoms ", ".toList attrs ++ .code ' ' :: .code '\x7d' :: rest) with
  | none => simp only [Option.bind_eq_bind, hkey, Option.bind_some, hcolon, hvalue, hcomma]
  | some more => simp only [Option.bind_eq_bind, hkey, Option.bind_some, hcolon, hvalue, hcomma]

/-- The properties of an object. -/
theorem parseProps_props {a : Attribute} {attrs : List Attribute} (rest : List Atom)
    (h : ∀ b ∈ a :: attrs, ∀ e, .expr e ∈ b.value.getD [] → lookup e.span = some e) (fuel : Nat)
    (hfuel : 2 * (propsTail a attrs rest).length + 1 ≤ fuel) :
    parseProps lookup fuel (propsTail a attrs rest) =
      some ((a :: attrs).map Attribute.name, (a :: attrs).map fun b => propTarget b.value, rest) := by
  induction attrs generalizing a fuel with
  | nil =>
    cases fuel with
    | zero => omega
    | succ fuel =>
      rw [parseProps_prop (h a List.mem_cons_self) rfl (by omega)]
      rfl
  | cons b attrs ih =>
    cases fuel with
    | zero => omega
    | succ fuel =>
      have hstops : stops (propsAtoms ", ".toList (b :: attrs) ++ .code ' ' :: .code '\x7d' :: rest) =
          true := by
        rw [propsAtoms_cons]
        rfl
      have hcomma : ∀ more, mark ',' (.code ',' :: more) = some more := mark_code rfl
      have hlength : (propsTail b attrs rest).length < (propsTail a (b :: attrs) rest).length := by
        have htail : propsTail a (b :: attrs) rest = .code ' ' :: (keyAtoms a.name ++ .code ':' ::
            .code ' ' :: (propValueAtoms a.value ++ .code ',' :: propsTail b attrs rest)) := by
          rw [propsTail, propsAtoms_cons]
        rw [htail]
        simp only [List.length_cons, List.length_append]
        omega
      have hmore := ih (fun c hc => h c (List.mem_cons_of_mem a hc)) fuel (by omega)
      rw [parseProps_prop (h a List.mem_cons_self) hstops (by omega), propsAtoms_cons, hcomma]
      simp [hmore]

theorem parseProps_object {attrs : List Attribute} (rest : List Atom)
    (h : ∀ b ∈ attrs, ∀ e, .expr e ∈ b.value.getD [] → lookup e.span = some e) :
    ∃ inner, mark '\x7b' (.code ' ' :: (propsObjectAtoms attrs ++ rest)) = some inner ∧
      inner.length < (propsObjectAtoms attrs ++ rest).length ∧
      ∀ fuel, 2 * inner.length + 1 ≤ fuel → parseProps lookup fuel inner =
        some (attrs.map Attribute.name, attrs.map fun b => propTarget b.value, rest) := by
  cases attrs with
  | nil =>
    refine ⟨.code '\x7d' :: rest, rfl, Nat.lt_succ_self _, fun fuel hfuel => ?_⟩
    cases fuel with
    | zero => omega
    | succ fuel =>
      have hend : mark '\x7d' (.code '\x7d' :: rest) = some rest := mark_code rfl _
      rw [parseProps, hend]
      rfl
  | cons a attrs =>
    have hatoms : propsObjectAtoms (a :: attrs) ++ rest = .code '\x7b' :: propsTail a attrs rest := by
      simp [propsObjectAtoms, propsAtoms, propsTail]
    rw [hatoms]
    exact ⟨propsTail a attrs rest, rfl, Nat.lt_succ_self _, parseProps_props rest h⟩

theorem runsOn_accessAtoms (name : Text) (rest : List Atom) :
    runsOn (accessAtoms name ++ rest) = false := by
  unfold accessAtoms
  split
  all_goals rfl

/-- The words and marks of the call that renders a component. -/
theorem componentAtoms_append (name : Text) (attrs : List Attribute) (rest : List Atom) :
    componentAtoms name attrs ++ rest = coded "template".toList ++ .code '.' ::
      (coded "components".toList ++ (accessAtoms name ++ .code '.' :: (coded "render".toList ++
        .code '(' :: .code ' ' :: (propsObjectAtoms attrs ++ .code ' ' :: .code ')' :: rest)))) := by
  -- the texts of the code are kept apart from the rules, which would evaluate them
  have hall : ∀ (s t u : Text) (a b c : List Atom), coded s = a ++ .code '.' :: b →
      coded t = .code '.' :: (c ++ [.code '(', .code ' ']) → coded u = [.code ' ', .code ')'] →
      coded s ++ accessAtoms name ++ coded t ++ propsObjectAtoms attrs ++ coded u ++ rest =
        a ++ .code '.' :: (b ++ (accessAtoms name ++ .code '.' :: (c ++ .code '(' :: .code ' ' ::
          (propsObjectAtoms attrs ++ .code ' ' :: .code ')' :: rest)))) := by
    intro s t u a b c hs ht hu
    rw [hs, ht, hu]
    simp
  exact hall _ _ _ _ _ _ (by decide) (by decide) (by decide)

/-- The call that renders a component. -/
theorem primaryRead_component {attrs : List Attribute}
    (h : ∀ b ∈ attrs, ∀ e, .expr e ∈ b.value.getD [] → lookup e.span = some e) :
    PrimaryRead lookup (componentAtoms name attrs) (.component name (attrs.map Attribute.name)
      (attrs.map fun b => propTarget b.value)) := by
  intro rest hrest fuel hfuel
  rw [componentAtoms_append] at hfuel ⊢
  obtain ⟨inner, hinner, hlength, hprops⟩ := parseProps_object (.code ' ' :: .code ')' :: rest) h
  rw [List.length_append] at hlength
  simp only [List.length_append, List.length_cons] at hfuel hlength
  obtain ⟨fuel, rfl⟩ : ∃ m, fuel = m + 2 := ⟨fuel - 2, by omega⟩
  have hdot : ∀ more, mark '.' (.code '.' :: more) = some more := mark_code rfl
  have hopen : ∀ more, mark '(' (.code '(' :: more) = some more := mark_code rfl
  have hclose : ∀ more, mark ')' (.code ')' :: more) = some more := mark_code rfl
  have hcomponents : ∀ more, word "components".toList (coded "components".toList ++
      (accessAtoms name ++ more)) = some (accessAtoms name ++ more) :=
    fun more => word_coded (by decide) (runsOn_accessAtoms name more)
  have haccess : ∀ more, takeAccess (accessAtoms name ++ .code '.' :: more) =
      some (name, .code '.' :: more) := fun more => takeAccess_accessAtoms rfl
  have hrender : ∀ more, word "render".toList (coded "render".toList ++ .code '(' :: more) =
      some (.code '(' :: more) := fun more => word_coded (by decide) rfl
  have hobject := hprops fuel (by omega)
  have hne : "template".toList ≠ "true".toList := by decide
  rw [parsePrimary_coded _ (by decide) rfl, parseNamed, if_neg hne, if_pos rfl]
  simp only [Option.bind_eq_bind, hdot, Option.bind_some, hcomponents, haccess, hrender, hopen, hinner,
    hobject, mark_space, hclose]
  rfl

end TemplateCompiler.Emitted
