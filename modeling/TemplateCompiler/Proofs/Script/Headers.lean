import TemplateCompiler.Proofs.Script.Gaps
import TemplateCompiler.Script.Grammar
import TemplateCompiler.Script.Identifier

/-!
# The headers of arrow functions

A block binds names by a rule that is simpler than that of the script language: it takes any letters
and digits, and does not know keywords. So a header that is made of such names need not be a
parameter list. It is one exactly if every name is a name of the script language and no reserved
word.

## What this module delivers

* `arrowHead`: the parameters of an arrow function and its arrow.
* `isBindable`: the names that sloppy code can bind.
* `scan_name`: what is read for a name of a block.
* `arrowHead_name`, `arrowHead_pair`: the header of a name, and that of two names in parentheses.
-/

set_option autoImplicit false

namespace TemplateCompiler.Script

open Reader Text

/-- The arrow behind the parameters of a function, on the line on which they end. -/
def arrowEnd (params : List Pat) : Reader (List Pat) := do
  require !(← newlineBefore)
  expect .arrow
  return params

/-- The parameters of an arrow function, a name or a list in parentheses, and the arrow behind
them. -/
def arrowHead (d : Deeper) (ctx : Context) : Reader (List Pat) := do
  if ← accept .parenOpen then arrowEnd (← formalParameters d ctx d.budget)
  else arrowEnd [.ident (← bindingIdentifier ctx)]

/-- The surroundings of the statements of a function in sloppy code. -/
def sloppyContext : Context := { inFunction := true, inOrdinaryFunction := true }

/-- Whether a text is a name that sloppy code can bind, written without escapes. -/
def isBindable : Text → Bool
  | [] => false
  | c :: t => isNameStart c && t.all isNamePart && !isReservedWord (c :: t)

/-! ## Characters of names -/

/-- The code points of the blanks of scripts. -/
def scriptBlankCodes : List Nat :=
  scriptBlankRanges.flatMap fun r => List.range' r.1 (r.2 + 1 - r.1)

theorem mem_codes_of_inRanges {table : List (Nat × Nat)} {n : Nat} (h : inRanges table n = true) :
    n ∈ table.flatMap fun r => List.range' r.1 (r.2 + 1 - r.1) := by
  induction table with
  | nil => cases h
  | cons r table ih =>
    obtain ⟨lo, hi⟩ := r
    rw [List.flatMap_cons, List.mem_append]
    rw [inRanges] at h
    split at h
    · cases h
    · split at h
      · exact .inl (List.mem_range'_1.2 (by omega))
      · exact .inr (ih h)

/-- No character of a block's names is a blank. -/
theorem not_isScriptBlank_of_isIdentifierPart {c : Char} (hc : isIdentifierPart c = true) :
    isScriptBlank c = false := by
  rw [Bool.eq_false_iff]
  intro hblank
  have hall : ∀ n ∈ scriptBlankCodes, isIdentifierPart (Char.ofNat n) = false := by
    decide +kernel
  have hcode := hall c.toNat (mem_codes_of_inRanges hblank)
  rw [Char.ofNat_toNat, hc] at hcode
  cases hcode

/-- A character of a block's names is none of those that the scanner treats on their own. -/
theorem ne_of_isIdentifierPart {c d : Char} (hc : isIdentifierPart c = true)
    (hd : isIdentifierPart d = false) : c ≠ d := by
  rintro rfl
  rw [hc] at hd
  cases hd

theorem mem_digits {c : Char} (hc : isDigitOf 10 c = true) :
    c ∈ "0123456789".toList := by
  have hcode : 48 ≤ c.toNat ∧ c.toNat ≤ 57 := by
    unfold isDigitOf digitValue? at hc
    split at hc
    · rename_i d hd
      split at hd
      · rename_i hrange
        simp only [Bool.and_eq_true, decide_eq_true_eq, Char.le_def,
          UInt32.le_iff_toNat_le] at hrange
        exact hrange
      · split at hd
        · cases hd
          have hlt := of_decide_eq_true hc
          omega
        · split at hd
          · cases hd
            have hlt := of_decide_eq_true hc
            omega
          · cases hd
    · cases hc
  have hall : ∀ n ∈ List.range' 48 10, Char.ofNat n ∈ "0123456789".toList := by decide
  have hmem := hall c.toNat (List.mem_range'_1.2 (by omega))
  rwa [Char.ofNat_toNat] at hmem

/-- A digit goes on with a name, and starts none. -/
theorem nameClass_of_digit {c : Char} (hc : isDigitOf 10 c = true) :
    isNameStart c = false ∧ isNamePart c = true ∧ isIdentifierStart c = false := by
  have hall : "0123456789".toList.all (fun d =>
      isNameStart d == false && (isNamePart d == true && isIdentifierStart d == false)) = true := by
    decide +kernel
  have hclass := List.all_eq_true.1 hall c (mem_digits hc)
  rw [Bool.and_eq_true, Bool.and_eq_true, beq_iff_eq, beq_iff_eq, beq_iff_eq] at hclass
  exact hclass

/-! ## Scanning names -/

section Scanning

variable {goal : Goal} {newline : Bool} {pos : Nat} {c : Char} {t rest : Text}

/-- A character that opens neither blanks nor a comment. -/
def OpensToken (c : Char) : Prop :=
  (c ≠ '/' ∧ c ≠ '<' ∧ c ≠ '-') ∧ isScriptBlank c = false

theorem opensToken_of_isIdentifierPart (hc : isIdentifierPart c = true) : OpensToken c :=
  ⟨⟨ne_of_isIdentifierPart hc (by decide), ne_of_isIdentifierPart hc (by decide),
    ne_of_isIdentifierPart hc (by decide)⟩, not_isScriptBlank_of_isIdentifierPart hc⟩

theorem OpensToken.skipGap_eq (hc : OpensToken c) :
    skipGap goal .blank newline pos (c :: t) = some (newline, pos, c :: t) := by
  obtain ⟨⟨hslash, hless, hminus⟩, hblank⟩ := hc
  rw [skipGap]
  · rw [hblank, if_neg Bool.false_ne_true]
  · exact fun _ h _ => hslash h
  · exact fun _ h _ => hslash h
  · exact fun _ h _ => hless h
  · exact fun _ h _ => hminus h

theorem OpensToken.scan_eq {token : Token} {after : Text} (hc : OpensToken c)
    (h : readToken (c :: t) = some (token, after)) :
    scan goal newline pos (c :: t) =
      some ⟨token, pos, pos + (byteLength (c :: t) - byteLength after), newline, after⟩ :=
  Option.bind_eq_some_iff.2 ⟨_, hc.skipGap_eq, Option.bind_eq_some_iff.2 ⟨_, h, rfl⟩⟩

theorem scan_of_readToken {token : Token} {after : Text} (hc : isIdentifierPart c = true)
    (h : readToken (c :: t) = some (token, after)) :
    scan goal newline pos (c :: t) =
      some ⟨token, pos, pos + (byteLength (c :: t) - byteLength after), newline, after⟩ :=
  (opensToken_of_isIdentifierPart hc).scan_eq h

theorem scan_space : scan goal newline pos (' ' :: t) = scan goal newline (pos + 1) t := by
  unfold scan
  have hline : isLineTerminator ' ' = false := by decide
  rw [skipGap_blank (by decide), hline, Bool.or_false]
  rfl

/-- A text that no name goes on with. -/
def NameEnds : Text → Prop
  | [] => True
  | c :: _ => isNamePart c = false ∧ c ≠ '\\'

theorem readName_append {name : Text} (hname : ∀ x ∈ name, isNamePart x = true)
    (hrest : NameEnds rest) {steps : Nat} (hsteps : name.length ≤ steps) :
    readName steps (name ++ rest) = some (name, false, rest) := by
  induction name generalizing steps with
  | nil =>
    cases steps with
    | zero => rfl
    | succ steps =>
      cases rest with
      | nil => rfl
      | cons c t =>
        rw [List.nil_append, readName]
        · rw [hrest.1, if_neg Bool.false_ne_true]
        · exact hrest.2
  | cons x name ih =>
    obtain ⟨hx, hname⟩ := List.forall_mem_cons.1 hname
    cases steps with
    | zero => cases hsteps
    | succ steps =>
      rw [List.cons_append, readName]
      · rw [if_pos hx, ih hname (Nat.le_of_succ_le_succ hsteps)]
        rfl
      · rintro rfl
        exact absurd hx (by decide)

/-- A name with the text behind it is a word. -/
theorem readToken_word (hc : isNameStart c = true) (ht : ∀ x ∈ t, isNamePart x = true)
    (hrest : NameEnds rest) :
    readToken (c :: t ++ rest) = some (.word (c :: t) false, rest) := by
  have hall : ∀ x ∈ c :: t, isNamePart x = true := by
    refine List.forall_mem_cons.2 ⟨?_, ht⟩
    rw [isNamePart, hc, Bool.true_or, Bool.true_or, Bool.true_or]
  have hdigit : isDigitOf 10 c = false := by
    rw [Bool.eq_false_iff]
    intro hdigit
    rw [(nameClass_of_digit hdigit).1] at hc
    cases hc
  have hne : ∀ d, isNameStart d = false → c ≠ d := by
    rintro d hd rfl
    rw [hc] at hd
    cases hd
  rw [List.cons_append, readToken]
  · rw [hdigit, if_neg Bool.false_ne_true, hc, Bool.true_or, if_pos rfl, readWord,
      ← List.cons_append, readName_append hall hrest (by simp)]
    simp [hc]
  · exact hne _ (by decide)
  · exact hne _ (by decide)
  · exact fun _ _ h _ => hne '.' (by decide) h

theorem scan_word (hpart : isIdentifierPart c = true) (hc : isNameStart c = true)
    (ht : ∀ x ∈ t, isNamePart x = true) (hrest : NameEnds rest) :
    scan goal newline pos (c :: t ++ rest) =
      some ⟨.word (c :: t) false, pos, pos + byteLength (c :: t), newline, rest⟩ := by
  have hread := readToken_word hc ht hrest
  rw [List.cons_append] at hread ⊢
  rw [scan_of_readToken hpart hread, ← List.cons_append, byteLength_append, Nat.add_sub_cancel]

theorem readPunctuator_eq_malformed {table : List (String × Token)} (hc : isIdentifierPart c = true)
    (htable : ∀ p ∈ table, ∃ d ds, p.1.toList = d :: ds ∧ isIdentifierPart d = false) :
    readPunctuator table (c :: t) = malformed := by
  induction table with
  | nil => rfl
  | cons p table ih =>
    obtain ⟨spelling, token⟩ := p
    obtain ⟨⟨d, ds, hp, hd⟩, htable⟩ := List.forall_mem_cons.1 htable
    have hne : (c == d) = false := beq_eq_false_iff_ne.2 (ne_of_isIdentifierPart hc hd)
    rw [readPunctuator, hp, stripStart?, hne, if_neg Bool.false_ne_true]
    exact ih htable

/-- A letter or digit that no name starts with forms no token. -/
theorem readToken_malformed (hc : isIdentifierPart c = true) (hdigit : isDigitOf 10 c = false)
    (hname : isNameStart c = false) : readToken (c :: t) = some (.malformed, []) := by
  have htable : ∀ p ∈ punctuators, (match p.1.toList with
      | [] => true
      | d :: _ => isIdentifierPart d) = false := by
    decide
  rw [readToken_punctuator ⟨ne_of_isIdentifierPart hc (by decide),
    ne_of_isIdentifierPart hc (by decide), ne_of_isIdentifierPart hc (by decide)⟩
    hdigit hname (ne_of_isIdentifierPart hc (by decide))]
  refine readPunctuator_eq_malformed hc fun p hp => ?_
  have hspelling := htable p hp
  cases hlist : p.1.toList with
  | nil => simp [hlist] at hspelling
  | cons d ds => exact ⟨d, ds, rfl, by simpa [hlist] using hspelling⟩

/-! ## Scanning punctuators -/

/-- Whether a character opens a punctuator and nothing else. -/
def opensPunctuator (c : Char) : Bool :=
  !"\"'.\\/<-".toList.contains c && !isScriptBlank c && !isDigitOf 10 c && !isNameStart c

theorem scan_punctuator {token : Token} {after : Text} (hc : opensPunctuator c = true)
    (h : readPunctuator punctuators (c :: t) = some (token, after)) :
    scan goal newline pos (c :: t) =
      some ⟨token, pos, pos + (byteLength (c :: t) - byteLength after), newline, after⟩ := by
  simp only [opensPunctuator, Bool.and_eq_true, Bool.not_eq_true', List.contains_eq_mem,
    decide_eq_false_iff_not] at hc
  obtain ⟨⟨⟨hmem, hblank⟩, hdigit⟩, hname⟩ := hc
  have hne : ∀ d ∈ "\"'.\\/<-".toList, c ≠ d := by
    rintro d hd rfl
    exact hmem hd
  have hopens : OpensToken c :=
    ⟨⟨hne _ (by decide), hne _ (by decide), hne _ (by decide)⟩, hblank⟩
  refine hopens.scan_eq ?_
  rw [readToken_punctuator ⟨hne _ (by decide), hne _ (by decide), hne _ (by decide)⟩ hdigit hname
    (hne _ (by decide))]
  exact h

/-- A punctuator of one character. -/
theorem scan_single {token : Token} (hc : opensPunctuator c = true) (hsize : c.utf8Size = 1)
    (h : readPunctuator punctuators (c :: t) = some (token, t)) :
    scan goal newline pos (c :: t) = some ⟨token, pos, pos + 1, newline, t⟩ := by
  rw [scan_punctuator hc h, byteLength_cons, Nat.add_sub_cancel, hsize]

theorem scan_arrow :
    scan goal newline pos (' ' :: '=' :: '>' :: t) =
      some ⟨.arrow, pos + 1, pos + 3, newline, t⟩ := by
  have hread : readPunctuator punctuators ('=' :: '>' :: t) = some (.arrow, t) := by
    simp [readPunctuator, punctuators, stripStart?]
  have hlength : byteLength ('=' :: '>' :: t) - byteLength t = 2 := by
    rw [byteLength_cons, byteLength_cons, ← Nat.add_assoc, Nat.add_sub_cancel]
    rfl
  rw [scan_space, scan_punctuator (by decide) hread, hlength]

example : scan .script false 7 " => a".toList = some ⟨.arrow, 8, 10, false, " a".toList⟩ := by
  decide +kernel

end Scanning

/-! ## Steps of a reader -/

section Reading

variable {s s' : ReaderState}

/-- The state behind the current token. -/
def ReaderState.next (s : ReaderState) : Option ReaderState :=
  (scan s.goal false s.current.stop s.current.after).map fun l =>
    { s with current := l, lastStop := s.current.stop }

theorem bind_of_some {α β : Type} {x : Reader α} {f : α → Reader β} {a : α}
    (h : x s = some (a, s')) : (x >>= f) s = f a s' := by
  show (x s).bind _ = _
  rw [h]
  rfl

theorem bind_of_none {α β : Type} {x : Reader α} {f : α → Reader β} (h : x s = none) :
    (x >>= f) s = none := by
  show (x s).bind _ = _
  rw [h]
  rfl

theorem advance_of_ne (h : s.current.token ≠ .malformed) (hnext : s.next = some s') :
    advance s = some ((), s') := by
  obtain ⟨l, hl, rfl⟩ := Option.map_eq_some_iff.1 hnext
  show (if s.current.token == .malformed then fail
    else resumeAt s.current.stop s.current.after) s = _
  rw [if_neg (by simpa using h)]
  show (scan s.goal false s.current.stop s.current.after).map _ = _
  rw [hl]
  rfl

theorem accept_of_eq {t : Token} (h : s.current.token = t) (ht : t ≠ .malformed)
    (hnext : s.next = some s') : accept t s = some (true, s') := by
  have hsees : sees t s = some (true, s) := by
    show some (s.current.token == t, s) = _
    rw [h, beq_self_eq_true]
  rw [accept, bind_of_some hsees, if_pos rfl, bind_of_some (advance_of_ne (h ▸ ht) hnext)]
  rfl

theorem accept_of_ne {t : Token} (h : s.current.token ≠ t) : accept t s = some (false, s) := by
  have hsees : sees t s = some (false, s) := by
    show some (s.current.token == t, s) = _
    rw [beq_eq_false_iff_ne.2 h]
  rw [accept, bind_of_some hsees]
  rfl

theorem expect_of_eq {t : Token} (h : s.current.token = t) (ht : t ≠ .malformed)
    (hnext : s.next = some s') : expect t s = some ((), s') := by
  rw [expect, bind_of_some (accept_of_eq h ht hnext)]
  rfl

theorem expect_of_ne {t : Token} (h : s.current.token ≠ t) : expect t s = none := by
  rw [expect, bind_of_some (accept_of_ne h)]
  rfl

theorem require_of_true {b : Bool} (h : b = true) : require b s = some ((), s) := by
  rw [h]
  rfl

theorem require_of_false {b : Bool} (h : b = false) : require b s = none := by
  rw [h]
  rfl

theorem isReferenceIn_sloppy (name : Text) :
    isReferenceIn sloppyContext .script name = !isReservedWord name := by
  simp [isReferenceIn, isIdentifierIn, sloppyContext]

theorem identifierName_word {name : Text} {escaped : Bool}
    (h : s.current.token = .word name escaped) (hnext : s.next = some s') :
    identifierName s = some (⟨name, s.current.span⟩, s') := by
  have hlexeme : lexeme s = some (s.current, s) := rfl
  have hadvance : advance s = some ((), s') := advance_of_ne (by rw [h]; nofun) hnext
  rw [identifierName, bind_of_some hlexeme]
  simp only [h]
  rw [bind_of_some hadvance]
  rfl

/-- A word that is not reserved is bound by sloppy code. -/
theorem bindingIdentifier_word {name : Text} {escaped : Bool}
    (h : s.current.token = .word name escaped) (hgoal : s.goal = .script)
    (hnext : s.next = some s') :
    bindingIdentifier sloppyContext s =
      if isReservedWord name then none else some (⟨name, s.current.span⟩, s') := by
  have hgoal' : s'.goal = .script := by
    obtain ⟨l, -, rfl⟩ := Option.map_eq_some_iff.1 hnext
    exact hgoal
  have hget : (get : Reader ReaderState) s' = some (s', s') := rfl
  have hreference : identifierReference sloppyContext s =
      if isReservedWord name then none else some (⟨name, s.current.span⟩, s') := by
    rw [identifierReference, bind_of_some (identifierName_word h hnext), bind_of_some hget, hgoal']
    by_cases hreserved : isReservedWord name = true
    · rw [if_pos hreserved, bind_of_none]
      apply require_of_false
      rw [isReferenceIn_sloppy, hreserved]
      rfl
    · rw [if_neg hreserved]
      rw [Bool.not_eq_true] at hreserved
      have hallowed : isReferenceIn sloppyContext .script name = true := by
        rw [isReferenceIn_sloppy, hreserved]
        rfl
      rw [bind_of_some (require_of_true hallowed)]
      rfl
  by_cases hreserved : isReservedWord name = true
  · rw [if_pos hreserved] at hreference ⊢
    exact bind_of_none hreference
  · rw [if_neg hreserved] at hreference ⊢
    rw [bindingIdentifier, bind_of_some hreference]
    rfl

theorem bindingIdentifier_of_identifierName (h : identifierName s = none) :
    bindingIdentifier sloppyContext s = none := by
  have hreference : identifierReference sloppyContext s = none := bind_of_none h
  exact bind_of_none hreference

theorem bindingIdentifier_reserved {name : Text} {escaped : Bool}
    (h : s.current.token = .word name escaped) (hgoal : s.goal = .script)
    (hreserved : isReservedWord name = true) : bindingIdentifier sloppyContext s = none := by
  cases hnext : s.next with
  | some s' => rw [bindingIdentifier_word h hgoal hnext, if_pos hreserved]
  | none =>
    apply bindingIdentifier_of_identifierName
    have hlexeme : lexeme s = some (s.current, s) := rfl
    have hadvance : advance s = none := by
      show (if s.current.token == .malformed then fail
        else resumeAt s.current.stop s.current.after) s = _
      rw [h, if_neg (by simp)]
      exact Option.map_eq_none_iff.2 (Option.map_eq_none_iff.1 hnext)
    rw [identifierName, bind_of_some hlexeme]
    simp only [h]
    exact bind_of_none hadvance

theorem bindingIdentifier_malformed (h : s.current.token = .malformed) :
    bindingIdentifier sloppyContext s = none := by
  apply bindingIdentifier_of_identifierName
  have hlexeme : lexeme s = some (s.current, s) := rfl
  rw [identifierName, bind_of_some hlexeme]
  simp only [h]
  rfl

/-- Behind a word, a letter or digit that no name goes on with forms no token. -/
theorem next_malformed {x : Char} (hpart : isIdentifierPart x = true) (hx : isNamePart x = false)
    (more rest : Text) (s : ReaderState) (hafter : s.current.after = x :: (more ++ rest)) :
    ∃ s', s.next = some s' ∧ s'.current.token = .malformed := by
  have hdigit : isDigitOf 10 x = false := by
    rw [Bool.eq_false_iff]
    intro hdigit
    rw [(nameClass_of_digit hdigit).2.1] at hx
    cases hx
  have hstart : isNameStart x = false := by
    rw [isNamePart, Bool.or_eq_false_iff, Bool.or_eq_false_iff, Bool.or_eq_false_iff] at hx
    exact hx.1.1.1
  rw [ReaderState.next, hafter, scan_of_readToken hpart (readToken_malformed hpart hdigit hstart)]
  exact ⟨_, rfl, rfl⟩

/-- A name that is not read, or behind which something stands that forms no token. -/
def Unread (s : ReaderState) : Prop :=
  bindingIdentifier sloppyContext s = none ∨
    ∃ id s', bindingIdentifier sloppyContext s = some (id, s') ∧ s'.current.token = .malformed

/-- The token of a name, or of something that should be one. -/
def NameToken (t : Token) : Prop := t = .malformed ∨ ∃ word, t = .word word false

/-- What a name of a block is read as, where a text stands behind it: a name, if it is one that can
be bound. If not, there is no name, or the characters of the block's name that are left form no
token. -/
theorem scan_name {name rest : Text} (hname : isIdentifier name = true) (hrest : NameEnds rest)
    (newline : Bool) (pos lastStop : Nat) :
    ∃ l, scan .script newline pos (name ++ rest) = some l ∧ NameToken l.token ∧
      (isBindable name = true → ∀ l', scan .script false (pos + byteLength name) rest = some l' →
        bindingIdentifier sloppyContext ⟨.script, l, lastStop⟩ =
          some (⟨name, ⟨pos, pos + byteLength name⟩⟩, ⟨.script, l', pos + byteLength name⟩)) ∧
      (isBindable name = false → Unread ⟨.script, l, lastStop⟩) := by
  cases name with
  | nil => cases hname
  | cons c t =>
    rw [isIdentifier, Bool.and_eq_true] at hname
    obtain ⟨hc, ht⟩ := hname
    have hpart := isIdentifierPart_of_start hc
    cases hstart : isNameStart c with
    | false =>
      have hdigit : isDigitOf 10 c = false := by
        rw [Bool.eq_false_iff]
        intro hdigit
        rw [(nameClass_of_digit hdigit).2.2] at hc
        cases hc
      refine ⟨_, scan_of_readToken hpart (readToken_malformed hpart hdigit hstart), .inl rfl,
        fun hbindable => ?_, fun _ => .inl (bindingIdentifier_malformed rfl)⟩
      rw [isBindable, hstart] at hbindable
      cases hbindable
    | true =>
      -- The word ends with the block's name, or before a character that no name goes on with.
      have hsplit : t.takeWhile isNamePart ++ t.dropWhile isNamePart = t :=
        List.takeWhile_append_dropWhile
      have htake : ∀ x ∈ t.takeWhile isNamePart, isNamePart x = true :=
        List.all_eq_true.1 List.all_takeWhile
      cases hdrop : t.dropWhile isNamePart with
      | nil =>
        rw [hdrop, List.append_nil] at hsplit
        rw [hsplit] at htake
        have hbindable : isBindable (c :: t) = !isReservedWord (c :: t) := by
          rw [isBindable, hstart, List.all_eq_true.2 htake]
          rfl
        refine ⟨_, scan_word hpart hstart htake hrest, .inr ⟨_, rfl⟩, fun h l' hl' => ?_,
          fun h => .inl ?_⟩
        · rw [hbindable, Bool.not_eq_true'] at h
          rw [bindingIdentifier_word rfl rfl (by rw [ReaderState.next, hl']; rfl), h,
            if_neg Bool.false_ne_true]
          rfl
        · rw [hbindable, Bool.not_eq_false'] at h
          exact bindingIdentifier_reserved rfl rfl h
      | cons x more =>
        have hx : isNamePart x = false := by
          have hhead := List.head?_dropWhile_not isNamePart t
          rw [hdrop] at hhead
          exact hhead
        have hmem : x ∈ t := by
          rw [← hsplit, hdrop]
          exact List.mem_append_right _ List.mem_cons_self
        have hxpart : isIdentifierPart x = true := List.all_eq_true.1 ht x hmem
        have hends : NameEnds (x :: (more ++ rest)) :=
          ⟨hx, ne_of_isIdentifierPart hxpart (by decide)⟩
        have htext : c :: t ++ rest = c :: t.takeWhile isNamePart ++ (x :: (more ++ rest)) := by
          rw [hdrop] at hsplit
          have hrest : t.takeWhile isNamePart ++ (x :: (more ++ rest)) = t ++ rest := by
            rw [← List.cons_append, ← List.append_assoc, hsplit]
          rw [List.cons_append, List.cons_append, hrest]
        rw [htext]
        refine ⟨_, scan_word hpart hstart htake hends, .inr ⟨_, rfl⟩, fun h => ?_, fun _ => ?_⟩
        · simp only [isBindable, Bool.and_eq_true] at h
          rw [List.all_eq_true.1 h.1.2 x hmem] at hx
          cases hx
        · by_cases hreserved : isReservedWord (c :: t.takeWhile isNamePart) = true
          · exact .inl (bindingIdentifier_reserved rfl rfl hreserved)
          · obtain ⟨s', hnext, hmalformed⟩ := next_malformed hxpart hx more rest
              ⟨.script, ⟨.word (c :: t.takeWhile isNamePart) false, pos,
                pos + byteLength (c :: t.takeWhile isNamePart), newline, _⟩, lastStop⟩ rfl
            have hword := bindingIdentifier_word rfl rfl hnext
            rw [if_neg hreserved] at hword
            exact .inr ⟨_, s', hword, hmalformed⟩

/-! ## Parameter lists -/

theorem NameToken.ne {t u : Token} (h : NameToken t) (hu : u ≠ .malformed)
    (hword : ∀ word, u ≠ .word word false) : t ≠ u := by
  rcases h with rfl | ⟨word, rfl⟩
  · exact hu.symm
  · exact (hword word).symm

variable {d d' : Deeper}

/-- A pattern that starts with a name is the name. -/
theorem bindingPattern_eq (htoken : NameToken s.current.token) :
    bindingPattern d' sloppyContext s =
      (do return .ident (← bindingIdentifier sloppyContext) : Reader Pat) s := by
  have hbracket : s.current.token ≠ .bracketOpen := htoken.ne nofun nofun
  have hbrace : s.current.token ≠ .braceOpen := htoken.ne nofun nofun
  rw [bindingPattern, bind_of_some (accept_of_ne hbracket)]
  simp only [Bool.false_eq_true, if_false]
  rw [bind_of_some (accept_of_ne hbrace)]
  rfl

theorem bindingElement_eq (hd : d.binding = bindingPattern d') (htoken : NameToken s.current.token)
    {id : Ident} (h : bindingIdentifier sloppyContext s = some (id, s'))
    (hequals : s'.current.token ≠ .equals) :
    bindingElement d sloppyContext s = some (.ident id, s') := by
  have hpattern : d.binding sloppyContext s = some (.ident id, s') := by
    rw [hd, bindingPattern_eq htoken, bind_of_some h]
    rfl
  rw [bindingElement, bind_of_some hpattern, withInitializer, bind_of_some (accept_of_ne hequals)]
  rfl

theorem bindingElement_eq_none (hd : d.binding = bindingPattern d')
    (htoken : NameToken s.current.token) (h : bindingIdentifier sloppyContext s = none) :
    bindingElement d sloppyContext s = none := by
  have hpattern : d.binding sloppyContext s = none := by
    rw [hd, bindingPattern_eq htoken]
    exact bind_of_none h
  exact bind_of_none hpattern

/-- A step over a parameter: what is left to read starts with the element. -/
theorem formalParameters_step (htoken : NameToken s.current.token) (ctx : Context) (n : Nat) :
    formalParameters d ctx (n + 1) s = (do
      let param ← bindingElement d ctx
      if ← accept .parenClose then return [param]
      else
        expect .comma
        return param :: (← formalParameters d ctx n)) s := by
  have hclose : s.current.token ≠ .parenClose := htoken.ne nofun nofun
  have hellipsis : s.current.token ≠ .ellipsis := htoken.ne nofun nofun
  rw [formalParameters, bind_of_some (accept_of_ne hclose)]
  simp only [Bool.false_eq_true, if_false]
  rw [bind_of_some (accept_of_ne hellipsis)]
  rfl

/-- A parameter that is not read leaves no parameter list. -/
theorem formalParameters_of_unread (hd : d.binding = bindingPattern d')
    (htoken : NameToken s.current.token) (h : Unread s) (n : Nat) :
    formalParameters d sloppyContext (n + 1) s = none := by
  rw [formalParameters_step htoken]
  rcases h with h | ⟨id, s', h, hmalformed⟩
  · exact bind_of_none (bindingElement_eq_none hd htoken h)
  · have helement := bindingElement_eq hd htoken h (by rw [hmalformed]; nofun)
    rw [bind_of_some helement, bind_of_some (accept_of_ne (by rw [hmalformed]; nofun))]
    simp only [Bool.false_eq_true, if_false]
    exact bind_of_none (expect_of_ne (by rw [hmalformed]; nofun))

/-- A name in front of a closing parenthesis ends the parameter list. -/
theorem formalParameters_last (hd : d.binding = bindingPattern d')
    (htoken : NameToken s.current.token) {id : Ident} {s₁ s₂ : ReaderState}
    (h : bindingIdentifier sloppyContext s = some (id, s₁))
    (hclose : s₁.current.token = .parenClose) (hnext : s₁.next = some s₂) (n : Nat) :
    formalParameters d sloppyContext (n + 1) s = some ([.ident id], s₂) := by
  have helement := bindingElement_eq hd htoken h (by rw [hclose]; nofun)
  rw [formalParameters_step htoken, bind_of_some helement,
    bind_of_some (accept_of_eq hclose nofun hnext)]
  rfl

/-- A name in front of a comma is followed by the other parameters. -/
theorem formalParameters_more (hd : d.binding = bindingPattern d')
    (htoken : NameToken s.current.token) {id : Ident} {s₁ s₂ : ReaderState}
    (h : bindingIdentifier sloppyContext s = some (id, s₁)) (hcomma : s₁.current.token = .comma)
    (hnext : s₁.next = some s₂) (n : Nat) :
    formalParameters d sloppyContext (n + 1) s =
      (do return .ident id :: (← formalParameters d sloppyContext n) : Reader (List Pat)) s₂ := by
  have helement := bindingElement_eq hd htoken h (by rw [hcomma]; nofun)
  have hclose : s₁.current.token ≠ .parenClose := by
    rw [hcomma]
    nofun
  rw [formalParameters_step htoken, bind_of_some helement, bind_of_some (accept_of_ne hclose)]
  simp only [Bool.false_eq_true, if_false]
  rw [bind_of_some (expect_of_eq hcomma nofun hnext)]

/-! ## Headers -/

theorem arrowEnd_eq (params : List Pat) (h : s.current.token = .arrow)
    (hline : s.current.newlineBefore = false) (hnext : s.next = some s') :
    arrowEnd params s = some (params, s') := by
  have hnewline : newlineBefore s = some (s.current.newlineBefore, s) := rfl
  rw [arrowEnd, bind_of_some hnewline, bind_of_some (require_of_true (by rw [hline]; rfl)),
    bind_of_some (expect_of_eq h nofun hnext)]
  rfl

theorem arrowEnd_eq_none (params : List Pat) (h : s.current.token ≠ .arrow) :
    arrowEnd params s = none := by
  have hnewline : newlineBefore s = some (s.current.newlineBefore, s) := rfl
  rw [arrowEnd, bind_of_some hnewline]
  cases hline : !s.current.newlineBefore with
  | false => exact bind_of_none (require_of_false rfl)
  | true =>
    rw [bind_of_some (require_of_true rfl)]
    exact bind_of_none (expect_of_ne h)

theorem arrowHead_of_ne (ctx : Context) (h : s.current.token ≠ .parenOpen) :
    arrowHead d ctx s = (do
      let id ← bindingIdentifier ctx
      arrowEnd [.ident id]) s := by
  rw [arrowHead, bind_of_some (accept_of_ne h)]
  rfl

theorem arrowHead_of_eq (ctx : Context) (h : s.current.token = .parenOpen)
    (hnext : s.next = some s') :
    arrowHead d ctx s = (do
      let params ← formalParameters d ctx d.budget
      arrowEnd params) s' := by
  rw [arrowHead, bind_of_some (accept_of_eq h nofun hnext)]
  rfl

theorem run_eq {α : Type} {reader : Reader α} {pos : Nat} {text : Text} {l : Lexeme}
    (h : scan .script true pos text = some l) :
    run .script pos text reader = (reader ⟨.script, l, pos⟩).map Prod.fst := by
  rw [run, h]
  show (reader ⟨.script, l, pos⟩).bind _ = _
  cases reader ⟨.script, l, pos⟩ with
  | none => rfl
  | some result => rfl

theorem scan_backquote (goal : Goal) (newline : Bool) (pos : Nat) (t : Text) :
    scan goal newline pos (' ' :: '\x60' :: t) =
      some ⟨.backquote, pos + 1, pos + 2, newline, t⟩ := by
  have hread : readPunctuator punctuators ('\x60' :: t) = some (.backquote, t) := by
    simp [readPunctuator, punctuators, stripStart?]
  rw [scan_space, scan_single (by decide) rfl hread]

theorem nameEnds_space (t : Text) : NameEnds (' ' :: t) := ⟨by decide, by decide⟩

theorem nameEnds_comma (t : Text) : NameEnds (',' :: t) := ⟨by decide, by decide⟩

/-- A name in front of an arrow is a parameter if it can be bound, and if not there is no
function. -/
theorem arrowHead_name {name : Text} (hname : isIdentifier name = true) (pos : Nat) (more : Text) :
    run .script pos (name ++ (' ' :: '=' :: '>' :: ' ' :: '\x60' :: more))
        (arrowHead d sloppyContext) =
      if isBindable name then some [.ident ⟨name, ⟨pos, pos + byteLength name⟩⟩] else none := by
  obtain ⟨l, hl, htoken, hread, hunread⟩ :=
    scan_name hname (nameEnds_space ('=' :: '>' :: ' ' :: '\x60' :: more)) true pos pos
  have hparen : l.token ≠ .parenOpen := htoken.ne nofun nofun
  rw [run_eq hl, arrowHead_of_ne _ hparen]
  cases hbindable : isBindable name with
  | true =>
    rw [bind_of_some (hread hbindable _ scan_arrow),
      arrowEnd_eq _ rfl rfl (by rw [ReaderState.next, scan_backquote]; rfl)]
    rfl
  | false =>
    rcases hunread hbindable with h | ⟨id, s', h, hmalformed⟩
    · rw [bind_of_none h]
      rfl
    · rw [bind_of_some h, arrowEnd_eq_none _ (by rw [hmalformed]; nofun)]
      rfl

/-- Two names in parentheses are the parameters of an arrow function if both can be bound, and if
not there is no function. -/
theorem arrowHead_pair {item index : Text} (hitem : isIdentifier item = true)
    (hindex : isIdentifier index = true) (n pos : Nat) (more : Text) :
    run .script pos
        ('(' :: ' ' :: (item ++ (',' :: ' ' :: (index ++
          (' ' :: ')' :: ' ' :: '=' :: '>' :: ' ' :: '\x60' :: more)))))
        (arrowHead (level (n + 2)) sloppyContext) =
      if isBindable item && isBindable index then
        some [.ident ⟨item, ⟨pos + 2, pos + 2 + byteLength item⟩⟩,
          .ident ⟨index, ⟨pos + 2 + byteLength item + 2,
            pos + 2 + byteLength item + 2 + byteLength index⟩⟩]
      else none := by
  have hopen : ∀ newline pos t,
      scan .script newline pos ('(' :: t) = some ⟨.parenOpen, pos, pos + 1, newline, t⟩ := by
    intro newline pos t
    exact scan_single (by decide) rfl (by simp [readPunctuator, punctuators, stripStart?])
  have hclose : ∀ newline pos t,
      scan .script newline pos (')' :: t) = some ⟨.parenClose, pos, pos + 1, newline, t⟩ := by
    intro newline pos t
    exact scan_single (by decide) rfl (by simp [readPunctuator, punctuators, stripStart?])
  have hcomma : ∀ newline pos t,
      scan .script newline pos (',' :: t) = some ⟨.comma, pos, pos + 1, newline, t⟩ := by
    intro newline pos t
    exact scan_single (by decide) rfl (by simp [readPunctuator, punctuators, stripStart?])
  have hd : (level (n + 2)).binding = bindingPattern (level (n + 1)) := rfl
  -- The tokens of the two names are found whether they can be bound or not.
  obtain ⟨l, hl, htoken, hread, hunread⟩ :=
    scan_name hitem (nameEnds_comma (' ' :: (index ++
      (' ' :: ')' :: ' ' :: '=' :: '>' :: ' ' :: '\x60' :: more)))) false (pos + 2) (pos + 1)
  obtain ⟨l', hl', htoken', hread', hunread'⟩ :=
    scan_name hindex (nameEnds_space (')' :: ' ' :: '=' :: '>' :: ' ' :: '\x60' :: more)) false
      (pos + 2 + byteLength item + 2) (pos + 2 + byteLength item + 1)
  rw [run_eq (hopen _ _ _), arrowHead_of_eq _ rfl (by rw [ReaderState.next, scan_space, hl]; rfl)]
  show Option.map _ ((formalParameters (level (n + 2)) sloppyContext (n + 1 + 1) >>= _)
    ⟨.script, l, pos + 1⟩) = _
  cases hbindable : isBindable item with
  | false =>
    rw [bind_of_none (formalParameters_of_unread hd htoken (hunread hbindable) (n + 1))]
    rfl
  | true =>
    have hlist := formalParameters_more hd htoken (hread hbindable _ (hcomma _ _ _)) rfl
      (by rw [ReaderState.next, scan_space, hl']; rfl) (n + 1)
    cases hbindable' : isBindable index with
    | false =>
      rw [bind_of_none (formalParameters_of_unread hd htoken' (hunread' hbindable') n)] at hlist
      rw [bind_of_none hlist]
      rfl
    | true =>
      have hlast := formalParameters_last hd htoken'
        (hread' hbindable' _ (by rw [scan_space, hclose])) rfl
        (by rw [ReaderState.next, scan_arrow]; rfl) n
      rw [bind_of_some hlast] at hlist
      rw [bind_of_some hlist, arrowEnd_eq _ rfl rfl (by rw [ReaderState.next, scan_backquote]; rfl)]
      rfl

end Reading

end TemplateCompiler.Script
