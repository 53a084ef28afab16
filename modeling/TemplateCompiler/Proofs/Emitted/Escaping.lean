import TemplateCompiler.Proofs.Emitted.Lexical

/-!
# Escaped text at its seams

The static text of a template literal ends at a mark: the backquote that closes the literal, or the sign
that opens a hole. Text that is escaped for a literal is read up to the mark that follows it and not
further, and stands for the text that was escaped. Escaping looks at one character and the one behind
it, so it can be done piece by piece, unless a piece ends between a dollar sign and a brace.

## What this module delivers

* `CookedPart`, `cookedPart`: the static text up to a mark, and what it stands for.
* `readTemplatePart_of_cookedFrom`: the scanner stops at the same mark.
* `StandsFor`, `standsFor_escapeLiteral`: escaped text before each of the marks.
* `escapeLiteral_append_iff`, `escapeAttribute_append_iff`: escaping piece by piece.
* `escaping_round_trips`: all of it together.
-/

set_option autoImplicit false

namespace TemplateCompiler.Emitted

open Script

/-! ## Static text -/

/-- The static text of a template literal up to a mark. -/
structure CookedPart where
  /-- What the characters stand for. -/
  value : Text
  /-- Whether the mark opens a hole, and does not close the literal. -/
  opensHole : Bool
  /-- The text behind the mark. -/
  after : Text
deriving DecidableEq, Repr

/-- A part with more static text in front. -/
def CookedPart.prepend (value : Text) (p : CookedPart) : CookedPart :=
  { p with value := value ++ p.value }

@[simp] theorem CookedPart.prepend_nil : CookedPart.prepend [] = id := rfl

@[simp] theorem CookedPart.prepend_comp (s t : Text) :
    CookedPart.prepend s ∘ CookedPart.prepend t = CookedPart.prepend (s ++ t) := by
  funext p
  simp [CookedPart.prepend]

/-- Reads static text, the first `skip` characters of which have been read already. A carriage return,
alone or before a line feed, stands for a line feed. A malformed escape stands for nothing. -/
def cookedFrom : Nat → Text → Option CookedPart
  | _, [] => none
  | skip + 1, _ :: t => cookedFrom skip t
  | 0, '\x60' :: t => some ⟨[], false, t⟩
  | 0, '$' :: '\x7b' :: t => some ⟨[], true, t⟩
  | 0, '\\' :: t =>
    match readEscape true t with
    | .malformed => none
    | .chars value _ after => (cookedFrom (t.length - after.length) t).map (.prepend value)
  | 0, '\r' :: '\n' :: t => (cookedFrom 0 t).map (.prepend ['\n'])
  | 0, '\r' :: t => (cookedFrom 0 t).map (.prepend ['\n'])
  | 0, c :: t => (cookedFrom 0 t).map (.prepend [c])

/-- Reads the static text of a template literal. -/
def cookedPart (t : Text) : Option CookedPart := cookedFrom 0 t

attribute [local simp] cookedFrom

/-! ## The scanner stops at the same mark -/

/-- Whether a character is static text wherever it stands. -/
def isPlain (c : Char) : Bool :=
  !(c == '\x60' || c == '$' || c == '\\')

theorem readTemplatePart_cons {c : Char} {t : Text} (hquote : c ≠ '\x60') (hbackslash : c ≠ '\\')
    (hhole : c = '$' → t.head? ≠ some '\x7b') (valid : Bool) :
    readTemplatePart valid (c :: t) = readTemplatePart valid t := by
  conv => lhs; unfold readTemplatePart
  split <;> simp_all

theorem readTemplatePart_plain {plain : Text} (hplain : ∀ c ∈ plain, isPlain c = true)
    (valid : Bool) (t : Text) :
    readTemplatePart valid (plain ++ t) = readTemplatePart valid t := by
  induction plain with
  | nil => rfl
  | cons c plain ih =>
    obtain ⟨hc, hplain⟩ := List.forall_mem_cons.1 hplain
    simp [isPlain] at hc
    rw [List.cons_append, readTemplatePart_cons hc.1.1 hc.2 (fun h => absurd h hc.1.2), ih hplain]

theorem isPlain_of_isDigitOf {c : Char} (h : isDigitOf 16 c = true) : isPlain c = true := by
  have hne : ∀ d, isDigitOf 16 d = false → c ≠ d := by
    rintro d hd rfl
    rw [hd] at h
    cases h
  simp [isPlain, hne '\x60' (by decide), hne '$' (by decide), hne '\\' (by decide)]

theorem readHex_eq_some {n : Nat} {t digits rest : Text} (h : readHex n t = some (digits, rest)) :
    t = digits ++ rest ∧ ∀ c ∈ digits, isDigitOf 16 c = true := by
  fun_induction readHex n t generalizing digits with
  | case1 t =>
    cases h
    exact ⟨rfl, nofun⟩
  | case2 => cases h
  | case3 n c t hc ih =>
    obtain ⟨⟨digits', rest'⟩, hread, hp⟩ := Option.map_eq_some_iff.1 h
    cases hp
    obtain ⟨ht, hdigits⟩ := ih hread
    exact ⟨by rw [ht]; rfl, List.forall_mem_cons.2 ⟨hc, hdigits⟩⟩
  | case4 => cases h

/-- What is read of a text is plain. -/
def PlainUpTo (t after : Text) : Prop :=
  ∃ plain : Text, t = plain ++ after ∧ ∀ c ∈ plain, isPlain c = true

theorem PlainUpTo.refl (t : Text) : PlainUpTo t t := ⟨[], rfl, nofun⟩

theorem plainUpTo_readHex {n : Nat} {t digits rest : Text} (h : readHex n t = some (digits, rest)) :
    PlainUpTo t rest := by
  obtain ⟨ht, hdigits⟩ := readHex_eq_some h
  exact ⟨digits, ht, fun c hc => isPlain_of_isDigitOf (hdigits c hc)⟩

theorem plainUpTo_readUnicodeEscape {t value after : Text} {legacy : Bool}
    (h : readUnicodeEscape t = .chars value legacy after) : PlainUpTo t after := by
  unfold readUnicodeEscape at h
  split at h
  · rename_i u
    -- The digits stand between braces.
    have hbraces : ∀ rest, u.dropWhile (isDigitOf 16) = '\x7d' :: rest →
        PlainUpTo ('\x7b' :: u) rest := by
      intro rest hrest
      refine ⟨'\x7b' :: u.takeWhile (isDigitOf 16) ++ ['\x7d'], ?_, ?_⟩
      · rw [List.cons_append, List.cons_append, List.append_assoc, List.singleton_append, ← hrest,
          List.takeWhile_append_dropWhile]
      · intro c hc
        simp only [List.cons_append, List.mem_cons, List.mem_append, List.not_mem_nil,
          or_false] at hc
        rcases hc with rfl | hc | rfl
        · decide
        · exact isPlain_of_isDigitOf (List.all_eq_true.1 List.all_takeWhile c hc)
        · decide
    dsimp only at h
    split at h
    · cases h
    · rename_i hrest _
      split at h
      · cases h
        exact hbraces _ hrest
      · split at h
        · cases h
          exact hbraces _ hrest
        · cases h
    · cases h
  · split at h
    · cases h
    · rename_i hhex
      split at h
      all_goals
        cases h
        exact plainUpTo_readHex hhex

/-- Behind its first character an escape has only plain ones. -/
theorem plainUpTo_readEscape {c : Char} {t value after : Text} {legacy : Bool}
    (h : readEscape true (c :: t) = .chars value legacy after) : PlainUpTo t after := by
  unfold readEscape at h
  split at h
  case h_1 heq => cases heq
  case h_8 heq =>
    cases heq
    cases h
    exact ⟨['\n'], rfl, by decide⟩
  case h_9 heq =>
    cases heq
    split at h
    · cases h
      exact plainUpTo_readHex ‹_›
    · cases h
  case h_10 heq =>
    cases heq
    exact plainUpTo_readUnicodeEscape h
  case h_11 heq =>
    cases heq
    split at h
    · cases h
      exact .refl t
    · split at h
      · unfold readOctalEscape at h
        dsimp only at h
        split at h
        · cases h
          exact .refl t
        · cases h
      · cases h
        exact .refl t
  all_goals
    rename_i heq
    cases heq
    cases h
    exact .refl t

/-- Wherever static text ends that stands for something, the scanner finds its end. -/
theorem readTemplatePart_of_cookedFrom {skip : Nat} {t : Text} {p : CookedPart}
    (h : cookedFrom skip t = some p) (valid : Bool) :
    readTemplatePart valid (t.drop skip) = some ⟨p.opensHole, valid, p.after⟩ := by
  fun_induction cookedFrom skip t generalizing p with
  | case1 => cases h
  | case2 skip c t ih => exact ih h
  | case3 t =>
    cases h
    rfl
  | case4 t =>
    cases h
    rfl
  | case5 t hescape => cases h
  | case6 t value legacy after hescape ih =>
    obtain ⟨q, hq, rfl⟩ := Option.map_eq_some_iff.1 h
    cases t with
    | nil => cases hescape
    | cons c t =>
      obtain ⟨plain, rfl, hplain⟩ := plainUpTo_readEscape hescape
      have hdrop : (c :: (plain ++ after)).drop ((c :: (plain ++ after)).length - after.length) =
          after := by
        have hlength : (c :: (plain ++ after)).length - after.length = (c :: plain).length := by
          simp only [List.length_cons, List.length_append]
          omega
        rw [hlength, ← List.cons_append]
        exact List.drop_left
      have hafter := ih hq
      rw [hdrop] at hafter
      -- The scanner takes the first character of an escape and meets the others as plain text.
      have hescaped : readTemplatePart valid ('\\' :: c :: (plain ++ after)) =
          readTemplatePart valid (plain ++ after) := by
        conv => lhs; unfold readTemplatePart
        simp [hescape]
      exact hescaped.trans ((readTemplatePart_plain hplain valid after).trans hafter)
  | case7 t ih =>
    obtain ⟨q, hq, rfl⟩ := Option.map_eq_some_iff.1 h
    have hlines : ∀ c ∈ ['\r', '\n'], isPlain c = true := by decide
    have hrest := ih hq
    exact (readTemplatePart_plain hlines valid t).trans hrest
  | case8 t _ ih =>
    obtain ⟨q, hq, rfl⟩ := Option.map_eq_some_iff.1 h
    have hrest := ih hq
    have hreturn : ∀ c ∈ ['\r'], isPlain c = true := by decide
    exact (readTemplatePart_plain hreturn valid t).trans hrest
  | case9 c t hquote hhole hbackslash hline hreturn ih =>
    obtain ⟨q, hq, rfl⟩ := Option.map_eq_some_iff.1 h
    have hbrace : c = '$' → t.head? ≠ some '\x7b' := by
      intro hc hhead
      obtain ⟨u, rfl⟩ := List.head?_eq_some_iff.1 hhead
      exact hhole u hc rfl
    have hrest := ih hq
    exact (readTemplatePart_cons hquote hbackslash hbrace valid).trans hrest

/-! ## Escaped text -/

/-- A character of static text that stands for itself. -/
theorem cookedFrom_plain {c : Char} {t : Text} (hc : isSpecial c = false)
    (hnext : c = '$' → t.head? ≠ some '\x7b') :
    cookedFrom 0 (c :: t) = (cookedFrom 0 t).map (.prepend [c]) := by
  simp [isSpecial] at hc
  conv => lhs; unfold cookedFrom
  split <;> simp_all

/-- A character of static text behind a backslash. -/
theorem cookedFrom_escaped {c : Char} (t : Text)
    (hescape : readEscape true (c :: t) = .chars [c] false t) :
    cookedFrom 0 ('\\' :: c :: t) = (cookedFrom 0 t).map (.prepend [c]) := by
  conv => lhs; unfold cookedFrom
  simp [hescape]

theorem head?_escapeLiteral_append {t rest : Text} (ht : t.head? ≠ some '\x7b')
    (hrest : t = [] → rest.head? ≠ some '\x7b') :
    (escapeLiteral t ++ rest).head? ≠ some '\x7b' := by
  cases h : escapeLiteral t with
  | nil => exact hrest (escapeLiteral_ne_nil h)
  | cons d u =>
    intro hd
    refine ht (head?_escapeLiteral ?_)
    rw [h]
    exact hd

/-- Escaped text before what cannot be taken for the brace of a hole. -/
theorem cookedFrom_escapeLiteral {t rest : Text} (ht : '\r' ∉ t)
    (hrest : endsInDollar t = true → rest.head? ≠ some '\x7b') :
    cookedFrom 0 (escapeLiteral t ++ rest) = (cookedFrom 0 rest).map (.prepend t) := by
  fun_induction escapeLiteral t with
  | case1 => simp
  | case2 t ih | case3 t ih =>
    have ht' := fun h => ht (List.mem_cons_of_mem _ h)
    rw [List.cons_append, List.cons_append, cookedFrom_escaped _ rfl,
      ih ht' fun h => hrest (endsInDollar_of_tail h), Option.map_map, CookedPart.prepend_comp,
      List.singleton_append]
  | case4 t ih =>
    have ht' := fun h => ht (List.mem_cons_of_mem _ (List.mem_cons_of_mem _ h))
    have hrest' := fun h => hrest (endsInDollar_of_tail (endsInDollar_of_tail h))
    rw [List.cons_append, List.cons_append, List.cons_append, cookedFrom_escaped _ rfl,
      cookedFrom_plain (by decide) (fun h => absurd h (by decide)), ih ht' hrest', Option.map_map,
      Option.map_map, CookedPart.prepend_comp, CookedPart.prepend_comp]
    rfl
  | case5 c t hbackslash hbackquote hhole ih =>
    have hc : isSpecial c = false := by
      have hreturn : c ≠ '\r' := fun h => ht (h ▸ List.mem_cons_self)
      have hb : c ≠ '\\' := hbackslash
      have hq : c ≠ '\x60' := hbackquote
      simp [isSpecial, hreturn, hb, hq]
    -- A dollar sign that is not escaped has no brace behind it, in the text or at the seam.
    have hnext : c = '$' → (escapeLiteral t ++ rest).head? ≠ some '\x7b' := by
      rintro rfl
      refine head?_escapeLiteral_append (fun hhead => ?_) ?_
      · obtain ⟨u, rfl⟩ := List.head?_eq_some_iff.1 hhead
        exact hhole u rfl rfl
      · rintro rfl
        exact hrest rfl
    have ht' := fun h => ht (List.mem_cons_of_mem _ h)
    rw [List.cons_append, cookedFrom_plain hc hnext,
      ih ht' fun h => hrest (endsInDollar_of_tail h), Option.map_map, CookedPart.prepend_comp,
      List.singleton_append]

/-- Characters that are written in a template literal stand for a value: before either mark they are
read to their end and not further, by the scanner too. -/
structure StandsFor (written value : Text) : Prop where
  closing : ∀ rest, cookedPart (written ++ '\x60' :: rest) = some ⟨value, false, rest⟩
  opening : ∀ rest, cookedPart (written ++ '$' :: '\x7b' :: rest) = some ⟨value, true, rest⟩
  scannedClosing : ∀ valid rest,
    readTemplatePart valid (written ++ '\x60' :: rest) = some ⟨false, valid, rest⟩
  scannedOpening : ∀ valid rest,
    readTemplatePart valid (written ++ '$' :: '\x7b' :: rest) = some ⟨true, valid, rest⟩

theorem standsFor_escapeLiteral {t : Text} (ht : '\r' ∉ t) : StandsFor (escapeLiteral t) t := by
  have hclosing : ∀ rest, cookedPart (escapeLiteral t ++ '\x60' :: rest) = some ⟨t, false, rest⟩ := by
    intro rest
    rw [cookedPart, cookedFrom_escapeLiteral ht fun _ => by simp]
    simp [CookedPart.prepend]
  have hopening : ∀ rest,
      cookedPart (escapeLiteral t ++ '$' :: '\x7b' :: rest) = some ⟨t, true, rest⟩ := by
    intro rest
    rw [cookedPart, cookedFrom_escapeLiteral ht fun _ => by simp]
    simp [CookedPart.prepend]
  exact ⟨hclosing, hopening,
    fun valid rest => readTemplatePart_of_cookedFrom (hclosing rest) valid,
    fun valid rest => readTemplatePart_of_cookedFrom (hopening rest) valid⟩

example : cookedPart (escapeLiteral "\\n`$\x7b".toList ++ "`;".toList) =
    some ⟨"\\n`$\x7b".toList, false, ";".toList⟩ := by
  decide +kernel

/-- The value of an attribute stands for the text with its double quotes replaced. -/
theorem standsFor_escapeAttribute {t : Text} (ht : '\r' ∉ t) :
    StandsFor (escapeAttribute t) (referenced t) := by
  rw [escapeAttribute_eq]
  exact standsFor_escapeLiteral (not_mem_referenced ht)

/-! ## Double quotes -/

theorem quote_not_mem_referenced (t : Text) : '"' ∉ referenced t := by
  intro h
  obtain ⟨c, -, hmem⟩ := List.mem_flatMap.1 h
  split at hmem
  · revert hmem
    decide
  · rename_i hc
    exact hc (List.mem_singleton.1 hmem).symm

/-- Escaping adds nothing but backslashes. -/
theorem mem_escapeLiteral {c : Char} {t : Text} (h : c ∈ escapeLiteral t) : c = '\\' ∨ c ∈ t := by
  fun_induction escapeLiteral t with
  | case1 => cases h
  | _ => grind

theorem quote_not_mem_escapeAttribute (t : Text) : '"' ∉ escapeAttribute t := by
  rw [escapeAttribute_eq]
  intro h
  rcases mem_escapeLiteral h with h | h
  · revert h
    decide
  · exact quote_not_mem_referenced t h

/-! ## Escaping piece by piece -/

theorem escapeLiteral_append {t u : Text} (h : endsInDollar t = true → u.head? ≠ some '\x7b') :
    escapeLiteral (t ++ u) = escapeLiteral t ++ escapeLiteral u := by
  fun_induction escapeLiteral t with
  | case1 => rfl
  | case2 t ih | case3 t ih =>
    rw [List.cons_append, escapeLiteral, ih fun ht => h (endsInDollar_of_tail ht)]
    rfl
  | case4 t ih =>
    rw [List.cons_append, List.cons_append, escapeLiteral,
      ih fun ht => h (endsInDollar_of_tail (endsInDollar_of_tail ht))]
    rfl
  | case5 c t hbackslash hbackquote hhole ih =>
    have hbrace : c = '$' → (t ++ u).head? ≠ some '\x7b' := by
      rintro rfl
      cases t with
      | nil => exact h rfl
      | cons d t =>
        intro hd
        cases hd
        exact hhole t rfl rfl
    rw [List.cons_append, escapeLiteral_cons hbackslash hbackquote hbrace,
      ih fun ht => h (endsInDollar_of_tail ht), List.cons_append]

/-- A text that ends in a dollar sign, and what stands before it. -/
theorem exists_of_endsInDollar {t : Text} (h : endsInDollar t = true) : ∃ s, t = s ++ ['$'] :=
  List.getLast?_eq_some_iff.1 (beq_iff_eq.1 h)

/-- A piece can be escaped on its own unless it ends between a dollar sign and a brace, where only the
whole text gets a backslash. -/
theorem escapeLiteral_append_iff {t u : Text} :
    escapeLiteral (t ++ u) = escapeLiteral t ++ escapeLiteral u ↔
      ¬ (endsInDollar t = true ∧ u.head? = some '\x7b') := by
  constructor
  · rintro h ⟨ht, hu⟩
    obtain ⟨s, rfl⟩ := exists_of_endsInDollar ht
    obtain ⟨v, rfl⟩ := List.head?_eq_some_iff.1 hu
    -- The whole text has a backslash before the dollar sign, the piece has none.
    have hwhole : escapeLiteral (s ++ ['$'] ++ '\x7b' :: v) =
        escapeLiteral s ++ '\\' :: '$' :: '\x7b' :: escapeLiteral v := by
      rw [List.append_assoc, escapeLiteral_append fun _ => by simp]
      rfl
    have hpiece : escapeLiteral (s ++ ['$']) = escapeLiteral s ++ ['$'] :=
      escapeLiteral_append fun _ => by simp
    rw [hwhole, hpiece, List.append_assoc] at h
    exact absurd (List.cons.inj (List.append_cancel_left h)).1 (by decide)
  · intro h
    exact escapeLiteral_append fun ht hu => h ⟨ht, hu⟩

theorem referenced_append (t u : Text) : referenced (t ++ u) = referenced t ++ referenced u :=
  List.flatMap_append

theorem head?_referenced_iff {t : Text} :
    (referenced t).head? = some '\x7b' ↔ t.head? = some '\x7b' := by
  refine ⟨head?_referenced, fun h => ?_⟩
  obtain ⟨u, rfl⟩ := List.head?_eq_some_iff.1 h
  rfl

theorem endsInDollar_referenced (t : Text) : endsInDollar (referenced t) = endsInDollar t := by
  rcases List.eq_nil_or_concat t with rfl | ⟨s, c, rfl⟩
  · rfl
  · rw [List.concat_eq_append, referenced_append]
    by_cases hc : c = '"'
    · subst hc
      have hlast : (referenced ['"']).getLast? = some ';' := rfl
      simp [endsInDollar, List.getLast?_append, hlast]
    · have hlast : referenced [c] = [c] := referenced_cons [] hc
      simp [endsInDollar, List.getLast?_append, hlast]

theorem escapeAttribute_append_iff {t u : Text} :
    escapeAttribute (t ++ u) = escapeAttribute t ++ escapeAttribute u ↔
      ¬ (endsInDollar t = true ∧ u.head? = some '\x7b') := by
  rw [escapeAttribute_eq, escapeAttribute_eq, escapeAttribute_eq, referenced_append,
    escapeLiteral_append_iff, endsInDollar_referenced, head?_referenced_iff]

/-- Escaped text round-trips at every seam. A text without a carriage return that is escaped for a
literal is read up to the mark that follows, whichever it is, and stands for that text; escaped for the
value of an attribute it stands for the text with its double quotes replaced, and has none of them. And
escaping a text in two pieces is escaping it at once, unless the first piece ends in a dollar sign and
the second one starts with a brace. -/
theorem escaping_round_trips (t : Text) :
    ('\r' ∉ t → StandsFor (escapeLiteral t) t ∧ StandsFor (escapeAttribute t) (referenced t)) ∧
    '"' ∉ escapeAttribute t ∧ '"' ∉ referenced t ∧
    ∀ u,
      (escapeLiteral (t ++ u) = escapeLiteral t ++ escapeLiteral u ↔
        ¬ (t.getLast? = some '$' ∧ u.head? = some '\x7b')) ∧
      (escapeAttribute (t ++ u) = escapeAttribute t ++ escapeAttribute u ↔
        ¬ (t.getLast? = some '$' ∧ u.head? = some '\x7b')) := by
  have hends : endsInDollar t = true ↔ t.getLast? = some '$' := beq_iff_eq
  rw [← hends]
  exact ⟨fun ht => ⟨standsFor_escapeLiteral ht, standsFor_escapeAttribute ht⟩,
    quote_not_mem_escapeAttribute t, quote_not_mem_referenced t,
    fun u => ⟨escapeLiteral_append_iff, escapeAttribute_append_iff⟩⟩

/-- All that is escaped, a hole that is none, and a dollar sign at the end. -/
def crowdedText : Text := "\\`$\x7b$\"$".toList

theorem escaping_round_trips_crowdedText :
    '\r' ∉ crowdedText ∧
    StandsFor (escapeLiteral crowdedText) crowdedText ∧
    cookedPart (escapeAttribute crowdedText ++ ['$', '\x7b', 'x']) =
      some ⟨"\\`$\x7b$&quot;$".toList, true, ['x']⟩ ∧
    escapeLiteral (crowdedText ++ ['\x7b']) ≠
      escapeLiteral crowdedText ++ escapeLiteral ['\x7b'] := by
  have hreturn : '\r' ∉ crowdedText := by decide
  obtain ⟨hstands, -, -, hpieces⟩ := escaping_round_trips crowdedText
  refine ⟨hreturn, (hstands hreturn).1, (hstands hreturn).2.opening ['x'], fun h => ?_⟩
  exact (hpieces ['\x7b']).1.1 h (by decide)

end TemplateCompiler.Emitted
