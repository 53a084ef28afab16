import TemplateCompiler.Proofs.Script.Gaps

/-!
# What the scanner leaves

Reading a token cuts a text in two: the blanks before the token, the token, and what follows. The
token is not empty and has no blanks at its ends; only the end of the text is an empty token, and only
a malformed token, behind which nothing is read, may end in a blank.

## What this module delivers

* `Takes`, `Eats`: a text that is cut behind something without a blank at its end.
* `readToken_reads`, `scan_eq_some`: what tokens and lexemes are cut from.
* `readRegex_eats`, `readTemplatePart_eats`: the parts that the grammar asks for.
-/

set_option autoImplicit false

namespace TemplateCompiler.Script

open Text

variable {c : Char} {t u rest after : Text} {token : Token}

/-! ## Cutting behind what is no blank -/

/-- A text that is not empty and has no blank at its end. -/
def Solid (t : Text) : Prop :=
  ∃ init c, t = init ++ [c] ∧ isScriptBlank c = false

/-- What is left of a text behind something without a blank at its end. -/
def Eats (t rest : Text) : Prop :=
  ∃ read, t = read ++ rest ∧ Solid read

/-- What is left of a text behind something without a blank at its end, or behind nothing. -/
def Takes (t rest : Text) : Prop :=
  t = rest ∨ Eats t rest

theorem Solid.append (a : Text) {b : Text} (h : Solid b) : Solid (a ++ b) := by
  obtain ⟨init, c, rfl, hc⟩ := h
  exact ⟨a ++ init, c, (List.append_assoc _ _ _).symm, hc⟩

theorem Solid.ne_nil (h : Solid t) : t ≠ [] := by
  obtain ⟨init, c, rfl, -⟩ := h
  exact List.append_ne_nil_of_right_ne_nil _ (List.cons_ne_nil _ _)

theorem Eats.of_suffix (h : u <:+ t) (hu : Eats u rest) : Eats t rest := by
  obtain ⟨a, rfl⟩ := h
  obtain ⟨read, rfl, hread⟩ := hu
  exact ⟨a ++ read, (List.append_assoc _ _ _).symm, hread.append a⟩

theorem Eats.suffix (h : Eats t rest) : rest <:+ t := by
  obtain ⟨read, rfl, -⟩ := h
  exact List.suffix_append read rest

theorem Eats.byteLength_lt (h : Eats t rest) : byteLength rest < byteLength t := by
  obtain ⟨read, rfl, hread⟩ := h
  rw [byteLength_append]
  exact Nat.lt_add_of_pos_left (byteLength_pos_of_ne_nil hread.ne_nil)

theorem Eats.cons (rest : Text) (hc : isScriptBlank c = false) : Eats (c :: rest) rest :=
  ⟨[c], rfl, [], c, rfl, hc⟩

theorem Takes.suffix (h : Takes t rest) : rest <:+ t := by
  rcases h with rfl | h
  · exact List.suffix_rfl
  · exact h.suffix

theorem Takes.trans (h : Takes t u) (hu : Takes u rest) : Takes t rest := by
  rcases hu with rfl | hu
  · exact h
  · exact .inr (hu.of_suffix h.suffix)

theorem Eats.trans_takes (h : Eats t u) (hu : Takes u rest) : Eats t rest := by
  rcases hu with rfl | hu
  · exact h
  · exact hu.of_suffix h.suffix

/-! ## Characters that are no blanks -/

/-- The blanks of scripts, one by one. -/
def scriptBlanks : List Nat :=
  scriptBlankRanges.flatMap fun r => (List.range (r.2 + 1 - r.1)).map (r.1 + ·)

theorem exists_range_of_inRanges {table : List (Nat × Nat)} {n : Nat}
    (h : inRanges table n = true) : ∃ r ∈ table, r.1 ≤ n ∧ n ≤ r.2 := by
  induction table with
  | nil => cases h
  | cons r table ih =>
    rw [inRanges] at h
    split at h
    · cases h
    · split at h
      · exact ⟨r, List.mem_cons_self, by omega, by omega⟩
      · obtain ⟨r', hr', hn⟩ := ih h
        exact ⟨r', List.mem_cons_of_mem _ hr', hn⟩

theorem mem_scriptBlanks (h : isScriptBlank c = true) : c.toNat ∈ scriptBlanks := by
  obtain ⟨r, hr, hlo, hhi⟩ := exists_range_of_inRanges h
  refine List.mem_flatMap.2 ⟨r, hr, List.mem_map.2 ⟨c.toNat - r.1, ?_, by omega⟩⟩
  exact List.mem_range.2 (by omega)

/-- A class of characters without blanks. -/
theorem not_isScriptBlank {p : Char → Bool} (hp : ∀ n ∈ scriptBlanks, p (Char.ofNat n) = false)
    (h : p c = true) : isScriptBlank c = false := by
  cases hblank : isScriptBlank c with
  | false => rfl
  | true =>
    have hc := hp _ (mem_scriptBlanks hblank)
    rw [Char.ofNat_toNat, h] at hc
    cases hc

theorem isScriptBlank_of_isNamePart (h : isNamePart c = true) :
    isScriptBlank c = false :=
  not_isScriptBlank (by decide +kernel) h

example : isScriptBlank '\t' = true ∧ isNamePart '\t' = false := by decide +kernel

theorem isScriptBlank_of_isDigitOf {radix : Nat} (h : isDigitOf radix c = true) :
    isScriptBlank c = false := by
  have hsome : (digitValue? c).isSome = true := by
    cases hd : digitValue? c with
    | none =>
      rw [isDigitOf, hd] at h
      cases h
    | some d => rfl
  exact not_isScriptBlank (p := fun c => (digitValue? c).isSome) (by decide +kernel) hsome

/-! ## Numbers -/

theorem readDigits_takes {radix : Nat} {afterDigit : Bool} {digits : Text}
    (h : readDigits radix afterDigit t = some (digits, rest)) : Takes t rest := by
  fun_induction readDigits radix afterDigit t generalizing digits rest with
  | case1 =>
    cases h
    exact .inl rfl
  | case2 afterDigit d t hd ih =>
    exact (Takes.trans (.inr (Eats.cons _ (by decide))) (ih h))
  | case3 | case4 => cases h
  | case5 afterDigit c t hno hdigit ih =>
    obtain ⟨p, hp, heq⟩ := Option.map_eq_some_iff.1 h
    cases heq
    exact Takes.trans (.inr (Eats.cons _ (isScriptBlank_of_isDigitOf hdigit))) (ih hp)
  | case6 afterDigit c t hno hdigit =>
    cases h
    exact .inl rfl

/-- Digits that start with a digit. -/
theorem readDigits_eats {radix : Nat} {digits : Text} (hc : isDigitOf radix c = true)
    (h : readDigits radix false (c :: t) = some (digits, rest)) : Eats (c :: t) rest := by
  have hne : c ≠ '_' := by
    rintro rfl
    rw [isDigitOf] at hc
    cases hc
  rw [readDigits.eq_4 radix false c t hne, if_pos hc] at h
  obtain ⟨p, hp, heq⟩ := Option.map_eq_some_iff.1 h
  cases heq
  exact (Eats.cons t (isScriptBlank_of_isDigitOf hc)).trans_takes (readDigits_takes hp)

/-- Whether a token starts with a slash, where a regular expression can start too. -/
def Token.isSlash : Token → Bool
  | .operator .div | .divEquals => true
  | _ => false

/-- A token that is malformed, or that is no slash and cut off without a blank at its end. -/
def Cuts (t : Text) (r : Scanned) : Prop :=
  ∀ token after, r = some (token, after) →
    (token = .malformed ∧ after = []) ∨ (token.isSlash = false ∧ Eats t after)

theorem cuts_malformed (t : Text) : Cuts t malformed := by
  intro token after h
  cases h
  exact .inl ⟨rfl, rfl⟩

theorem cuts_none (t : Text) : Cuts t none := by
  intro token after h
  cases h

theorem cuts_some (htoken : token.isSlash = false)
    (h : Eats t after) : Cuts t (some (token, after)) := by
  intro token' after' heq
  cases heq
  exact .inr ⟨htoken, h⟩

theorem Cuts.of_suffix {r : Scanned} (h : u <:+ t) (hu : Cuts u r) : Cuts t r := by
  intro token after heq
  rcases hu token after heq with hmal | ⟨htoken, heats⟩
  · exact .inl hmal
  · exact .inr ⟨htoken, heats.of_suffix h⟩

theorem endNumber_cuts (htoken : token.isSlash = false) (h : Eats t rest) :
    Cuts t (endNumber token rest) := by
  cases rest with
  | nil => exact cuts_some htoken h
  | cons c rest =>
    rw [endNumber]
    split
    · exact cuts_malformed t
    · exact cuts_some htoken h

theorem readRadixNumber_cuts {radix : Nat} {t u : Text} (h : Eats t u) :
    Cuts t (readRadixNumber radix u) := by
  unfold readRadixNumber
  split
  · exact cuts_none t
  · exact cuts_malformed t
  · rename_i hdigits
    exact endNumber_cuts rfl (h.trans_takes ((readDigits_takes hdigits).trans
      (.inr (Eats.cons _ (by decide)))))
  · rename_i hdigits
    exact endNumber_cuts rfl (h.trans_takes (readDigits_takes hdigits))

theorem readExponent_takes {n : Int}
    (h : readExponent t = some (some (n, rest))) : Takes t rest := by
  unfold readExponent at h
  split at h
  · rename_i c t'
    split at h
    · rename_i hc
      have hfirst : Eats (c :: t') t' := by
        refine Eats.cons t' ?_
        rcases (by simpa using hc : c = 'e' ∨ c = 'E') with rfl | rfl <;> decide
      split at h
      rename_i sign u hu
      have hsign : Takes t' u := by
        split at hu <;> cases hu
        · exact .inr (Eats.cons _ (by decide))
        · exact .inr (Eats.cons _ (by decide))
        · exact .inl rfl
      split at h
      · cases h
      · cases h
      · rename_i hdigits
        cases h
        exact .inr (hfirst.trans_takes (hsign.trans (readDigits_takes hdigits)))
    · cases h
      exact .inl rfl
  · cases h
    exact .inl rfl

/-- What follows the integer digits of a number. -/
theorem readFraction_cuts {integer : Text} {legacy : Bool}
    (h : Eats t u ∨ (t = u ∧ u.head? = some '.')) : Cuts t (readFraction integer legacy u) := by
  unfold readFraction
  extract_lets fraction?
  -- A number without integer digits has a point, so something is read in any case.
  have hfraction : ∀ fraction rest, fraction? = some (fraction, rest) → Eats t rest := by
    intro fraction rest hrest
    simp only [fraction?] at hrest
    split at hrest
    · rename_i v
      have hpoint : Eats ('.' :: v) rest :=
        (Eats.cons v (by decide)).trans_takes (readDigits_takes hrest)
      rcases h with h | ⟨rfl, -⟩
      · exact hpoint.of_suffix h.suffix
      · exact hpoint
    · rename_i hno
      cases hrest
      rcases h with h | ⟨rfl, hhead⟩
      · exact h
      · cases t with
        | nil => cases hhead
        | cons c t => exact (hno t (by rw [Option.some.inj hhead])).elim
  clear_value fraction?
  cases hv : fraction? with
  | none => exact cuts_none t
  | some p =>
    obtain ⟨fraction, v⟩ := p
    dsimp only
    split
    · exact cuts_none t
    · exact cuts_malformed t
    · rename_i hexponent
      exact endNumber_cuts rfl ((hfraction _ _ hv).trans_takes (readExponent_takes hexponent))

theorem readDecimal_cuts (hc : isDigitOf 10 c = true) :
    Cuts (c :: t) (readDecimal (c :: t)) := by
  unfold readDecimal
  split
  · exact cuts_none _
  · rename_i digits rest hdigits
    have heats := readDigits_eats hc hdigits
    extract_lets leadingZero
    split
    · split
      · exact endNumber_cuts rfl heats
      · exact readFraction_cuts (.inl heats)
    · split
      · exact endNumber_cuts rfl (heats.trans_takes (.inr (Eats.cons _ (by decide))))
      · exact readFraction_cuts (.inl heats)

theorem readNumber_cuts (hc : isDigitOf 10 c = true) :
    Cuts (c :: t) (readNumber (c :: t)) := by
  have hradix : ∀ d u, isScriptBlank d = false → Eats ('0' :: d :: u) u := fun d u hd =>
    (Eats.cons _ (by decide)).trans_takes (.inr (Eats.cons u hd))
  unfold readNumber
  split
  any_goals
    rename_i u heq
    rw [heq]
    exact readRadixNumber_cuts (hradix _ u (by decide))
  exact readDecimal_cuts hc

/-! ## Escapes, strings and words -/

theorem readHex_takes {n : Nat} {t digits rest : Text} (h : readHex n t = some (digits, rest)) :
    Takes t rest := by
  fun_induction readHex n t generalizing digits rest with
  | case1 t =>
    cases h
    exact .inl rfl
  | case2 => cases h
  | case3 n c t hdigit ih =>
    obtain ⟨p, hp, heq⟩ := Option.map_eq_some_iff.1 h
    cases heq
    exact Takes.trans (.inr (Eats.cons _ (isScriptBlank_of_isDigitOf hdigit))) (ih hp)
  | case4 => cases h

theorem takes_dropWhile {p : Char → Bool} (hp : ∀ c, p c = true → isScriptBlank c = false)
    (t : Text) : Takes t (t.dropWhile p) := by
  induction t with
  | nil => exact .inl rfl
  | cons c t ih =>
    cases hc : p c with
    | false =>
      rw [List.dropWhile_cons_of_neg (by simp [hc])]
      exact .inl rfl
    | true =>
      rw [List.dropWhile_cons_of_pos hc]
      exact .inr ((Eats.cons t (hp c hc)).trans_takes ih)

theorem readUnicodeEscape_takes {value : Text} {legacy : Bool}
    (h : readUnicodeEscape t = .chars value legacy rest) : Takes t rest := by
  unfold readUnicodeEscape at h
  split at h
  · rename_i u
    have hclose : ∀ v, u.dropWhile (isDigitOf 16) = '\x7d' :: v → Takes ('\x7b' :: u) v := by
      intro v hv
      have hdigits := takes_dropWhile (p := isDigitOf 16) (fun _ => isScriptBlank_of_isDigitOf) u
      rw [hv] at hdigits
      exact .inr ((Eats.cons u (by decide)).trans_takes
        (hdigits.trans (.inr (Eats.cons v (by decide)))))
    dsimp only at h
    split at h
    · cases h
    · rename_i v hv hno
      split at h
      · cases h
        exact hclose _ hv
      · split at h
        · cases h
          exact hclose _ hv
        · cases h
    · cases h
  · split at h
    · cases h
    · rename_i digits v hv
      split at h
      · cases h
        exact readHex_takes hv
      · cases h
        exact readHex_takes hv

theorem readOctalEscape_suffix {inTemplate legacy : Bool} {d : Char} {value : Text}
    (h : readOctalEscape inTemplate d t = .chars value legacy rest) : rest <:+ t := by
  unfold readOctalEscape at h
  dsimp only at h
  split at h
  · cases h
    exact List.suffix_rfl
  · split at h
    · cases h
    · cases h
      exact List.drop_suffix _ _

theorem readEscape_suffix {inTemplate legacy : Bool} {t value rest : Text}
    (h : readEscape inTemplate t = .chars value legacy rest) : rest <:+ t := by
  unfold readEscape at h
  split at h
  any_goals
    cases h
    done
  any_goals
    cases h
    exact List.suffix_cons _ _
  · cases h
    exact (List.suffix_cons _ _).trans (List.suffix_cons _ _)
  · split at h
    · rename_i hhex
      cases h
      exact (readHex_takes hhex).suffix.trans (List.suffix_cons _ _)
    · cases h
  · exact (readUnicodeEscape_takes h).suffix.trans (List.suffix_cons _ _)
  · split at h
    · cases h
      exact List.suffix_cons _ _
    · split at h
      · exact (readOctalEscape_suffix h).trans (List.suffix_cons _ _)
      · cases h
        exact List.suffix_cons _ _

theorem readString_cuts {quote : Char} (hquote : isScriptBlank quote = false) (n : Nat)
    (legacy : Bool) (value t : Text) : Cuts t (readString quote n legacy value t) := by
  induction n generalizing legacy value t with
  | zero =>
    rw [readString]
    exact cuts_none _
  | succ n ih =>
    cases t with
    | nil =>
      rw [readString]
      exact cuts_none _
    | cons c t =>
      -- A step reads an escape, the end of the string or one of its characters.
      by_cases hc : c = '\\'
      · subst hc
        by_cases ht : t = []
        · subst ht
          rw [readString.eq_3]
          exact cuts_none _
        · cases hescape : readEscape false t with
          | chars cs old rest =>
            rw [readString.eq_4 _ _ _ _ _ _ _ _ ht hescape]
            have hrest := (readEscape_suffix hescape).trans (List.suffix_cons '\\' t)
            exact (ih _ _ _).of_suffix hrest
          | malformed =>
            rw [readString.eq_5 _ _ _ _ _ ht hescape]
            exact cuts_malformed _
      · rw [readString.eq_6 _ _ _ _ _ _ hc]
        split
        · rename_i heq
          exact cuts_some rfl (Eats.cons t (heq ▸ hquote))
        · split
          · exact cuts_none _
          · exact (ih _ _ _).of_suffix (List.suffix_cons _ _)

theorem readName_takes {n : Nat} {t name rest : Text} {escaped : Bool}
    (h : readName n t = some (name, escaped, rest)) : Takes t rest ∧ (name ≠ [] → Eats t rest) := by
  induction n generalizing t name rest escaped with
  | zero =>
    rw [readName] at h
    cases h
    exact ⟨.inl rfl, fun hne => absurd rfl hne⟩
  | succ n ih =>
    cases t with
    | nil =>
      rw [readName] at h
      cases h
      exact ⟨.inl rfl, fun hne => absurd rfl hne⟩
    | cons c t =>
      by_cases hc : c = '\\'
      · subst hc
        by_cases hu : ∃ u, t = 'u' :: u
        · obtain ⟨u, rfl⟩ := hu
          rw [readName.eq_3] at h
          split at h
          · rename_i d old v hescape
            split at h
            · obtain ⟨p, hp, heq⟩ := Option.map_eq_some_iff.1 h
              cases heq
              have hmark : Eats ('\\' :: 'u' :: u) u :=
                (Eats.cons _ (by decide)).trans_takes (.inr (Eats.cons u (by decide)))
              have heats := hmark.trans_takes ((readUnicodeEscape_takes hescape).trans (ih hp).1)
              exact ⟨.inr heats, fun _ => heats⟩
            · cases h
          · cases h
        · rw [readName.eq_4 n t fun u hu' => hu ⟨u, hu'⟩] at h
          cases h
      · rw [readName.eq_5 n c t hc] at h
        split at h
        · rename_i hpart
          obtain ⟨p, hp, heq⟩ := Option.map_eq_some_iff.1 h
          cases heq
          have heats := (Eats.cons t (isScriptBlank_of_isNamePart hpart)).trans_takes (ih hp).1
          exact ⟨.inr heats, fun _ => heats⟩
        · cases h
          exact ⟨.inl rfl, fun hne => absurd rfl hne⟩

theorem readWord_cuts (t : Text) : Cuts t (readWord t) := by
  unfold readWord
  split
  · rename_i hname
    split
    · exact cuts_malformed _
    · split
      · exact cuts_malformed _
      · exact cuts_some rfl ((readName_takes hname).2 (List.cons_ne_nil _ _))
  · exact cuts_malformed _

/-! ## Punctuators and tokens -/

theorem readPunctuator_eq_some {table : List (String × Token)}
    (h : readPunctuator table t = some (token, after)) :
    (token = .malformed ∧ after = []) ∨
      ∃ spelling, (spelling, token) ∈ table ∧ t = spelling.toList ++ after := by
  induction table with
  | nil =>
    cases h
    exact .inl ⟨rfl, rfl⟩
  | cons p table ih =>
    rw [readPunctuator] at h
    split at h
    · rename_i rest hrest
      cases h
      exact .inr ⟨p.1, List.mem_cons_self, stripStart?_eq_some hrest⟩
    · rcases ih h with hmal | ⟨spelling, hmem, ht⟩
      · exact .inl hmal
      · exact .inr ⟨spelling, List.mem_cons_of_mem p hmem, ht⟩

/-- What is left behind a slash, with the sign that may belong to the token. -/
def Token.afterSlash : Token → Text → Text
  | .divEquals, after => '=' :: after
  | _, after => after

/-- A token at the start of a text: it is malformed, or cut off without a blank at its end, and a
token that starts with a slash has nothing else before what is left behind the slash. -/
def ReadsToken (t : Text) (token : Token) (after : Text) : Prop :=
  (token = .malformed ∧ after = []) ∨
    (Eats t after ∧ (token.isSlash = true → t = '/' :: token.afterSlash after))

theorem Cuts.reads {r : Scanned} (h : Cuts t r)
    (hr : r = some (token, after)) : ReadsToken t token after := by
  rcases h token after hr with hmal | ⟨hslash, heats⟩
  · exact .inl hmal
  · exact .inr ⟨heats, fun hslash' => by rw [hslash] at hslash'; cases hslash'⟩

/-- The punctuators end in no blank, and only two of them start with a slash. -/
theorem mem_punctuators {spelling : String} (h : (spelling, token) ∈ punctuators) :
    Solid spelling.toList ∧
      (token.isSlash = true → ∀ after, spelling.toList ++ after = '/' :: token.afterSlash after) := by
  -- Two facts about the table as a whole.
  have hlast : ∀ p ∈ punctuators, p.1.toList.getLast?.map isScriptBlank = some false := by
    decide +kernel
  have hslash : ∀ p ∈ punctuators, p.2.isSlash = true →
      p = ("/=", .divEquals) ∨ p = ("/", .operator .div) := by decide +kernel
  obtain ⟨c, hc, hblank⟩ := Option.map_eq_some_iff.1 (hlast _ h)
  obtain ⟨init, hinit⟩ := List.getLast?_eq_some_iff.1 hc
  refine ⟨⟨init, c, hinit, hblank⟩, fun htoken after => ?_⟩
  rcases hslash _ h htoken with heq | heq
  · cases heq
    rfl
  · cases heq
    rfl

theorem readPunctuator_reads
    (h : readPunctuator punctuators t = some (token, after)) : ReadsToken t token after := by
  rcases readPunctuator_eq_some h with hmal | ⟨spelling, hmem, rfl⟩
  · exact .inl hmal
  · obtain ⟨hsolid, hslash⟩ := mem_punctuators hmem
    exact .inr ⟨⟨_, rfl, hsolid⟩, fun htoken => hslash htoken after⟩

theorem readToken_reads (ht : t ≠ [])
    (h : readToken t = some (token, after)) : ReadsToken t token after := by
  unfold readToken at h
  split at h
  · exact absurd rfl ht
  · exact ((readString_cuts (by decide) _ _ _ _).of_suffix (List.suffix_cons _ _)).reads h
  · exact ((readString_cuts (by decide) _ _ _ _).of_suffix (List.suffix_cons _ _)).reads h
  · split at h
    · exact (readFraction_cuts (.inr ⟨rfl, rfl⟩)).reads h
    · exact readPunctuator_reads h
  · split at h
    · exact (readNumber_cuts ‹_›).reads h
    · split at h
      · exact (readWord_cuts _).reads h
      · exact readPunctuator_reads h

/-! ## Lexemes -/

/-- A lexeme behind what the scanner skips: the token stands between the text before and the text
after it, and has no blank at its start or, unless it is malformed, at its end. -/
theorem scan_eq_some {goal : Goal} {newline : Bool} {pos : Nat} {l : Lexeme}
    (h : scan goal newline pos t = some l) :
    ∃ gap read, t = gap ++ (read ++ l.after) ∧ l.start = pos + byteLength gap ∧
      l.stop = l.start + byteLength read ∧
      (l.token ≠ .eof → ∃ c rest, read = c :: rest ∧ isScriptBlank c = false) ∧
      (l.token ≠ .eof → l.token ≠ .malformed → Solid read) ∧
      (l.token.isSlash = true → read ++ l.after = '/' :: l.token.afterSlash l.after) := by
  obtain ⟨⟨ended, start, u⟩, hgap, h⟩ := Option.bind_eq_some_iff.1 h
  obtain ⟨⟨token, after⟩, htoken, h⟩ := Option.bind_eq_some_iff.1 h
  cases h
  obtain ⟨⟨gap, rfl, rfl⟩, hhead⟩ := skipGap_eq_some hgap
  cases u with
  | nil =>
    -- The end of the text is the empty token.
    rw [readToken] at htoken
    cases htoken
    exact ⟨gap, [], rfl, rfl, rfl, fun hne => absurd rfl hne, fun hne => absurd rfl hne,
      fun hslash => Bool.noConfusion hslash⟩
  | cons c u =>
    have hc : isScriptBlank c = false := hhead c rfl
    rcases readToken_reads (List.cons_ne_nil c u) htoken with
      ⟨rfl, rfl⟩ | ⟨⟨read, hread, hsolid⟩, hslash⟩
    -- A malformed token goes to the end of the text.
    · refine ⟨gap, c :: u, by rw [List.append_nil], rfl, rfl, fun _ => ⟨c, u, rfl, hc⟩, ?_, ?_⟩
      · exact fun _ hmalformed => absurd rfl hmalformed
      · exact fun hslash => Bool.noConfusion hslash
    · refine ⟨gap, read, by rw [hread], rfl, ?_, fun _ => ?_, fun _ _ => hsolid, ?_⟩
      · rw [hread, byteLength_append, Nat.add_sub_cancel]
      · cases read with
        | nil => exact absurd rfl hsolid.ne_nil
        | cons d read =>
          cases hread
          exact ⟨c, read, rfl, hc⟩
      · rw [← hread]
        exact hslash

/-! ## Parts that the grammar asks for -/

theorem skipRegexBody_eats {inClass : Bool}
    (h : skipRegexBody inClass t = some rest) : Eats t rest := by
  fun_induction skipRegexBody inClass t with
  | case1 => cases h
  | case2 => cases h
  | case3 inClass c t hend ih =>
    exact (ih h).of_suffix ((List.suffix_cons _ _).trans (List.suffix_cons _ _))
  | case4 => cases h
  | case5 inClass c t hno hend hclose =>
    cases h
    have hslash : c = '/' := by
      rw [Bool.and_eq_true, decide_eq_true_iff] at hclose
      exact hclose.1
    subst hslash
    exact Eats.cons _ (by decide)
  | case6 inClass c t hno hend hclose ih => exact (ih h).of_suffix (List.suffix_cons _ _)

theorem readRegex_eats (h : readRegex t = some rest) : Eats t rest := by
  obtain ⟨u, hbody, h⟩ := Option.bind_eq_some_iff.1 h
  dsimp only at h
  split at h
  · cases h
    exact (skipRegexBody_eats hbody).trans_takes
      (takes_dropWhile (fun c => isScriptBlank_of_isNamePart) u)
  · cases h

theorem readTemplatePart_eats {valid : Bool} {part : TemplatePart}
    (h : readTemplatePart valid t = some part) : Eats t part.after := by
  fun_induction readTemplatePart valid t with
  | case1 => cases h
  | case2 valid t =>
    cases h
    exact Eats.cons _ (by decide)
  | case3 valid t =>
    cases h
    exact (Eats.cons _ (by decide)).trans_takes (.inr (Eats.cons _ (by decide)))
  | case4 valid c t hescape ih =>
    exact (ih h).of_suffix ((List.suffix_cons _ _).trans (List.suffix_cons _ _))
  | case5 valid c t _ _ _ hescape ih =>
    exact (ih h).of_suffix ((List.suffix_cons _ _).trans (List.suffix_cons _ _))
  | case6 valid c t _ _ _ ih => exact (ih h).of_suffix (List.suffix_cons _ _)

end TemplateCompiler.Script
