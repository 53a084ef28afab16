import TemplateCompiler.Proofs.Template.Cursor

/-!
# Where a mustache ends

The end of a mustache is looked for without reading the expression in it: only quotes, backslashes
in quoted texts and braces count. A comment, a regular expression and the inside of a template
literal are gone over as if they were code or a plain quoted text. Here is said which contents are
passed over as a whole, up to the braces that close the mustache, and likewise which texts may stand
behind an expression.

## What this module delivers

* `Quoted`, `Nested`, `Skimmed`: quoted texts, texts with their braces in pairs, and contents.
* `splitMustache_skimmed_iff`: the contents that are passed over are these.
* `Trivia`, `isTrivia_iff`: blanks and comments behind an expression.
-/

set_option autoImplicit false

namespace TemplateCompiler

open Script

/-! ## Contents -/

/-- The inside of a quoted text: its quote stands in it only behind a backslash. -/
inductive Quoted (q : Char) : Text → Prop where
  | nil : Quoted q []
  | escaped {t : Text} (c : Char) (h : Quoted q t) : Quoted q ('\\' :: c :: t)
  | plain {c : Char} {t : Text} (hq : c ≠ q) (hc : c ≠ '\\') (h : Quoted q t) : Quoted q (c :: t)

/-- A character that is neither a quote nor a brace. -/
def isOrdinary (c : Char) : Bool := !isQuote c && c != '\x7b' && c != '\x7d'

/-- Texts in which the braces outside of quoted texts come in pairs. -/
inductive Nested : Text → Prop where
  | nil : Nested []
  | ordinary {c : Char} {t : Text} (hc : isOrdinary c = true) (h : Nested t) : Nested (c :: t)
  | quoted {q : Char} {s t : Text} (hq : isQuote q = true) (hs : Quoted q s) (h : Nested t) :
      Nested (q :: (s ++ q :: t))
  | braces {s t : Text} (hs : Nested s) (h : Nested t) : Nested ('\x7b' :: (s ++ '\x7d' :: t))

/-- Texts with their braces in pairs, and closing braces between them that stand alone. -/
inductive Skimmed : Text → Prop where
  | nested {t : Text} (h : Nested t) : Skimmed t
  | lone {s t : Text} (hs : Nested s) (hnext : t.head? ≠ some '\x7d') (h : Skimmed t) :
      Skimmed (s ++ '\x7d' :: t)

theorem Nested.append {s t : Text} (hs : Nested s) (ht : Nested t) : Nested (s ++ t) := by
  induction hs with
  | nil => exact ht
  | ordinary hc _ ih => exact .ordinary hc ih
  | @quoted q s u hq hquoted _ ih =>
    rw [List.cons_append, List.append_assoc]
    exact .quoted hq hquoted ih
  | @braces s u hs _ _ ih =>
    rw [List.cons_append, List.append_assoc]
    exact .braces hs ih

theorem Skimmed.append {s t : Text} (hs : Nested s) (ht : Skimmed t) : Skimmed (s ++ t) := by
  induction ht with
  | nested h => exact .nested (hs.append h)
  | lone hs' hnext h =>
    rw [← List.append_assoc]
    exact .lone (hs.append hs') hnext h

/-! ## Steps of the search -/

section Steps

variable {depth : Nat} {q c : Char} {t : Text}

attribute [local simp] splitMustache

theorem splitMustache_escaped :
    splitMustache depth (some q) ('\\' :: c :: t) =
      consContent '\\' (consContent c (splitMustache depth (some q) t)) := by
  simp

theorem splitMustache_inQuotes (hc : c ≠ '\\') :
    splitMustache depth (some q) (c :: t) =
      consContent c (splitMustache depth (if c = q then none else some q) t) := by
  simp [hc]

theorem splitMustache_opens :
    splitMustache depth none ('\x7b' :: t) =
      consContent '\x7b' (splitMustache (depth + 1) none t) := by
  simp

theorem splitMustache_closes :
    splitMustache (depth + 1) none ('\x7d' :: t) =
      consContent '\x7d' (splitMustache depth none t) := by
  simp

theorem splitMustache_lone (hnext : t.head? ≠ some '\x7d') :
    splitMustache 0 none ('\x7d' :: t) = consContent '\x7d' (splitMustache 0 none t) := by
  rw [splitMustache]
  · rfl
  · nofun
  · nofun
  · rintro u - - rfl
    exact hnext rfl

theorem splitMustache_outside (hopen : c ≠ '\x7b') (hclose : c ≠ '\x7d') :
    splitMustache depth none (c :: t) =
      consContent c (splitMustache depth (if isQuote c then some c else none) t) := by
  simp [hclose]

end Steps

/-! ## Contents are passed over -/

/-- Puts a text in front of the content of a mustache. -/
def appendContent (s : Text) (r : Option (Text × Text)) : Option (Text × Text) :=
  r.map fun p => (s ++ p.1, p.2)

theorem consContent_appendContent (c : Char) (s : Text) (r : Option (Text × Text)) :
    consContent c (appendContent s r) = appendContent (c :: s) r := by
  cases r <;> rfl

theorem appendContent_nil (r : Option (Text × Text)) : appendContent [] r = r := by
  cases r <;> rfl

theorem appendContent_append (s t : Text) (r : Option (Text × Text)) :
    appendContent s (appendContent t r) = appendContent (s ++ t) r := by
  cases r <;> simp [appendContent]

theorem isQuote_ne {q : Char} (hq : isQuote q = true) : q ≠ '\\' ∧ q ≠ '\x7b' ∧ q ≠ '\x7d' := by
  refine ⟨?_, ?_, ?_⟩ <;>
    · rintro rfl
      cases hq

/-- A quoted text is passed over up to its quote. -/
theorem Quoted.splitMustache_eq {q : Char} (hq : isQuote q = true) {s : Text} (h : Quoted q s)
    (depth : Nat) (rest : Text) :
    splitMustache depth (some q) (s ++ q :: rest) =
      appendContent (s ++ [q]) (splitMustache depth none rest) := by
  induction h with
  | nil =>
    rw [List.nil_append, List.nil_append, splitMustache_inQuotes (isQuote_ne hq).1, if_pos rfl]
    rfl
  | escaped c _ ih =>
    rw [List.cons_append, List.cons_append, splitMustache_escaped, ih, consContent_appendContent,
      consContent_appendContent]
    rfl
  | plain hne hc _ ih =>
    rw [List.cons_append, splitMustache_inQuotes hc, if_neg hne, ih, consContent_appendContent]
    rfl

/-- A text with its braces in pairs is passed over at any depth. -/
theorem Nested.splitMustache_eq {s : Text} (h : Nested s) (depth : Nat) (rest : Text) :
    splitMustache depth none (s ++ rest) = appendContent s (splitMustache depth none rest) := by
  induction h generalizing depth rest with
  | nil => exact (appendContent_nil _).symm
  | @ordinary c t hc _ ih =>
    simp only [isOrdinary, Bool.and_eq_true, Bool.not_eq_true', bne_iff_ne, ne_eq] at hc
    obtain ⟨⟨hquote, hopen⟩, hclose⟩ := hc
    rw [List.cons_append, splitMustache_outside hopen hclose, hquote, if_neg Bool.false_ne_true, ih,
      consContent_appendContent]
  | @quoted q s t hq hs _ ih =>
    obtain ⟨-, hopen, hclose⟩ := isQuote_ne hq
    rw [List.cons_append, List.append_assoc, List.cons_append, splitMustache_outside hopen hclose,
      hq, if_pos rfl, hs.splitMustache_eq hq, ih, appendContent_append, consContent_appendContent,
      List.append_assoc]
    rfl
  | @braces s t _ _ ihs iht =>
    rw [List.cons_append, List.append_assoc, List.cons_append, splitMustache_opens, ihs,
      splitMustache_closes, iht, consContent_appendContent, consContent_appendContent,
      appendContent_append]
    rfl

theorem head?_append_blank_ne {t rest : Text} (hnext : t.head? ≠ some '\x7d') :
    (t ++ ' ' :: rest).head? ≠ some '\x7d' := by
  cases t with
  | nil => simp
  | cons c t => simpa using hnext

/-- What is skimmed is passed over, and the two braces behind it and a blank close the mustache. -/
theorem Skimmed.splitMustache_eq {t : Text} (h : Skimmed t) (rest : Text) :
    splitMustache 0 none (t ++ ' ' :: '\x7d' :: '\x7d' :: rest) = some (t ++ [' '], rest) := by
  have hend : splitMustache 0 none (' ' :: '\x7d' :: '\x7d' :: rest) = some ([' '], rest) := by
    simp [splitMustache, consContent, isQuote]
  induction h with
  | nested h =>
    rw [h.splitMustache_eq, hend]
    rfl
  | @lone s t hs hnext _ ih =>
    rw [List.append_assoc, List.cons_append, hs.splitMustache_eq,
      splitMustache_lone (head?_append_blank_ne hnext), ih]
    simp [consContent, appendContent]

/-! ## Only contents are passed over -/

/-- Texts that close some open braces, and are skimmed behind them. -/
def Closes : Nat → Text → Prop
  | 0, t => Skimmed t
  | depth + 1, t => ∃ s t', Nested s ∧ t = s ++ '\x7d' :: t' ∧ Closes depth t'

theorem Closes.append {depth : Nat} {s t : Text} (hs : Nested s) (ht : Closes depth t) :
    Closes depth (s ++ t) := by
  cases depth with
  | zero => exact Skimmed.append hs ht
  | succ depth =>
    obtain ⟨u, t', hu, rfl, ht'⟩ := ht
    exact ⟨s ++ u, t', hs.append hu, (List.append_assoc ..).symm, ht'⟩

theorem Closes.opens {depth : Nat} {t : Text} (ht : Closes (depth + 1) t) :
    Closes depth ('\x7b' :: t) := by
  obtain ⟨s, t', hs, rfl, ht'⟩ := ht
  have hpair := Closes.append (Nested.braces hs .nil) ht'
  rwa [List.cons_append, List.append_assoc] at hpair

/-- Texts that go on after the end of a quoted text. -/
def ClosesQuoted (q : Char) (depth : Nat) (t : Text) : Prop :=
  ∃ s t', Quoted q s ∧ t = s ++ q :: t' ∧ Closes depth t'

theorem ClosesQuoted.closes {q : Char} (hq : isQuote q = true) {depth : Nat} {t : Text}
    (h : ClosesQuoted q depth t) : Closes depth (q :: t) := by
  obtain ⟨s, t', hs, rfl, ht'⟩ := h
  have hquoted := Closes.append (Nested.quoted hq hs .nil) ht'
  rwa [List.cons_append, List.append_assoc] at hquoted

/-- In a quoted text the two braces close nothing. -/
theorem splitMustache_braces_inQuotes {q : Char} (hq : isQuote q = true) (depth : Nat) :
    splitMustache depth (some q) ['\x7d', '\x7d'] = none := by
  have hne := (isQuote_ne hq).2.2.symm
  rw [splitMustache_inQuotes (by decide), if_neg hne, splitMustache_inQuotes (by decide),
    if_neg hne]
  rfl

theorem splitMustache_blank_inQuotes {q : Char} (hq : isQuote q = true) (depth : Nat) :
    splitMustache depth (some q) [' ', '\x7d', '\x7d'] = none := by
  have hne : ' ' ≠ q := by
    rintro rfl
    cases hq
  rw [splitMustache_inQuotes (by decide), if_neg hne, splitMustache_braces_inQuotes hq]
  rfl

theorem consContent_eq_cons_iff {c : Char} {r : Option (Text × Text)} {content rest : Text} :
    consContent c r = some (c :: content, rest) ↔ r = some (content, rest) := by
  rw [consContent_eq_some_iff]
  simp

mutual

/-- If the end of the mustache is found behind a text and a blank, the text closes the braces that
were open. The induction is on the text, for all depths at once, since each brace changes the
depth. -/
theorem closes_of_splitMustache (depth : Nat) : (t : Text) →
    splitMustache depth none (t ++ [' ', '\x7d', '\x7d']) = some (t ++ [' '], []) →
      Closes depth t
  | [], h => by
    rw [List.nil_append, List.nil_append, splitMustache_outside (by decide) (by decide),
      consContent_eq_cons_iff, if_neg (by decide)] at h
    cases depth with
    | zero => exact .nested .nil
    | succ depth =>
      -- An open brace would take one of the two.
      rw [splitMustache_closes] at h
      obtain ⟨inner, -, hcontent⟩ := consContent_eq_some_iff.1 h
      cases hcontent
  | c :: t, h => by
    rw [List.cons_append, List.cons_append] at h
    by_cases hopen : c = '\x7b'
    · subst hopen
      rw [splitMustache_opens, consContent_eq_cons_iff] at h
      exact (closes_of_splitMustache (depth + 1) t h).opens
    by_cases hclose : c = '\x7d'
    · subst hclose
      cases depth with
      | succ depth =>
        rw [splitMustache_closes, consContent_eq_cons_iff] at h
        exact ⟨[], t, .nil, rfl, closes_of_splitMustache depth t h⟩
      | zero =>
        -- A second brace behind it would have ended the mustache here.
        have hnext : t.head? ≠ some '\x7d' := by
          intro hhead
          obtain ⟨u, rfl⟩ := List.head?_eq_some_iff.1 hhead
          rw [List.cons_append, splitMustache] at h
          cases h
        rw [splitMustache_lone (head?_append_blank_ne hnext), consContent_eq_cons_iff] at h
        exact Skimmed.lone .nil hnext (closes_of_splitMustache 0 t h)
    rw [splitMustache_outside hopen hclose, consContent_eq_cons_iff] at h
    cases hquote : isQuote c with
    | true =>
      rw [hquote, if_pos rfl] at h
      exact (closesQuoted_of_splitMustache hquote depth t h).closes hquote
    | false =>
      rw [hquote, if_neg Bool.false_ne_true] at h
      have hordinary : isOrdinary c = true := by simp [isOrdinary, hquote, hopen, hclose]
      exact Closes.append (.ordinary hordinary .nil) (closes_of_splitMustache depth t h)

/-- The same from inside of a quoted text. -/
theorem closesQuoted_of_splitMustache {q : Char} (hq : isQuote q = true) (depth : Nat) :
    (t : Text) →
      splitMustache depth (some q) (t ++ [' ', '\x7d', '\x7d']) = some (t ++ [' '], []) →
        ClosesQuoted q depth t
  | [], h => by
    rw [List.nil_append, splitMustache_blank_inQuotes hq] at h
    cases h
  | c :: t, h => by
    by_cases hslash : c = '\\'
    · subst hslash
      cases t with
      | nil =>
        -- The backslash hides the blank, and the braces are in the quoted text.
        rw [List.cons_append, List.nil_append, splitMustache_escaped,
          splitMustache_braces_inQuotes hq] at h
        cases h
      | cons c t =>
        simp only [List.cons_append] at h
        rw [splitMustache_escaped, consContent_eq_cons_iff, consContent_eq_cons_iff] at h
        obtain ⟨s, t', hs, rfl, ht'⟩ := closesQuoted_of_splitMustache hq depth t h
        exact ⟨'\\' :: c :: s, t', .escaped c hs, rfl, ht'⟩
    rw [List.cons_append, List.cons_append, splitMustache_inQuotes hslash,
      consContent_eq_cons_iff] at h
    by_cases hend : c = q
    · subst hend
      rw [if_pos rfl] at h
      exact ⟨[], t, .nil, rfl, closes_of_splitMustache depth t h⟩
    · rw [if_neg hend] at h
      obtain ⟨s, t', hs, rfl, ht'⟩ := closesQuoted_of_splitMustache hq depth t h
      exact ⟨c :: s, t', .plain hend hslash hs, rfl, ht'⟩

end

/-- The contents that are passed over up to a blank and the last braces are the skimmed ones. -/
theorem splitMustache_skimmed_iff (t : Text) :
    splitMustache 0 none (t ++ [' ', '\x7d', '\x7d']) = some (t ++ [' '], []) ↔ Skimmed t :=
  ⟨closes_of_splitMustache 0 t, fun h => h.splitMustache_eq []⟩

instance (t : Text) : Decidable (Skimmed t) :=
  decidable_of_iff _ (splitMustache_skimmed_iff t)

/-! ## Behind an expression -/

/-- Blanks and comments, in which only a line feed ends a line. -/
inductive Trivia : Text → Prop where
  | nil : Trivia []
  | unclosed {comment : Text} (hcomment : '\n' ∉ comment) : Trivia ('/' :: '/' :: comment)
  | blank {c : Char} {t : Text} (hc : Text.isBlank c = true) (h : Trivia t) : Trivia (c :: t)
  | line {comment t : Text} (hcomment : '\n' ∉ comment) (h : Trivia t) :
      Trivia ('/' :: '/' :: (comment ++ '\n' :: t))
  | block {comment t : Text} (hcomment : ¬ ['*', '/'] <:+: comment) (h : Trivia t) :
      Trivia ('/' :: '*' :: (comment ++ '*' :: '/' :: t))

section Steps

attribute [local simp] isTrivia

theorem isTrivia_lineComment {comment : Text} (hcomment : '\n' ∉ comment) (t : Text) :
    isTrivia .lineComment (comment ++ t) = isTrivia .lineComment t := by
  induction comment with
  | nil => rfl
  | cons c comment ih =>
    rw [List.mem_cons, not_or] at hcomment
    simp [Ne.symm hcomment.1, ih hcomment.2]

theorem isTrivia_blockComment {comment : Text} (hcomment : ¬ ['*', '/'] <:+: comment) (t : Text) :
    isTrivia .blockComment (comment ++ '*' :: '/' :: t) = isTrivia .blank t := by
  induction comment with
  | nil => simp
  | cons c comment ih =>
    rw [List.infix_cons_iff, not_or] at hcomment
    rw [List.cons_append, isTrivia, ih hcomment.2]
    -- The end of the comment does not start with this character.
    rintro u rfl heq
    cases comment with
    | nil => cases heq
    | cons d comment =>
      cases heq
      exact hcomment.1 ⟨comment, rfl⟩

theorem Trivia.isTrivia_eq {t : Text} (h : Trivia t) : isTrivia .blank t = true := by
  induction h with
  | nil => rfl
  | @unclosed comment hcomment =>
    have hline := isTrivia_lineComment hcomment []
    rw [List.append_nil] at hline
    simp [hline]
  | @blank c t hc _ ih =>
    have hslash : c ≠ '/' := by
      rintro rfl
      cases hc
    rw [isTrivia, hc, ih]
    · rfl
    · exact fun _ h _ => hslash h
    · exact fun _ h _ => hslash h
  | line hcomment _ ih => simp [isTrivia_lineComment hcomment, ih]
  | block hcomment _ ih => simp [isTrivia_blockComment hcomment, ih]

end Steps

/-- What is left of blanks and comments, from where the check is. -/
def TriviaFrom : Gap → Text → Prop
  | .blank, t => Trivia t
  | .lineComment, t => '\n' ∉ t ∨
      ∃ comment rest, t = comment ++ '\n' :: rest ∧ '\n' ∉ comment ∧ Trivia rest
  | .blockComment, t => ∃ comment rest, t = comment ++ '*' :: '/' :: rest ∧
      ¬ ['*', '/'] <:+: comment ∧ Trivia rest

theorem triviaFrom_of_isTrivia {gap : Gap} {t : Text} (h : isTrivia gap t = true) :
    TriviaFrom gap t := by
  fun_induction isTrivia gap t with
  | case1 => exact .nil
  | case2 t ih =>
    obtain ⟨comment, rest, rfl, hcomment, hrest⟩ := ih h
    exact .block hcomment hrest
  | case3 t ih =>
    rcases ih h with hcomment | ⟨comment, rest, rfl, hcomment, hrest⟩
    · exact .unclosed hcomment
    · exact .line hcomment hrest
  | case4 c t _ _ ih =>
    rw [Bool.and_eq_true] at h
    exact .blank h.1 (ih h.2)
  | case5 => exact .inl List.not_mem_nil
  | case6 c t ih =>
    by_cases hc : c = '\n'
    · subst hc
      rw [if_pos rfl] at ih h
      exact .inr ⟨[], t, rfl, List.not_mem_nil, ih h⟩
    · rw [if_neg hc] at ih h
      have hne := Ne.symm hc
      rcases ih h with hcomment | ⟨comment, rest, rfl, hcomment, hrest⟩
      · exact .inl (by simp [hne, hcomment])
      · exact .inr ⟨c :: comment, rest, rfl, by simp [hne, hcomment], hrest⟩
  | case7 => cases h
  | case8 t ih => exact ⟨[], t, rfl, by decide, ih h⟩
  | case9 c t hend ih =>
    obtain ⟨comment, rest, rfl, hcomment, hrest⟩ := ih h
    refine ⟨c :: comment, rest, rfl, ?_, hrest⟩
    rw [List.infix_cons_iff, not_or]
    refine ⟨?_, hcomment⟩
    rintro ⟨more, heq⟩
    obtain ⟨rfl, rfl⟩ := List.cons.inj heq
    exact hend _ rfl rfl

/-- The texts that may stand behind an expression. -/
theorem isTrivia_iff (t : Text) : isTrivia .blank t = true ↔ Trivia t :=
  ⟨triviaFrom_of_isTrivia, Trivia.isTrivia_eq⟩

theorem eq_cons_of_append_blank {t u : Text} {c : Char} (hc : c ≠ ' ')
    (h : t ++ [' '] = c :: u) : ∃ t', t = c :: t' := by
  cases t with
  | nil =>
    cases h
    exact absurd rfl hc
  | cons d t =>
    cases h
    exact ⟨t, rfl⟩

/-- One more blank does not matter. -/
theorem isTrivia_append_blank (gap : Gap) (t : Text) :
    isTrivia gap (t ++ [' ']) = isTrivia gap t := by
  fun_induction isTrivia gap t with
  | case1 | case5 | case7 => rfl
  | case2 | case3 | case8 =>
    rename_i ih
    rw [List.cons_append, List.cons_append, isTrivia]
    exact ih
  | case6 c t ih =>
    rw [List.cons_append, isTrivia]
    exact ih
  | case4 c t hblock hline ih =>
    -- The blank does not make a slash at the end the start of a comment.
    rw [List.cons_append, isTrivia, ih]
    · intro u hc hstar
      obtain ⟨t', rfl⟩ := eq_cons_of_append_blank (by decide) hstar
      exact hblock t' hc rfl
    · intro u hc hslash
      obtain ⟨t', rfl⟩ := eq_cons_of_append_blank (by decide) hslash
      exact hline t' hc rfl
  | case9 c t hend ih =>
    rw [List.cons_append, isTrivia, ih]
    intro u hc hslash
    obtain ⟨t', rfl⟩ := eq_cons_of_append_blank (by decide) hslash
    exact hend t' hc rfl

end TemplateCompiler
