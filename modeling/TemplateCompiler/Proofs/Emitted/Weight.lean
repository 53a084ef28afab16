import TemplateCompiler.Proofs.Emitted.Atoms

/-!
# The length of what atoms are read from

Every atom takes a number of symbols to write: a backquote, a backslash or a carriage return of a
template literal takes an escape, and so does a brace after a dollar sign. Code that is read as some
atoms has at least the symbols that they take. The code of a node has fewer than its atoms take if a
name or text was put into it that does not stand for itself, so it is not read as them.

## What this module delivers

* `weight`: the number of symbols that atoms take.
* `lexFrom_weight`: code has at least the symbols that its atoms take.
* `nodeFaults`, `nodeCode_lacks`: how many symbols the code of a node is short of.
-/

set_option autoImplicit false

namespace TemplateCompiler.Emitted

open Script

/-! ## Weights -/

/-- The number of symbols that an atom takes. -/
def atomWeight : Atom → Nat
  | .holeOpen => 2
  | .cooked c => if isSpecial c then 2 else 1
  | .quoted c => (quoteChar c).length
  | _ => 1

/-- What a brace after a dollar sign takes in a template literal, because the two would open a hole. -/
def seam (a : Atom) (rest : List Atom) : Nat :=
  if a = .cooked '$' ∧ rest.head? = some (.cooked '\x7b') then 1 else 0

/-- The number of symbols that some atoms take. -/
def weight : List Atom → Nat
  | [] => 0
  | a :: rest => atomWeight a + seam a rest + weight rest

theorem seam_le_append (a : Atom) (x y : List Atom) : seam a x ≤ seam a (x ++ y) := by
  cases x with
  | nil => simp [seam]
  | cons b x => simp [seam]

theorem weight_append (x y : List Atom) : weight x + weight y ≤ weight (x ++ y) := by
  induction x with
  | nil => simp [weight]
  | cons a x ih =>
    have hseam := seam_le_append a x y
    rw [List.cons_append, weight, weight]
    omega

/-! ## Steps -/

theorem readHex_length {n : Nat} {t digits rest : Text} (h : readHex n t = some (digits, rest)) :
    rest.length ≤ t.length := by
  fun_induction readHex n t generalizing digits with
  | case1 t => cases h; exact Nat.le_refl _
  | case2 => cases h
  | case3 n c t hc ih =>
    obtain ⟨⟨digits', rest'⟩, hread, hp⟩ := Option.map_eq_some_iff.1 h
    cases hp
    have hle := ih hread
    rw [List.length_cons]
    omega
  | case4 => cases h

theorem readUnicodeEscape_length {t value rest : Text} {legacy : Bool}
    (h : readUnicodeEscape t = .chars value legacy rest) : rest.length ≤ t.length := by
  unfold readUnicodeEscape at h
  split at h
  · rename_i u
    have hdrop : (u.dropWhile (isDigitOf 16)).length ≤ u.length :=
      (List.dropWhile_suffix _).length_le
    dsimp only at h
    split at h
    · cases h
    · rename_i hrest _
      rw [hrest, List.length_cons] at hdrop
      rw [List.length_cons]
      split at h
      · cases h
        omega
      · split at h
        · cases h
          omega
        · cases h
    · cases h
  · split at h
    · cases h
    · rename_i hhex
      have hle := readHex_length hhex
      split at h
      · cases h
        exact hle
      · cases h
        exact hle

/-- An escape has a character at least. -/
theorem readEscape_length {inTemplate legacy : Bool} {t value rest : Text}
    (h : readEscape inTemplate t = .chars value legacy rest) : rest.length < t.length := by
  unfold readEscape at h
  split at h
  · cases h
  all_goals try (cases h; simp only [List.length_cons]; omega)
  · split at h
    · rename_i hhex
      have hle := readHex_length hhex
      cases h
      rw [List.length_cons]
      omega
    · cases h
  · have hle := readUnicodeEscape_length h
    rw [List.length_cons]
    omega
  · split at h
    · cases h
      simp
    · split at h
      · unfold readOctalEscape at h
        dsimp only at h
        split at h
        · cases h
          simp
        · split at h
          · cases h
          · cases h
            rw [List.length_drop, List.length_cons]
            omega
      · cases h
        simp

theorem leading_length (symbols : List Symbol) : (leading symbols).length ≤ symbols.length := by
  fun_induction leading symbols with
  | case1 c rest ih =>
    rw [List.length_cons, List.length_cons]
    omega
  | case2 => exact Nat.zero_le _

/-- What the atom of a step takes, apart from the seam to the atom after it: it is read from as many
symbols as it takes. A brace that is read from anything but a brace comes from an escape, and a dollar
sign that is not escaped stands before no brace. -/
structure StepCosts (s : Symbol) (rest : List Symbol) (r : Step) : Prop where
  skip_le : r.skip ≤ rest.length
  atoms : (r.atoms = [] ∧ 0 < r.skip) ∨ ∃ a, r.atoms = [a] ∧ atomWeight a ≤ r.skip + 1 ∧
    (a = .cooked '\x7b' → s = .char '\x7b' ∨ 0 < r.skip) ∧
    (a = .cooked '$' → rest.head? ≠ some (.char '\x7b') ∨ 0 < r.skip)

theorem atomWeight_le (a : Atom) : atomWeight a ≤ 2 := by
  cases a with
  | cooked c =>
    rw [atomWeight]
    split
    all_goals omega
  | quoted c =>
    rw [atomWeight, quoteChar]
    split
    · decide
    · split
      · decide
      · split
        · decide
        · split
          · decide
          · exact Nat.le_succ 1
  | holeOpen => exact Nat.le_refl 2
  | code | source | quoteOpen | quoteClose | literalOpen | literalClose | holeClose | unpaired =>
    exact Nat.le_succ 1

theorem escapeStep_costs {inTemplate : Bool} {mk : Char → Atom} {stack : List Frame} {s : Symbol}
    {rest : List Symbol} {r : Step} (h : escapeStep inTemplate mk stack rest = some r) :
    StepCosts s rest r := by
  unfold escapeStep at h
  split at h
  · cases h
  · rename_i value legacy after hescape
    have hafter := readEscape_length hescape
    have hleading := leading_length rest
    cases h
    have hskip : 0 < (leading rest).length - after.length := by omega
    refine ⟨?_, ?_⟩
    · dsimp only
      omega
    · dsimp only
      split
      · exact .inl ⟨rfl, hskip⟩
      · rename_i c
        have hw := atomWeight_le (mk c)
        exact .inr ⟨mk c, rfl, by omega, fun _ => .inr hskip, fun _ => .inr hskip⟩
      · exact .inr ⟨.unpaired, rfl, by simp [atomWeight], fun _ => .inr hskip,
          fun _ => .inr hskip⟩

theorem StepCosts.single {s : Symbol} {rest : List Symbol} {a : Atom} {stack : List Frame}
    (hweight : atomWeight a = 1) (hbrace : a = .cooked '\x7b' → s = .char '\x7b')
    (hdollar : a = .cooked '$' → rest.head? ≠ some (.char '\x7b')) :
    StepCosts s rest ⟨[a], stack, 0⟩ :=
  ⟨Nat.zero_le _, .inr ⟨a, rfl, Nat.le_of_eq hweight, fun h => .inl (hbrace h),
    fun h => .inl (hdollar h)⟩⟩

theorem codeStep_costs {depth : Nat} {below : List Frame} {c : Char} {rest : List Symbol} {r : Step}
    (h : codeStep depth below c = some r) : StepCosts (.char c) rest r := by
  unfold codeStep at h
  split at h
  · cases h
    exact .single rfl nofun nofun
  · split at h
    · cases h
      exact .single rfl nofun nofun
    · split at h
      · cases h
        exact .single rfl nofun nofun
      · split at h
        · split at h
          · cases h
            exact .single rfl nofun nofun
          · cases h
            exact .single rfl nofun nofun
          · cases h
        · split at h
          · cases h
          · cases h
            exact .single rfl nofun nofun

theorem stringStep_costs {below : List Frame} {c : Char} {rest : List Symbol} {r : Step}
    (h : stringStep below c rest = some r) : StepCosts (.char c) rest r := by
  unfold stringStep at h
  split at h
  · cases h
    exact .single rfl nofun nofun
  · split at h
    · exact escapeStep_costs h
    · split at h
      · cases h
      · rename_i hquote hbackslash hline
        cases h
        simp only [Bool.or_eq_true, decide_eq_true_eq, not_or] at hline
        refine .single ?_ nofun nofun
        simp [atomWeight, quoteChar, hquote, hbackslash, hline]

theorem literalStep_costs {below : List Frame} {c : Char} {rest : List Symbol} {r : Step}
    (h : literalStep below c rest = some r) : StepCosts (.char c) rest r := by
  unfold literalStep at h
  split at h
  · cases h
    exact .single rfl nofun nofun
  · split at h
    · rename_i hhole
      simp only [Bool.and_eq_true, decide_eq_true_eq] at hhole
      cases h
      cases rest with
      | nil => cases hhole.2
      | cons s rest =>
        exact ⟨Nat.le_add_left 1 _, .inr ⟨_, rfl, Nat.le_refl 2, nofun, nofun⟩⟩
    · split at h
      · exact escapeStep_costs h
      · split at h
        · cases h
          refine ⟨?_, .inr ⟨_, rfl, Nat.le_add_left 1 _, nofun, nofun⟩⟩
          cases rest with
          | nil => exact Nat.le_refl 0
          | cons s rest =>
            dsimp only
            split
            all_goals simp
        · rename_i hquote hhole hbackslash hline
          cases h
          refine .single ?_ ?_ ?_
          · simp [atomWeight, isSpecial, hquote, hbackslash, hline]
          · intro ha
            cases ha
            rfl
          · intro ha hnext
            cases ha
            exact hhole (by simp [hnext])

theorem step_costs {stack : List Frame} {s : Symbol} {rest : List Symbol} {r : Step}
    (h : step stack s rest = some r) : StepCosts s rest r := by
  unfold step at h
  split at h
  · cases h
    exact .single rfl nofun nofun
  · exact codeStep_costs h
  · exact stringStep_costs h
  · exact literalStep_costs h
  · cases h

/-! ## Runs -/

theorem lexFrom_skip (stack : List Frame) (skip : Nat) (symbols : List Symbol) :
    lexFrom stack skip symbols = lexFrom stack 0 (symbols.drop skip) := by
  induction skip generalizing symbols with
  | zero => rfl
  | succ skip ih =>
    cases symbols with
    | nil => rw [lexFrom, List.drop_nil, lexFrom]
    | cons s symbols => rw [lexFrom, ih, List.drop_succ_cons]

/-- Code has at least the symbols that its atoms take, and one more where a brace comes first that is
read from an escape. -/
theorem lexFrom_weight_of_length {n : Nat} {stack : List Frame} {symbols : List Symbol}
    {atoms : List Atom} (hn : symbols.length ≤ n) (h : lexFrom stack 0 symbols = some atoms) :
    weight atoms ≤ symbols.length ∧ (atoms.head? = some (.cooked '\x7b') →
      symbols.head? ≠ some (.char '\x7b') → weight atoms < symbols.length) := by
  induction n generalizing stack symbols atoms with
  | zero =>
    have hnil : symbols = [] := List.length_eq_zero_iff.1 (Nat.le_zero.1 hn)
    subst hnil
    rw [lexFrom] at h
    split at h
    · cases h
      exact ⟨Nat.le_refl 0, fun hfirst => by cases hfirst⟩
    · cases h
  | succ n ih =>
    cases symbols with
    | nil =>
      rw [lexFrom] at h
      split at h
      · cases h
        exact ⟨Nat.le_refl 0, fun hfirst => by cases hfirst⟩
      · cases h
    | cons s rest =>
      rw [lexFrom] at h
      split at h
      · cases h
      · rename_i r hstep
        obtain ⟨more, hmore, rfl⟩ := Option.map_eq_some_iff.1 h
        obtain ⟨hskip, hatoms⟩ := step_costs hstep
        rw [lexFrom_skip] at hmore
        have hdrop : (rest.drop r.skip).length = rest.length - r.skip := List.length_drop
        have hlength : (rest.drop r.skip).length ≤ n := by
          rw [List.length_cons] at hn
          omega
        obtain ⟨hweight, hbrace⟩ := ih hlength hmore
        rw [hdrop] at hweight hbrace
        rw [List.length_cons]
        rcases hatoms with ⟨hnil, hpos⟩ | ⟨a, ha, hcost, hopen, hdollar⟩
        · rw [hnil, List.nil_append]
          refine ⟨by omega, fun _ _ => by omega⟩
        · rw [ha, List.singleton_append, weight]
          refine ⟨?_, fun hfirst hs => ?_⟩
          · rw [seam]
            split
            · rename_i hseam
              obtain ⟨rfl, hnext⟩ := hseam
              have hone : atomWeight (.cooked '$') = 1 := rfl
              -- a brace that follows the dollar sign is escaped, or the dollar sign is
              rcases hdollar rfl with hhead | hpos
              · rcases Nat.eq_zero_or_pos r.skip with hzero | hpos
                · rw [hzero] at hbrace
                  have hlt := hbrace hnext hhead
                  omega
                · omega
              · omega
            · omega
          · have ha' : a = .cooked '\x7b' := Option.some.inj hfirst
            subst ha'
            have hone : atomWeight (.cooked '\x7b') = 1 := rfl
            have hnone : seam (.cooked '\x7b') more = 0 := if_neg fun h => absurd h.1 (by decide)
            rcases hopen rfl with rfl | hpos
            · exact absurd rfl hs
            · omega

theorem lexFrom_weight {stack : List Frame} {symbols : List Symbol} {atoms : List Atom}
    (h : lexFrom stack 0 symbols = some atoms) : weight atoms ≤ symbols.length :=
  (lexFrom_weight_of_length (Nat.le_refl _) h).1

/-! ## Faults -/

/-- How many of some attributes have a name that does not stand for itself. -/
def nameFaults (attrs : List Attribute) : Nat :=
  attrs.countP fun a => !isVerbatim a.name

/-- How many carriage returns there are in some texts. -/
def textFaults (texts : List Text) : Nat :=
  texts.flatten.count '\r'

@[simp] theorem nameFaults_append (a b : List Attribute) :
    nameFaults (a ++ b) = nameFaults a + nameFaults b :=
  List.countP_append

theorem textFaults_cons (data : Text) (texts : List Text) :
    textFaults (data :: texts) = data.count '\r' + textFaults texts := by
  rw [textFaults, List.flatten_cons, List.count_append, textFaults]

@[simp] theorem textFaults_append (a b : List Text) :
    textFaults (a ++ b) = textFaults a + textFaults b := by
  simp [textFaults]

theorem nameFaults_eq_zero_iff {attrs : List Attribute} :
    nameFaults attrs = 0 ↔ ∀ a ∈ attrs, isVerbatim a.name = true := by
  simp [nameFaults, List.countP_eq_zero]

theorem textFaults_eq_zero_iff {texts : List Text} :
    textFaults texts = 0 ↔ ∀ data ∈ texts, '\r' ∉ data := by
  rw [textFaults, List.count_eq_zero, List.mem_flatten]
  exact ⟨fun h data hdata hc => h ⟨data, hdata, hc⟩, fun h ⟨data, hdata, hc⟩ => h data hdata hc⟩

/-- Some symbols are fewer by `n` at least than what some atoms take. -/
def Lacks (n : Nat) (symbols : List Symbol) (atoms : List Atom) : Prop :=
  symbols.length + n ≤ weight atoms

namespace Lacks

variable {m n : Nat} {a b : List Symbol} {x y : List Atom}

theorem nil : Lacks 0 [] [] :=
  Nat.le_refl 0

theorem mono (h : Lacks m a x) (hle : n ≤ m) : Lacks n a x :=
  Nat.le_trans (Nat.add_le_add_left hle _) h

theorem append (h : Lacks m a x) (h' : Lacks n b y) : Lacks (m + n) (a ++ b) (x ++ y) := by
  have hweight := weight_append x y
  unfold Lacks at *
  rw [List.length_append]
  omega

end Lacks

/-! ## Texts -/

theorem lacks_source (range : Span) : Lacks 0 [.slice range] [.source range] :=
  Nat.le_refl 1

theorem lacks_code (t : Text) : Lacks 0 (chars t) (coded t) := by
  induction t with
  | nil => exact .nil
  | cons c t ih =>
    have hc : Lacks 0 [.char c] [.code c] := Nat.le_refl 1
    exact hc.append ih

theorem lacks_quoteString (t : Text) : Lacks 0 (chars (quoteString t)) (stringAtoms t) := by
  have hinner : Lacks 0 (chars (t.flatMap quoteChar)) (t.map .quoted) := by
    induction t with
    | nil => exact .nil
    | cons c t ih =>
      have hc : Lacks 0 (chars (quoteChar c)) [.quoted c] := by
        simp [Lacks, weight, atomWeight, chars]
      rw [List.flatMap_cons, chars_append]
      exact hc.append ih
  have hquote : Lacks 0 [.char '\''] [.quoteOpen] := Nat.le_refl 1
  have hquote' : Lacks 0 [.char '\''] [.quoteClose] := Nat.le_refl 1
  rw [quoteString, chars_append, chars_cons]
  exact (hquote.append hinner).append hquote'

theorem seam_cooked (c : Char) (t : Text) :
    seam (.cooked c) (cooked t) = if c = '$' ∧ t.head? = some '\x7b' then 1 else 0 := by
  simp [seam, List.head?_map]

/-- A text that is put into a literal as it is. -/
theorem lacks_verbatim (t : Text) : Lacks (if isVerbatim t then 0 else 1) (chars t) (cooked t) := by
  induction t with
  | nil => exact .nil
  | cons c t ih =>
    have hih : (chars t).length + (if isVerbatim t then 0 else 1) ≤ weight (cooked t) := ih
    have hone : (if isVerbatim (c :: t) then 0 else 1) ≤ 1 := by
      split
      all_goals omega
    have hcons : cooked (c :: t) = .cooked c :: cooked t := rfl
    rw [Lacks, hcons, weight, seam_cooked, atomWeight, chars_cons, List.length_cons]
    by_cases hspecial : isSpecial c = true
    · rw [if_pos hspecial]
      omega
    · by_cases hseam : c = '$' ∧ t.head? = some '\x7b'
      · rw [if_pos hseam]
        split
        all_goals omega
      · have hsame : isVerbatim (c :: t) = isVerbatim t := by
          rw [Bool.eq_iff_iff, isVerbatim_cons_iff]
          have hplain : isSpecial c = false := by simpa using hspecial
          exact ⟨fun h => h.2.2, fun h => ⟨hplain, fun hc ht => hseam ⟨hc, ht⟩, h⟩⟩
        rw [hsame, if_neg hspecial]
        omega

/-- A text that is escaped for a literal: only its carriage returns are not. -/
theorem lacks_escapeLiteral (t : Text) :
    Lacks (t.count '\r') (chars (escapeLiteral t)) (cooked t) := by
  fun_induction escapeLiteral t with
  | case1 => exact .nil
  | case2 t ih =>
    have hc : Lacks 0 (chars ['\\', '\\']) (cooked ['\\']) := Nat.le_refl 2
    have hall := hc.append ih
    simpa using hall
  | case3 t ih =>
    have hc : Lacks 0 (chars ['\\', '\x60']) (cooked ['\x60']) := Nat.le_refl 2
    have hall := hc.append ih
    simpa using hall
  | case4 t ih =>
    have hc : Lacks 0 (chars ['\\', '$', '\x7b']) (cooked ['$', '\x7b']) := Nat.le_refl 3
    have hall := hc.append ih
    simpa using hall
  | case5 c t _ _ _ ih =>
    have hc : Lacks ([c].count '\r') (chars [c]) (cooked [c]) := by
      by_cases hcr : c = '\r'
      · subst hcr
        exact Nat.le_refl 2
      · have hcount : [c].count '\r' = 0 := by simp [hcr]
        rw [hcount]
        have hw : weight (cooked [c]) = atomWeight (.cooked c) := by simp [weight, seam]
        rw [Lacks, hw, atomWeight]
        split
        · exact Nat.le_succ 1
        · exact Nat.le_refl 1
    have hall := hc.append ih
    rw [← List.count_append] at hall
    exact hall

theorem count_referenced (t : Text) : (referenced t).count '\r' = t.count '\r' := by
  induction t with
  | nil => rfl
  | cons c t ih =>
    by_cases hc : c = '"'
    · subst hc
      have hcons : referenced ('"' :: t) = quoteReference ++ referenced t := rfl
      rw [hcons, List.count_append, ih]
      simp [quoteReference]
    · rw [referenced_cons t hc, List.count_cons, List.count_cons, ih]

theorem lacks_escapeAttribute (t : Text) :
    Lacks (t.count '\r') (chars (escapeAttribute t)) (cooked (referenced t)) := by
  rw [escapeAttribute_eq, ← count_referenced]
  exact lacks_escapeLiteral (referenced t)

/-! ## Parts of the code -/

theorem lacks_paren {n : Nat} {a : List Symbol} {x : List Atom} (h : Lacks n a x) :
    Lacks n (chars "(".toList ++ a ++ chars ")".toList) (parenAtoms x) := by
  have hopen : Lacks 0 (chars "(".toList) [.code '('] := Nat.le_refl 1
  have hclose : Lacks 0 (chars ")".toList) [.code ')'] := Nat.le_refl 1
  simpa [parenAtoms] using (hopen.append h).append hclose

theorem lacks_hole {n : Nat} {fragments : List Fragment} {x : List Atom}
    (h : Lacks n (symbolsOf fragments) x) : Lacks n (symbolsOf (hole fragments)) (holeAtoms x) := by
  have hopen : Lacks 0 (chars "$\x7b".toList) [.holeOpen] := Nat.le_refl 2
  have hclose : Lacks 0 (chars "\x7d".toList) [.holeClose] := Nat.le_refl 1
  rw [symbolsOf_hole]
  simpa [holeAtoms] using (hopen.append h).append hclose

theorem lacks_templateLiteral {n : Nat} {fragments : List Fragment} {x : List Atom}
    (h : Lacks n (symbolsOf fragments) x) :
    Lacks n (symbolsOf (templateLiteral fragments)) (literalAtoms x) := by
  have hopen : Lacks 0 (chars "\x60".toList) [.literalOpen] := Nat.le_refl 1
  have hclose : Lacks 0 (chars "\x60".toList) [.literalClose] := Nat.le_refl 1
  rw [symbolsOf_templateLiteral]
  simpa [literalAtoms] using (hopen.append h).append hclose

theorem lacks_exprCode (e : Expr) : Lacks 0 (symbolsOf (exprCode e)) (exprAtoms e) := by
  unfold exprCode exprAtoms
  split
  · exact lacks_paren (lacks_source e.span)
  · exact lacks_source e.span

theorem lacks_iterableCode (e : Expr) : Lacks 0 (symbolsOf (iterableCode e)) (iterableAtoms e) := by
  unfold iterableCode iterableAtoms
  split
  · exact lacks_source e.span
  · exact lacks_paren (lacks_source e.span)

theorem lacks_parts {escape value : Text → Text} (parts : List AttributePart)
    (hescape : ∀ data, Lacks (data.count '\r') (chars (escape data)) (cooked (value data))) :
    Lacks (textFaults (partTexts parts)) (symbolsOf (parts.flatMap (partCode escape)))
      (parts.flatMap (partAtoms value)) := by
  induction parts with
  | nil => exact .nil
  | cons part parts ih =>
    rw [List.flatMap_cons, List.flatMap_cons, symbolsOf_append]
    cases part with
    | text data =>
      have hcode : symbolsOf (partCode escape (.text data)) = chars (escape data) :=
        List.append_nil _
      have htexts : partTexts (.text data :: parts) = data :: partTexts parts := rfl
      rw [hcode, htexts, textFaults_cons]
      exact (hescape data).append ih
    | expr e =>
      have hhole := (lacks_hole (lacks_exprCode e)).append ih
      rw [Nat.zero_add] at hhole
      exact hhole

theorem lacks_attributeCode (a : Attribute) :
    Lacks ((if isVerbatim a.name then 0 else 1) + textFaults (attributeTexts a))
      (symbolsOf (attributeCode a)) (attributeAtoms a) := by
  have hblank : Lacks 0 (chars " ".toList) (cooked " ".toList) := Nat.le_refl 1
  have hname := hblank.append (lacks_verbatim a.name)
  rw [Nat.zero_add] at hname
  cases hvalue : a.value with
  | none =>
    simpa [attributeCode, attributeAtoms, attributeTexts, partTexts, textFaults, hvalue] using hname
  | some parts =>
    have hopen : Lacks 0 (chars "=\"".toList) (cooked "=\"".toList) := Nat.le_refl 2
    have hclose : Lacks 0 (chars "\"".toList) [.cooked '"'] := Nat.le_refl 1
    have hparts := lacks_parts parts lacks_escapeAttribute
    have hall := ((hname.append hopen).append hparts).append hclose
    rw [symbolsOf_attributeCode hvalue]
    simp only [attributeAtoms, attributeTexts, hvalue, Option.getD_some]
    simpa using hall

theorem lacks_tagCode (name : Text) (attrs : List Attribute) :
    Lacks (nameFaults attrs + textFaults (attrs.flatMap attributeTexts))
      (symbolsOf (tagCode name attrs)) (tagAtoms name attrs) := by
  have hname : Lacks 0 (chars ('<' :: name)) (cooked ('<' :: name)) :=
    (lacks_verbatim ('<' :: name)).mono (Nat.zero_le _)
  have hattrs : Lacks (nameFaults attrs + textFaults (attrs.flatMap attributeTexts))
      (symbolsOf (attrs.flatMap attributeCode)) (attrs.flatMap attributeAtoms) := by
    induction attrs with
    | nil => exact .nil
    | cons a attrs ih =>
      have hall := (lacks_attributeCode a).append ih
      rw [List.flatMap_cons, List.flatMap_cons, List.flatMap_cons, symbolsOf_append,
        textFaults_append]
      have hcount : nameFaults (a :: attrs) = (if isVerbatim a.name then 0 else 1) + nameFaults attrs := by
        rw [nameFaults, nameFaults, List.countP_cons]
        cases isVerbatim a.name
        all_goals simp [Nat.add_comm]
      rw [hcount]
      exact hall.mono (by omega)
  rw [symbolsOf_tagCode]
  exact (hname.append hattrs).mono (by omega)

/-! ## Components -/

theorem lacks_key (name : Text) : Lacks 0 (chars (propertyKeyText name)) (keyAtoms name) := by
  unfold propertyKeyText keyAtoms
  split
  · exact lacks_code name
  · exact lacks_quoteString name

theorem lacks_access (name : Text) : Lacks 0 (chars (propertyAccess name)) (accessAtoms name) := by
  unfold propertyAccess accessAtoms
  split
  · exact lacks_code ('.' :: name)
  · have hopen : Lacks 0 (chars "[".toList) [.code '['] := Nat.le_refl 1
    have hclose : Lacks 0 (chars "]".toList) [.code ']'] := Nat.le_refl 1
    rw [chars_append, chars_append]
    exact (hopen.append (lacks_quoteString name)).append hclose

theorem lacks_propValueCode (value : Option (List AttributePart)) :
    Lacks (textFaults (partTexts (value.getD []))) (symbolsOf (propValueCode value))
      (propValueAtoms value) := by
  have hliteral : ∀ parts, Lacks (textFaults (partTexts parts))
      (symbolsOf (templateLiteral (parts.flatMap (partCode escapeLiteral))))
      (literalAtoms (parts.flatMap (partAtoms id))) :=
    fun parts => lacks_templateLiteral (lacks_parts parts lacks_escapeLiteral)
  unfold propValueCode
  split
  · exact lacks_code "true".toList
  · exact lacks_exprCode _
  · rename_i parts hne
    have hatoms : propValueAtoms (some parts) = literalAtoms (parts.flatMap (partAtoms id)) := by
      unfold propValueAtoms
      split
      · rename_i h
        cases h
      · rename_i e h
        cases h
        exact absurd rfl (hne e)
      · rename_i h
        cases h
        rfl
    rw [hatoms]
    exact hliteral parts

theorem lacks_propsCode (separator : Text) (attrs : List Attribute) :
    Lacks (textFaults (attrs.flatMap attributeTexts)) (symbolsOf (propsCode separator attrs))
      (propsAtoms separator attrs) := by
  induction attrs generalizing separator with
  | nil => exact .nil
  | cons a attrs ih =>
    have hkey := ((lacks_code separator).append (lacks_key a.name)).append (lacks_code ": ".toList)
    have hall := (hkey.append (lacks_propValueCode a.value)).append (ih ", ".toList)
    rw [List.flatMap_cons, textFaults_append]
    rw [symbolsOf_propsCode]
    exact hall.mono (by rw [attributeTexts]; omega)

theorem lacks_componentCode (name : Text) (attrs : List Attribute) :
    Lacks (textFaults (attrs.flatMap attributeTexts)) (symbolsOf (componentCode name attrs))
      (componentAtoms name attrs) := by
  have hobject : Lacks (textFaults (attrs.flatMap attributeTexts)) (symbolsOf (propsObject attrs))
      (propsObjectAtoms attrs) := by
    unfold propsObject propsObjectAtoms
    split
    · rename_i hempty
      rw [List.isEmpty_iff.1 hempty]
      exact lacks_code "\x7b\x7d".toList
    · have hall := ((lacks_code "\x7b".toList).append (lacks_propsCode " ".toList attrs)).append
        (lacks_code " \x7d".toList)
      simpa using hall
  have hall := ((((lacks_code "template.components".toList).append (lacks_access name)).append
    (lacks_code ".render( ".toList)).append hobject).append (lacks_code " )".toList)
  rw [symbolsOf_componentCode]
  exact hall.mono (by omega)

/-! ## Nodes -/

/-- How many symbols the code of a node is short of. -/
def nodeFaults (config : Config) (n : Node) : Nat :=
  nameFaults (nodeAttributes config n) + textFaults (nodeTexts n)

/-- How many symbols the code of some nodes is short of. -/
def nodesFaults (config : Config) (nodes : List Node) : Nat :=
  nameFaults (writtenAttributes config nodes) + textFaults (nodesTexts nodes)

/-- How many symbols the code of an alternative is short of. -/
def alternativeFaults (config : Config) (alternative : Option (List Node)) : Nat :=
  nameFaults (alternativeAttributes config alternative) + textFaults (alternativeTexts alternative)

theorem nodesFaults_cons (config : Config) (n : Node) (rest : List Node) :
    nodesFaults config (n :: rest) = nodeFaults config n + nodesFaults config rest := by
  simp only [nodesFaults, nodeFaults, writtenAttributes, nodesTexts, nameFaults_append,
    textFaults_append]
  omega

/-- Code that is short of what a shape takes. -/
def CodeLacks (n : Nat) : Code → Shape → Prop
  | .expression fragments, .expression atoms => Lacks n (symbolsOf fragments) atoms
  | .literal fragments, .literal atoms => Lacks n (symbolsOf fragments) atoms
  | _, _ => False

theorem CodeLacks.inLiteral {n : Nat} {code : Code} {shape : Shape} (h : CodeLacks n code shape) :
    Lacks n (symbolsOf code.inLiteral) shape.inLiteral := by
  cases code with
  | expression fragments =>
    cases shape with
    | expression atoms => exact lacks_hole h
    | literal atoms => exact absurd h id
  | literal fragments =>
    cases shape with
    | expression atoms => exact absurd h id
    | literal atoms => exact h

theorem CodeLacks.asExpression {n : Nat} {code : Code} {shape : Shape}
    (h : CodeLacks n code shape) : Lacks n (symbolsOf code.asExpression) shape.asExpression := by
  cases code with
  | expression fragments =>
    cases shape with
    | expression atoms => exact h
    | literal atoms => exact absurd h id
  | literal fragments =>
    cases shape with
    | expression atoms => exact absurd h id
    | literal atoms => exact lacks_templateLiteral h

mutual

/-- The code of a node is short of what its atoms take by its faults. -/
theorem nodeCode_lacks {config : Config} {code : Code} :
    (n : Node) → NodeFormed n → nodeCode config n = .ok code →
      CodeLacks (nodeFaults config n) code (nodeShape config n)
  | .element name attrs children span, hn, h => by
    obtain ⟨-, -, hchildren, -, hvoid⟩ := hn
    have htag := lacks_tagCode name attrs
    have hinner : ∀ fragments, nodesCode config children = .ok fragments →
        Lacks (nodesFaults config children) (symbolsOf fragments) (nodesAtoms config children) :=
      fun fragments hcode => nodesCode_lacks children hchildren hcode
    unfold nodeCode at h
    rw [nodeShape, nodeFaults, nodeAttributes, nodeTexts, nameFaults_append, textFaults_append]
    have hnone : nameFaults (writtenAttributes config []) = 0 := rfl
    have hempty : textFaults (nodesTexts []) = 0 := rfl
    have hmark : Lacks 0 (chars ">".toList) (cooked ">".toList) := Nat.le_refl 1
    split at h
    · rename_i hcomponent
      rw [if_pos hcomponent, if_pos hcomponent]
      split at h
      · cases h
        have hattrs : nameFaults [] = 0 := rfl
        exact (lacks_componentCode name attrs).mono (by omega)
      · cases h
    · rename_i hcomponent
      rw [if_neg hcomponent, if_neg hcomponent]
      split at h
      · rename_i hv
        have hchildren := hvoid hv
        subst hchildren
        rw [if_pos hv]
        cases h
        rw [CodeLacks, symbolsOf_append]
        exact (htag.append hmark).mono (by omega)
      · rename_i hv
        rw [if_neg hv]
        split at h
        · cases h
          have hslash : Lacks 0 (chars "/>".toList) (cooked "/>".toList) := Nat.le_refl 2
          rw [if_pos List.isEmpty_nil, CodeLacks, symbolsOf_append]
          exact (htag.append hslash).mono (by omega)
        · rename_i child more
          obtain ⟨first, hfirst, h⟩ := bind_eq_ok_iff.1 h
          obtain ⟨rest, hrest, h⟩ := bind_eq_ok_iff.1 h
          cases h
          have hcode : nodesCode config (child :: more) = .ok (first.inLiteral ++ rest) := by
            rw [nodesCode]
            exact bind_eq_ok_iff.2 ⟨first, hfirst, bind_eq_ok_iff.2 ⟨rest, hrest, rfl⟩⟩
          have hend := (lacks_verbatim ("</".toList ++ name ++ ">".toList)).mono (Nat.zero_le _)
          have hall := ((htag.append hmark).append (hinner _ hcode)).append hend
          rw [if_neg (by simp), CodeLacks, symbolsOf_element]
          refine hall.mono ?_
          rw [nodesFaults]
          omega
  | .text data span, hn, h => by
    rw [nodeCode] at h
    cases h
    have hcode : symbolsOf [.text (escapeLiteral data)] = chars (escapeLiteral data) :=
      List.append_nil _
    have hfaults : nodeFaults config (.text data span) = data.count '\r' := by
      simp [nodeFaults, nodeAttributes, nodeTexts, nameFaults, textFaults]
    rw [hfaults, nodeShape, CodeLacks, hcode]
    exact lacks_escapeLiteral data
  | .mustache e span, hn, h => by
    rw [nodeCode] at h
    cases h
    exact lacks_exprCode e
  | .ifBlock test children alternative span, hn, h => by
    rw [nodeCode] at h
    obtain ⟨yes, hyes, h⟩ := bind_eq_ok_iff.1 h
    obtain ⟨no, hno, h⟩ := bind_eq_ok_iff.1 h
    cases h
    have hthen := lacks_templateLiteral (nodesCode_lacks children hn.1 hyes)
    have helse := lacks_templateLiteral (alternativeCode_lacks alternative hn.2.2 hno)
    have hall := ((((lacks_paren (lacks_source test.span)).append (lacks_code " ? ".toList)).append
      hthen).append (lacks_code " : ".toList)).append helse
    rw [nodeShape, CodeLacks, symbolsOf_conditional]
    refine hall.mono ?_
    simp only [nodeFaults, nodesFaults, alternativeFaults, nodeAttributes, nodeTexts,
      nameFaults_append, textFaults_append]
    omega
  | .eachBlock iterable item index children span, hn, h => by
    rw [nodeCode] at h
    obtain ⟨body, hbody, h⟩ := bind_eq_ok_iff.1 h
    cases h
    have hliteral := lacks_templateLiteral (nodesCode_lacks children hn.2.2.1 hbody)
    have hall := (((((lacks_iterableCode iterable).append (lacks_code (".map( ".toList
      ++ itemParams item index ++ " => ".toList))).append hliteral).append
      (lacks_code " ).join( ".toList)).append (lacks_quoteString [])).append (lacks_code " )".toList)
    rw [nodeShape, CodeLacks, symbolsOf_loop]
    refine hall.mono ?_
    simp only [nodeFaults, nodesFaults, nodeAttributes, nodeTexts]
    omega

/-- The code of nodes in a literal is short of what their atoms take by their faults. -/
theorem nodesCode_lacks {config : Config} {fragments : List Fragment} :
    (nodes : List Node) → NodesFormed nodes → nodesCode config nodes = .ok fragments →
      Lacks (nodesFaults config nodes) (symbolsOf fragments) (nodesAtoms config nodes)
  | [], hn, h => by
    rw [nodesCode] at h
    cases h
    exact .nil
  | n :: rest, hn, h => by
    rw [nodesCode] at h
    obtain ⟨code, hcode, h⟩ := bind_eq_ok_iff.1 h
    obtain ⟨more, hmore, h⟩ := bind_eq_ok_iff.1 h
    cases h
    have hfirst := (nodeCode_lacks n hn.1 hcode).inLiteral
    have hrest := nodesCode_lacks rest hn.2 hmore
    rw [symbolsOf_append, nodesFaults_cons]
    exact hfirst.append hrest

/-- The code of an alternative is short of what its atoms take by its faults. -/
theorem alternativeCode_lacks {config : Config} {fragments : List Fragment} :
    (alternative : Option (List Node)) → AlternativeFormed alternative →
      alternativeCode config alternative = .ok fragments →
      Lacks (alternativeFaults config alternative) (symbolsOf fragments)
        (alternativeAtoms config alternative)
  | none, hn, h => by
    rw [alternativeCode] at h
    cases h
    exact .nil
  | some nodes, hn, h => nodesCode_lacks nodes hn.1 h

end

end TemplateCompiler.Emitted
