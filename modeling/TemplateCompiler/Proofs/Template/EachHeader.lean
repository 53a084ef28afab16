import TemplateCompiler.Proofs.Template.Invariants
import TemplateCompiler.Proofs.Template.Trailing

/-!
# Headers of each blocks

The header of an each block is cut around the word `as`, before anything is known of the expression
in it. The expression may have the word too, as a property, in a text or in a comment. So it is the
last word `as` between blanks that counts, and behind it only names follow: a further word of that
kind could only be one of the names.

## What this module delivers

* `CutAtAs`, `LastAs`, `splitAs?_eq_some_iff`: the word that a header is cut around.
* `NamesAt`, `NamedBy`: the names behind it.
* `eachHeader_accepts_iff`: the headers that are read, and what they are read as.
-/

set_option autoImplicit false

namespace TemplateCompiler

open Script Text

/-! ## The word in a header -/

/-- A text is cut around a word `as` with blanks on both sides. -/
structure CutAtAs (text before after : Text) : Prop where
  text_eq : text = before ++ ("as".toList ++ after)
  blank_before : ∃ b ∈ before.getLast?, isBlank b = true
  blank_after : ∃ b ∈ after.head?, isBlank b = true

/-- A text is cut around the last such word. -/
structure LastAs (text before after : Text) : Prop extends CutAtAs text before after where
  last : ∀ before' after', CutAtAs text before' after' → before'.length ≤ before.length

section Cuts

variable {c : Char} {t before after : Text}

theorem not_cutAtAs_nil : ¬ CutAtAs [] before after := by
  intro h
  have hlength := congrArg List.length h.text_eq
  simp at hlength

/-- The word stands right behind the first character, or further behind. -/
theorem cutAtAs_cons_iff :
    CutAtAs (c :: t) before after ↔
      (∃ before', before = c :: before' ∧ CutAtAs t before' after) ∨
        (before = [c] ∧ isBlank c = true ∧ t = 'a' :: 's' :: after ∧
          ∃ b ∈ after.head?, isBlank b = true) := by
  constructor
  · rintro ⟨htext, ⟨b, hlast, hb⟩, hafter⟩
    cases before with
    | nil => cases hlast
    | cons d before' =>
      obtain ⟨rfl, ht⟩ := List.cons.inj htext
      cases before' with
      | nil =>
        cases hlast
        exact .inr ⟨rfl, hb, ht, hafter⟩
      | cons x before' => exact .inl ⟨x :: before', rfl, ht, ⟨b, by simpa using hlast, hb⟩, hafter⟩
  · rintro (⟨before', rfl, ht, ⟨b, hlast, hb⟩, hafter⟩ | ⟨rfl, hc, rfl, hafter⟩)
    · refine ⟨by rw [ht, List.cons_append], ⟨b, ?_, hb⟩, hafter⟩
      cases before' with
      | nil => cases hlast
      | cons x before' => simpa using hlast
    · exact ⟨rfl, ⟨c, rfl, hc⟩, hafter⟩

/-- The search finds a word if there is one. -/
theorem CutAtAs.exists_splitAs? (h : CutAtAs t before after) : ∃ r, splitAs? t = some r := by
  induction t generalizing before with
  | nil => exact (not_cutAtAs_nil h).elim
  | cons c t ih =>
    unfold splitAs?
    cases hsplit : splitAs? t with
    | some r => exact ⟨_, rfl⟩
    | none =>
      rcases cutAtAs_cons_iff.1 h with ⟨before', -, hcut⟩ | ⟨-, hc, rfl, b, hhead, hb⟩
      · obtain ⟨r, hr⟩ := ih hcut
        cases hsplit.symm.trans hr
      · obtain ⟨rest, rfl⟩ := List.head?_eq_some_iff.1 hhead
        exact ⟨([c], b :: rest), by simp [hc, hb]⟩

/-- What the search finds is the last one. -/
theorem lastAs_of_splitAs? (h : splitAs? t = some (before, after)) : LastAs t before after := by
  induction t generalizing before with
  | nil => cases h
  | cons c t ih =>
    unfold splitAs? at h
    split at h
    · rename_i before' after' hsplit
      cases h
      have hlast := ih hsplit
      refine ⟨cutAtAs_cons_iff.2 (.inl ⟨before', rfl, hlast.toCutAtAs⟩), fun other rest hother => ?_⟩
      rcases cutAtAs_cons_iff.1 hother with ⟨other, rfl, hcut⟩ | ⟨rfl, -⟩
      · exact Nat.succ_le_succ (hlast.last _ _ hcut)
      · simp
    · rename_i hnone
      split at h
      · rename_i d rest
        split at h
        · rename_i hblanks
          cases h
          rw [Bool.and_eq_true] at hblanks
          refine ⟨cutAtAs_cons_iff.2 (.inr ⟨rfl, hblanks.1, rfl, d, rfl, hblanks.2⟩), ?_⟩
          intro other rest' hother
          rcases cutAtAs_cons_iff.1 hother with ⟨other, -, hcut⟩ | ⟨rfl, -⟩
          · obtain ⟨r, hr⟩ := hcut.exists_splitAs?
            cases hnone.symm.trans hr
          · exact Nat.le_refl _
        · cases h
      · cases h

/-- A header is cut around the last word `as` between blanks. -/
theorem splitAs?_eq_some_iff : splitAs? t = some (before, after) ↔ LastAs t before after := by
  refine ⟨lastAs_of_splitAs?, fun h => ?_⟩
  obtain ⟨⟨before', after'⟩, hsplit⟩ := h.toCutAtAs.exists_splitAs?
  have h' := lastAs_of_splitAs? hsplit
  -- Both are last, so they stand at one place.
  have hlength : before.length = before'.length :=
    Nat.le_antisymm (h'.last _ _ h.toCutAtAs) (h.last _ _ h'.toCutAtAs)
  obtain ⟨rfl, hrest⟩ := List.append_inj (h.text_eq.symm.trans h'.text_eq) hlength
  rw [hsplit, List.append_cancel_left hrest]

end Cuts

/-! ## Names behind the word -/

/-- A piece of a header names a binding: it is an identifier between blanks, and the span covers
exactly the identifier. -/
inductive NamesAt (offset : Nat) : Text → BlockBinding → Prop where
  | between {blanks name blanks' : Text} (hblanks : Blank blanks) (hname : isIdentifier name = true)
    (hblanks' : Blank blanks') :
    NamesAt offset (blanks ++ (name ++ blanks'))
      ⟨name, ⟨offset + byteLength blanks, offset + byteLength blanks + byteLength name⟩⟩

/-- What follows the word in a header: one name, or two with a comma between them. -/
inductive NamedBy (offset : Nat) : Text → BlockBinding → Option BlockBinding → Prop where
  | item {piece : Text} {item : BlockBinding} (h : NamesAt offset piece item) :
    NamedBy offset piece item none
  | pair {piece piece' : Text} {item index : BlockBinding} (h : NamesAt offset piece item)
    (h' : NamesAt (offset + byteLength piece + 1) piece' index) :
    NamedBy offset (piece ++ ',' :: piece') item (some index)

theorem not_isBlank_of_isIdentifierPart {c : Char} (hc : isIdentifierPart c = true) :
    isBlank c = false := by
  rw [Bool.eq_false_iff]
  intro hblank
  rw [eq_nextLine_of_isBlank hblank (not_isScriptBlank_of_isIdentifierPart hc)] at hc
  revert hc
  decide

section Names

variable {offset : Nat} {blanks name blanks' piece : Text} {b : BlockBinding}

/-- Between blanks an identifier is found where it starts. -/
theorem takeWhile_isBlank_name (hblanks : Blank blanks) (hname : isIdentifier name = true)
    (rest : Text) :
    (blanks ++ (name ++ rest)).takeWhile isBlank = blanks ∧
      (blanks ++ (name ++ rest)).dropWhile isBlank = name ++ rest := by
  cases name with
  | nil => cases hname
  | cons c t =>
    have hc := not_isBlank_of_isIdentifierPart (isIdentifierPart_of_mem hname c List.mem_cons_self)
    have hneg : ¬ isBlank c = true := by rw [hc]; exact Bool.false_ne_true
    constructor
    · rw [List.takeWhile_append_of_pos hblanks, List.cons_append, List.takeWhile_cons_of_neg hneg,
        List.append_nil]
    · rw [List.dropWhile_append_of_pos hblanks, List.cons_append, List.dropWhile_cons_of_neg hneg]

/-- The blanks around an identifier are trimmed, and nothing else. -/
theorem trim_name (hblanks : Blank blanks) (hname : isIdentifier name = true)
    (hblanks' : Blank blanks') : trim isBlank (blanks ++ (name ++ blanks')) = name := by
  have hreverse : ∀ c ∈ blanks'.reverse, isBlank c = true :=
    fun c hc => hblanks' c (List.mem_reverse.1 hc)
  rw [trim, trimStart, (takeWhile_isBlank_name hblanks hname blanks').2, trimEnd,
    List.reverse_append, List.dropWhile_append_of_pos hreverse]
  -- The last character of the identifier is no blank, so all of it is left.
  cases hlast : name.reverse with
  | nil =>
    rw [List.reverse_eq_nil_iff.1 hlast] at hname
    cases hname
  | cons c t =>
    have hmem : c ∈ name := List.mem_reverse.1 (hlast ▸ List.mem_cons_self)
    have hc := not_isBlank_of_isIdentifierPart (isIdentifierPart_of_mem hname c hmem)
    rw [List.dropWhile_cons_of_neg (by rw [hc]; exact Bool.false_ne_true), ← hlast,
      List.reverse_reverse]

/-- A piece names what is left of it once its blanks are trimmed. -/
theorem namesAt_iff :
    NamesAt offset piece b ↔ isIdentifier (trim isBlank piece) = true ∧
      b = ⟨trim isBlank piece, ⟨offset + byteLength (piece.takeWhile isBlank),
        offset + byteLength (piece.takeWhile isBlank) + byteLength (trim isBlank piece)⟩⟩ := by
  constructor
  · rintro ⟨hblanks, hname, hblanks'⟩
    rw [trim_name hblanks hname hblanks', (takeWhile_isBlank_name hblanks hname _).1]
    exact ⟨hname, rfl⟩
  · rintro ⟨hname, rfl⟩
    have hpiece : piece = piece.takeWhile isBlank ++
        (trim isBlank piece ++ (piece.dropWhile isBlank).rtakeWhile isBlank) := by
      have hrest : trim isBlank piece ++ (piece.dropWhile isBlank).rtakeWhile isBlank =
          piece.dropWhile isBlank := List.rdropWhile_append_rtakeWhile
      rw [hrest, List.takeWhile_append_dropWhile]
    nth_rewrite 1 [hpiece]
    exact .between (fun c hc => List.mem_takeWhile_imp hc) hname
      (fun c hc => List.mem_rtakeWhile_imp hc)

/-- One binding after the other. -/
theorem bindingsAt_cons_iff {pieces : List Text} {bindings : List BlockBinding} :
    bindingsAt offset (piece :: pieces) = .ok bindings ↔
      ∃ b rest, NamesAt offset piece b ∧
        bindingsAt (offset + byteLength piece + 1) pieces = .ok rest ∧ bindings = b :: rest := by
  simp only [bindingsAt, namesAt_iff]
  constructor
  · intro h
    split at h
    · rename_i hname
      obtain ⟨rest, hrest, h⟩ := bind_eq_ok_iff.1 h
      cases h
      exact ⟨_, rest, ⟨hname, rfl⟩, hrest, rfl⟩
    · cases h
  · rintro ⟨b, rest, ⟨hname, rfl⟩, hrest, rfl⟩
    rw [if_pos hname]
    exact bind_eq_ok_iff.2 ⟨rest, hrest, rfl⟩

theorem bindingsAt_eq_ok_nil_iff {pieces : List Text} :
    bindingsAt offset pieces = .ok [] ↔ pieces = [] := by
  constructor
  · intro h
    cases pieces with
    | nil => rfl
    | cons piece pieces =>
      obtain ⟨b, rest, -, -, hbindings⟩ := bindingsAt_cons_iff.1 h
      cases hbindings
  · rintro rfl
    rfl

/-- No comma is part of a name or of the blanks around it. -/
theorem NamesAt.comma_not_mem (h : NamesAt offset piece b) : ',' ∉ piece := by
  rcases h with ⟨hblanks, hname, hblanks'⟩
  intro hmem
  rcases List.mem_append.1 hmem with hmem | hmem
  · exact absurd (hblanks _ hmem) (by decide)
  · rcases List.mem_append.1 hmem with hmem | hmem
    · exact absurd (isIdentifierPart_of_mem hname _ hmem) (by decide)
    · exact absurd (hblanks' _ hmem) (by decide)

end Names

section Pieces

variable {sep : Char} {piece t : Text}

theorem splitOn_of_not_mem (h : sep ∉ t) : splitOn sep t = [t] := by
  induction t with
  | nil => rfl
  | cons c t ih =>
    rw [List.mem_cons, not_or] at h
    rw [splitOn, ih h.2, if_neg (by rw [beq_iff_eq]; exact fun hc => h.1 hc.symm)]

theorem splitOn_append_cons (h : sep ∉ piece) :
    splitOn sep (piece ++ sep :: t) = piece :: splitOn sep t := by
  induction piece with
  | nil => rw [List.nil_append, splitOn, if_pos (beq_self_eq_true sep)]
  | cons c piece ih =>
    rw [List.mem_cons, not_or] at h
    rw [List.cons_append, splitOn, ih h.2, if_neg (by rw [beq_iff_eq]; exact fun hc => h.1 hc.symm)]

/-- The pieces between the commas are one or two names. -/
theorem bindingsAt_splitOn_iff {offset : Nat} {item : BlockBinding} {index : Option BlockBinding} :
    bindingsAt offset (splitOn ',' t) = .ok (item :: index.toList) ↔ NamedBy offset t item index := by
  constructor
  · intro h
    have hjoin := join_splitOn ',' t
    cases hpieces : splitOn ',' t with
    | nil => exact absurd hpieces (splitOn_ne_nil ',' t)
    | cons piece pieces =>
      rw [hpieces] at h hjoin
      obtain ⟨b, rest, hpiece, hrest, hbindings⟩ := bindingsAt_cons_iff.1 h
      obtain ⟨rfl, rfl⟩ := List.cons.inj hbindings
      cases index with
      | none =>
        rw [bindingsAt_eq_ok_nil_iff.1 hrest] at hjoin
        rw [← hjoin]
        exact .item hpiece
      | some index =>
        cases pieces with
        | nil => cases hrest
        | cons piece' pieces =>
          obtain ⟨b, rest, hpiece', hrest, hbindings⟩ := bindingsAt_cons_iff.1 hrest
          cases hbindings
          rw [bindingsAt_eq_ok_nil_iff.1 hrest, join_cons _ _ (List.cons_ne_nil _ _),
            List.append_assoc] at hjoin
          rw [← hjoin]
          exact .pair hpiece hpiece'
  · rintro (h | ⟨h, h'⟩)
    · rw [splitOn_of_not_mem h.comma_not_mem]
      exact bindingsAt_cons_iff.2 ⟨_, [], h, rfl, rfl⟩
    · rw [splitOn_append_cons h.comma_not_mem, splitOn_of_not_mem h'.comma_not_mem]
      exact bindingsAt_cons_iff.2
        ⟨_, _, h, bindingsAt_cons_iff.2 ⟨_, [], h', rfl, rfl⟩, rfl⟩

end Pieces

/-! ## No further word behind the names -/

section Words

variable {u before after : Text}

/-- A cut of a text is a cut of what follows its first characters, or lies within these. -/
theorem CutAtAs.append (s : Text) (h : CutAtAs (s ++ u) before after) :
    before.length ≤ s.length ∨ ∃ before', before = s ++ before' ∧ CutAtAs u before' after := by
  induction s generalizing before with
  | nil => exact .inr ⟨before, rfl, h⟩
  | cons c s ih =>
    rcases cutAtAs_cons_iff.1 h with ⟨before', rfl, hcut⟩ | ⟨rfl, -⟩
    · rcases ih hcut with hle | ⟨inner, rfl, hinner⟩
      · exact .inl (Nat.succ_le_succ hle)
      · exact .inr ⟨inner, rfl, hinner⟩
    · exact .inl (Nat.succ_le_succ (Nat.zero_le _))

/-- Without blanks in front of it the word is further behind. -/
theorem CutAtAs.of_not_blank {s : Text} (hs : ∀ c ∈ s, isBlank c = false)
    (h : CutAtAs (s ++ u) before after) : ∃ before', CutAtAs u before' after := by
  induction s generalizing before with
  | nil => exact ⟨before, h⟩
  | cons c s ih =>
    rcases cutAtAs_cons_iff.1 h with ⟨before', -, hcut⟩ | ⟨-, hc, -⟩
    · exact ih (fun c hc => hs c (List.mem_cons_of_mem _ hc)) hcut
    · rw [hs c List.mem_cons_self] at hc
      cases hc

/-- Behind blanks the word stands at once, or it is further behind. -/
theorem CutAtAs.of_blank {blanks : Text} (hblanks : Blank blanks)
    (h : CutAtAs (blanks ++ u) before after) :
    (∃ before', CutAtAs u before' after) ∨
      u = 'a' :: 's' :: after ∧ ∃ b ∈ after.head?, isBlank b = true := by
  induction blanks generalizing before with
  | nil => exact .inl ⟨before, h⟩
  | cons c blanks ih =>
    rcases cutAtAs_cons_iff.1 h with ⟨before', -, hcut⟩ | ⟨-, -, ht, hafter⟩
    · exact ih (fun c hc => hblanks c (List.mem_cons_of_mem _ hc)) hcut
    · cases blanks with
      | nil => exact .inr ⟨ht, hafter⟩
      | cons d blanks =>
        obtain ⟨rfl, -⟩ := List.cons.inj ht
        exact absurd (hblanks 'a' (by simp)) (by decide)

/-- An identifier that starts with the word, with a blank behind it, is the word. -/
theorem eq_as_of_append {name rest : Text} (hname : isIdentifier name = true)
    (hrest : ∀ c ∈ rest.head?, isIdentifierPart c = false)
    (h : name ++ rest = 'a' :: 's' :: after) (hafter : ∃ b ∈ after.head?, isBlank b = true) :
    name = "as".toList := by
  match name with
  | [] => cases hname
  | [c] =>
    -- The identifier would end between the two letters.
    obtain ⟨-, rfl⟩ := List.cons.inj h
    exact absurd (hrest 's' rfl) (by decide)
  | [c, d] =>
    obtain ⟨rfl, hd⟩ := List.cons.inj h
    obtain ⟨rfl, -⟩ := List.cons.inj hd
    rfl
  | c :: d :: e :: name =>
    -- The identifier would go on with a blank.
    obtain ⟨-, hd⟩ := List.cons.inj h
    obtain ⟨-, rfl⟩ := List.cons.inj hd
    obtain ⟨b, hb, hblank⟩ := hafter
    cases hb
    rw [not_isBlank_of_isIdentifierPart (isIdentifierPart_of_mem hname e (by simp))] at hblank
    cases hblank

/-- A name other than the word leaves the word to what follows. -/
theorem NamesAt.of_cutAtAs {offset : Nat} {piece rest : Text} {binding : BlockBinding}
    (h : NamesAt offset piece binding) (hne : binding.name ≠ "as".toList)
    (hrest : ∀ c ∈ rest.head?, isIdentifierPart c = false)
    (hcut : CutAtAs (piece ++ rest) before after) : ∃ before', CutAtAs rest before' after := by
  rcases h with @⟨blanks, name, blanks', hblanks, hname, hblanks'⟩
  have hend : ∀ c ∈ (blanks' ++ rest).head?, isIdentifierPart c = false := by
    cases blanks' with
    | nil => exact hrest
    | cons d blanks' =>
      rintro c ⟨⟩
      rw [Bool.eq_false_iff]
      intro hc
      exact Bool.false_ne_true
        ((not_isBlank_of_isIdentifierPart hc).symm.trans (hblanks' _ List.mem_cons_self))
  rw [List.append_assoc, List.append_assoc] at hcut
  -- The word is behind the first blanks, where it would be the name, or behind the name.
  rcases hcut.of_blank hblanks with ⟨before', hcut⟩ | ⟨hword, hafter⟩
  · have hsolid : ∀ c ∈ name, isBlank c = false :=
      fun c hc => not_isBlank_of_isIdentifierPart (isIdentifierPart_of_mem hname c hc)
    obtain ⟨before', hcut⟩ := hcut.of_not_blank hsolid
    rcases hcut.of_blank hblanks' with hcut | ⟨rfl, -⟩
    · exact hcut
    · exact absurd (hrest 'a' rfl) (by decide)
  · exact absurd (eq_as_of_append hname hend hword hafter) hne

/-- Names other than the word do not have it between blanks. -/
theorem NamedBy.not_cutAtAs {offset : Nat} {t : Text} {item : BlockBinding}
    {index : Option BlockBinding} (h : NamedBy offset t item index)
    (hitem : item.name ≠ "as".toList) (hindex : ∀ b ∈ index, b.name ≠ "as".toList) :
    ¬ CutAtAs t before after := by
  intro hcut
  rcases h with h | @⟨piece, piece', _, index, h, h'⟩
  · rw [← List.append_nil t] at hcut
    obtain ⟨before', hcut⟩ := h.of_cutAtAs hitem (by simp) hcut
    exact not_cutAtAs_nil hcut
  · have hcomma : ∀ c ∈ (',' :: piece').head?, isIdentifierPart c = false := by
      rintro c ⟨⟩
      decide
    obtain ⟨before', hcut⟩ := h.of_cutAtAs hitem hcomma hcut
    have hsolid : ∀ c ∈ [','], isBlank c = false := by decide
    obtain ⟨before', hcut⟩ := hcut.of_not_blank (s := [',']) hsolid
    rw [← List.append_nil piece'] at hcut
    obtain ⟨before', hcut⟩ := h'.of_cutAtAs (hindex _ rfl) (by simp) hcut
    exact not_cutAtAs_nil hcut

/-- A word is the last one if none follows it. -/
theorem CutAtAs.lastAs {t : Text} (h : CutAtAs t before after)
    (hafter : ∀ before' after', ¬ CutAtAs after before' after') : LastAs t before after := by
  refine ⟨h, fun other rest hother => ?_⟩
  rw [h.text_eq] at hother
  rcases hother.append before with hle | ⟨other, -, hcut⟩
  · exact hle
  · -- A word further behind does not overlap this one, which has no blanks.
    have hword : ∀ c ∈ "as".toList, isBlank c = false := by decide
    obtain ⟨other, hcut⟩ := hcut.of_not_blank hword
    exact absurd hcut (hafter _ _)

end Words

/-! ## The headers that are read -/

variable {g : Grammar}

theorem eachHeader_eq_ok_iff {c : Cursor} {m : Mustache} :
    eachHeader g c = .ok m ↔
      ∃ e item index before after, m = .opensEach e item index ∧ LastAs c.rest before after ∧
        expressionAt g ⟨c.pos, before⟩ = .ok e ∧
        NamedBy (c.pos + byteLength before + 2) after item index := by
  simp only [← splitAs?_eq_some_iff, ← bindingsAt_splitOn_iff]
  constructor
  · intro h
    unfold eachHeader at h
    split at h
    · cases h
    · rename_i before after hsplit
      obtain ⟨e, he, h⟩ := bind_eq_ok_iff.1 h
      obtain ⟨bindings, hbindings, h⟩ := bind_eq_ok_iff.1 h
      split at h
      · cases h
        exact ⟨e, _, none, before, after, rfl, hsplit, he, hbindings⟩
      · cases h
        exact ⟨e, _, some _, before, after, rfl, hsplit, he, hbindings⟩
      · cases h
  · rintro ⟨e, item, index, before, after, rfl, hsplit, he, hbindings⟩
    simp only [eachHeader, hsplit]
    refine bind_eq_ok_iff.2 ⟨e, he, bind_eq_ok_iff.2 ⟨_, hbindings, ?_⟩⟩
    cases index <;> rfl

/-- A header is read exactly if it is an expression and blanks, the last word `as` between blanks,
and one or two names. Where the names are other ones, the word in front of them is the last, even
if the expression has further ones. -/
theorem eachHeader_accepts_iff (g : Grammar) (c : Cursor) :
    (∀ m, eachHeader g c = .ok m ↔
      ∃ e item index before after, m = .opensEach e item index ∧ LastAs c.rest before after ∧
        expressionAt g ⟨c.pos, before⟩ = .ok e ∧
        NamedBy (c.pos + byteLength before + 2) after item index) ∧
    ∀ iterable blanks after e item index,
      c.rest = iterable ++ blanks ++ ("as".toList ++ after) →
      blanks ≠ [] → Blank blanks → (∃ b ∈ after.head?, isBlank b = true) →
      expressionAt g ⟨c.pos, iterable ++ blanks⟩ = .ok e →
      NamedBy (c.pos + byteLength (iterable ++ blanks) + 2) after item index →
      item.name ≠ "as".toList → (∀ b ∈ index, b.name ≠ "as".toList) →
      eachHeader g c = .ok (.opensEach e item index) := by
  refine ⟨fun m => eachHeader_eq_ok_iff, ?_⟩
  intro iterable blanks after e item index hrest hne hblanks hafter he hnames hitem hindex
  have hlast : ∃ b ∈ (iterable ++ blanks).getLast?, isBlank b = true := by
    refine ⟨blanks.getLast hne, ?_, hblanks _ (List.getLast_mem hne)⟩
    rw [List.getLast?_append_of_ne_nil _ hne, List.getLast?_eq_some_getLast hne]
    rfl
  have hcut : CutAtAs c.rest (iterable ++ blanks) after := ⟨hrest, hlast, hafter⟩
  apply eachHeader_eq_ok_iff.2
  exact ⟨e, item, index, _, after, rfl,
    hcut.lastAs fun _ _ => hnames.not_cutAtAs hitem hindex, he, hnames⟩

/-- An iterable with the word as a name and in a text. -/
def wordyIterable : Text := " [ as , ' as b' ]".toList

theorem eachHeader_accepts_iff_wordyIterable :
    ∃ e, expressionAt .standard ⟨7, wordyIterable ++ "\t ".toList⟩ = .ok e ∧
      eachHeader .standard
          ⟨7, wordyIterable ++ "\t ".toList ++ ("as".toList ++ " x ,\u2003y ".toList)⟩ =
        .ok (.opensEach e ⟨"x".toList, ⟨29, 30⟩⟩ (some ⟨"y".toList, ⟨35, 36⟩⟩)) := by
  have hread : (expressionAt .standard ⟨7, wordyIterable ++ "\t ".toList⟩).toOption.isSome := by
    decide +kernel
  obtain ⟨e, he⟩ := Option.isSome_iff_exists.1 hread
  have he := toOption_eq_some_iff.1 he
  have hitem : NamesAt 28 " x ".toList ⟨"x".toList, ⟨29, 30⟩⟩ := namesAt_iff.2 (by decide)
  have hindex : NamesAt 32 "\u2003y ".toList ⟨"y".toList, ⟨35, 36⟩⟩ := namesAt_iff.2 (by decide)
  refine ⟨e, he, ?_⟩
  exact (eachHeader_accepts_iff .standard _).2 wordyIterable "\t ".toList _ e _ _ rfl (by decide)
    (by unfold Blank; decide) ⟨' ', rfl, by decide⟩ he (.pair hitem hindex) (by decide)
    (by rintro b ⟨⟩; decide)

end TemplateCompiler
