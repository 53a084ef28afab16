import TemplateCompiler.Proofs.Script.Shifted
import TemplateCompiler.Proofs.Template.Invariants

/-!
# Reading the same text elsewhere

A construct of a template is read up to its own end and no further. So what is read at a cursor
stays the same, up to offsets, if the text starts further on and if more text follows. Two things
look at what follows: the end of the source, and a text that runs up to it.

## What this module delivers

* `Cursor.shift`, `Cursor.moved`: a cursor further on, and one with a tail behind its text.
* `Carries`: how expressions change when their text moves.
* `Node.carry`, `Node.shift`: moved nodes.
* `nextPiece_moved`, `ReadsNodes.moved`: pieces and nodes that are read elsewhere.
-/

set_option autoImplicit false

namespace TemplateCompiler

open Script Text

/-! ## Moved cursors -/

namespace Cursor

/-- A cursor whose text starts further on. -/
def shift (k : Nat) (c : Cursor) : Cursor := ⟨c.pos + k, c.rest⟩

/-- A cursor whose text starts further on and goes on with a tail. -/
def moved (k : Nat) (tail : Text) (c : Cursor) : Cursor := ⟨c.pos + k, c.rest ++ tail⟩

variable {k : Nat} {tail : Text}

theorem Leads.rest_ne_nil {c c' : Cursor} {read : Text} (h : c.Leads read c') (hne : c'.rest ≠ []) :
    c.rest ≠ [] := by
  rw [h.1]
  exact List.append_ne_nil_of_right_ne_nil _ hne

@[simp] theorem shift_pos (c : Cursor) : (c.shift k).pos = c.pos + k := rfl

@[simp] theorem shift_rest (c : Cursor) : (c.shift k).rest = c.rest := rfl

@[simp] theorem moved_pos (c : Cursor) : (c.moved k tail).pos = c.pos + k := rfl

@[simp] theorem moved_rest (c : Cursor) : (c.moved k tail).rest = c.rest ++ tail := rfl

theorem span_shift (c : Cursor) (p : Char → Bool) :
    (c.shift k).span p = ((c.span p).1, (c.span p).2.shift k) := by
  simp only [span, shift, skip, Nat.add_right_comm]

theorem skipBlanks_shift (c : Cursor) : (c.shift k).skipBlanks = c.skipBlanks.shift k := by
  rw [skipBlanks, span_shift]
  rfl

theorem takeWhile_append_of_dropWhile (tail : Text) {p : Char → Bool} {t : Text}
    (h : t.dropWhile p ≠ []) :
    (t ++ tail).takeWhile p = t.takeWhile p ∧ (t ++ tail).dropWhile p = t.dropWhile p ++ tail := by
  induction t with
  | nil => exact absurd rfl h
  | cons x t ih =>
    by_cases hx : p x = true
    · rw [List.dropWhile_cons_of_pos hx] at h
      obtain ⟨htake, hdrop⟩ := ih h
      rw [List.cons_append, List.takeWhile_cons_of_pos hx, List.takeWhile_cons_of_pos hx,
        List.dropWhile_cons_of_pos hx, List.dropWhile_cons_of_pos hx, htake, hdrop]
      exact ⟨rfl, rfl⟩
    · rw [List.cons_append, List.takeWhile_cons_of_neg hx, List.takeWhile_cons_of_neg hx,
        List.dropWhile_cons_of_neg hx, List.dropWhile_cons_of_neg hx]
      exact ⟨rfl, rfl⟩

/-- Characters of a class that end before the text does. -/
theorem span_moved {c : Cursor} {p : Char → Bool} (h : (c.span p).2.rest ≠ []) :
    (c.moved k tail).span p = ((c.span p).1, (c.span p).2.moved k tail) := by
  obtain ⟨htake, hdrop⟩ := takeWhile_append_of_dropWhile tail h
  simp only [span, moved, skip, htake, hdrop, Nat.add_right_comm]

theorem skipBlanks_moved {c : Cursor} (h : c.skipBlanks.rest ≠ []) :
    (c.moved k tail).skipBlanks = c.skipBlanks.moved k tail := by
  rw [skipBlanks, span_moved h]
  rfl

end Cursor

/-! ## Moved trees -/

/-- How expressions change when their text moves by some bytes. -/
structure Carries (g : Grammar) (k : Nat) (σ : Expr → Expr) : Prop where
  expression : ∀ text pos, g.expression text (pos + k) = (g.expression text pos).map σ
  span : ∀ e, (σ e).span = e.span.shift k

theorem carries_id (g : Grammar) : Carries g 0 id where
  expression := fun text pos => by rw [Nat.add_zero, Option.map_id, id]
  span := fun _ => rfl

theorem Script.Grammar.Shifts.carries {g : Grammar} (h : g.Shifts) (k : Nat) :
    Carries g k (Expr.shift k) where
  expression := fun text pos => h text pos k
  span := Expr.span_shift k

/-- A binding moved by some bytes. -/
def BlockBinding.shift (k : Nat) (b : BlockBinding) : BlockBinding := ⟨b.name, b.span.shift k⟩

section Trees

variable (k : Nat) (tail : Text) (σ : Expr → Expr)

/-- A mustache whose text is moved. -/
def Mustache.carry : Mustache → Mustache
  | .tag e => .tag (σ e)
  | .opensIf test => .opensIf (σ test)
  | .opensEach iterable item index =>
    .opensEach (σ iterable) (item.shift k) (index.map (BlockBinding.shift k))
  | .closes name => .closes name
  | .alternative => .alternative
  | .alternativeIf test => .alternativeIf (σ test)

/-- A part of a value whose text is moved. -/
def AttributePart.carry : AttributePart → AttributePart
  | .text data => .text data
  | .expr e => .expr (σ e)

/-- An attribute whose text is moved. -/
def Attribute.carry (a : Attribute) : Attribute :=
  ⟨a.name, a.value.map (List.map (AttributePart.carry σ)), a.span.shift k⟩

/-- An opening tag whose text is moved and goes on with a tail. -/
def OpeningTag.carry (t : OpeningTag) : OpeningTag :=
  ⟨t.name, t.attributes.map (Attribute.carry k σ), t.selfClosing, t.after.moved k tail⟩

/-- What stops the reading of nodes, in a text that is moved. -/
def Stop.carry : Stop → Stop
  | .endOfSource => .endOfSource
  | .closingTag name => .closingTag name
  | .closes name => .closes name
  | .alternative => .alternative
  | .alternativeIf test => .alternativeIf (σ test)

/-- A piece whose text is moved and goes on with a tail. -/
def Piece.carry : Piece → Piece
  | .stop s => .stop (s.carry σ)
  | .text data => .text data
  | .tag e => .tag (σ e)
  | .opensIf test => .opensIf (σ test)
  | .opensEach iterable item index =>
    .opensEach (σ iterable) (item.shift k) (index.map (BlockBinding.shift k))
  | .opens t => .opens (t.carry k tail σ)

mutual

/-- A node whose text is moved. -/
def Node.carry : Node → Node
  | .element name attrs children span =>
    .element name (attrs.map (Attribute.carry k σ)) (nodesCarry children) (span.shift k)
  | .text data span => .text data (span.shift k)
  | .mustache e span => .mustache (σ e) (span.shift k)
  | .ifBlock test children alternative span =>
    .ifBlock (σ test) (nodesCarry children) (alternativeCarry alternative) (span.shift k)
  | .eachBlock iterable item index children span =>
    .eachBlock (σ iterable) (item.shift k) (index.map (BlockBinding.shift k))
      (nodesCarry children) (span.shift k)

/-- Nodes whose text is moved. -/
def nodesCarry : List Node → List Node
  | [] => []
  | n :: rest => n.carry :: nodesCarry rest

/-- An alternative whose text is moved. -/
def alternativeCarry : Option (List Node) → Option (List Node)
  | none => none
  | some nodes => some (nodesCarry nodes)

end

/-- Nodes with what stopped their reading, in a text that is moved and goes on with a tail. -/
def Children.carry (r : Children) : Children :=
  ⟨nodesCarry k σ r.nodes, r.stop.carry σ, r.stopStart + k, r.found, r.after.moved k tail⟩

end Trees

/-- A node with all that is in it, moved by some bytes. -/
def Node.shift (k : Nat) : Node → Node := Node.carry k (Expr.shift k)

theorem nodesCarry_eq_map (k : Nat) (σ : Expr → Expr) (nodes : List Node) :
    nodesCarry k σ nodes = nodes.map (Node.carry k σ) := by
  induction nodes with
  | nil => rw [nodesCarry, List.map_nil]
  | cons n rest ih => rw [nodesCarry, List.map_cons, ih]

theorem Mustache.piece_carry (k : Nat) (tail : Text) (σ : Expr → Expr) (m : Mustache) :
    (m.carry k σ).piece = m.piece.carry k tail σ := by
  cases m <;> rfl

/-! ## Mustaches -/

section Readers

variable {g : Grammar} {k : Nat} {σ : Expr → Expr} {tail : Text}

theorem expressionAt_shift (hσ : Carries g k σ) {c : Cursor} {e : Expr}
    (h : expressionAt g c = .ok e) : expressionAt g (c.shift k) = .ok (σ e) := by
  unfold expressionAt at h
  cases hread : g.expression c.rest c.pos with
  | none =>
    rw [hread] at h
    cases h
  | some e' =>
    simp only [hread] at h
    split at h
    · cases h
    rename_i hstart
    split at h
    · cases h
    rename_i trailing hdrop
    split at h
    · rename_i htrivia
      cases h
      have hmoved : g.expression c.rest (c.pos + k) = some (σ e) := by
        rw [hσ.expression, hread, Option.map_some]
      have hstop : (σ e).span.stop = e.span.stop + k := congrArg Span.stop (hσ.span e)
      unfold expressionAt
      simp only [Cursor.shift_rest, Cursor.shift_pos, hmoved, hstop, Nat.add_lt_add_iff_right,
        if_neg hstart, Nat.add_sub_add_right, hdrop, if_pos htrivia]
    · cases h

theorem bindingsAt_shift {offset : Nat} {pieces : List Text} {bindings : List BlockBinding}
    (h : bindingsAt offset pieces = .ok bindings) :
    bindingsAt (offset + k) pieces = .ok (bindings.map (BlockBinding.shift k)) := by
  induction pieces generalizing offset bindings with
  | nil =>
    cases h
    rfl
  | cons piece pieces ih =>
    unfold bindingsAt at h ⊢
    dsimp only at h ⊢
    split at h
    · rename_i hname
      obtain ⟨rest, hrest, h⟩ := bind_eq_ok_iff.1 h
      cases h
      have hrest := ih hrest
      rw [Nat.add_right_comm, Nat.add_right_comm offset] at hrest
      rw [if_pos hname, hrest]
      simp only [List.map_cons, BlockBinding.shift, Span.shift, Nat.add_right_comm _ k]
      rfl
    · cases h

theorem eachHeader_shift (hσ : Carries g k σ) {c : Cursor} {m : Mustache}
    (h : eachHeader g c = .ok m) : eachHeader g (c.shift k) = .ok (m.carry k σ) := by
  unfold eachHeader at h
  split at h
  · cases h
  · rename_i before after hsplit
    obtain ⟨iterable, hiterable, h⟩ := bind_eq_ok_iff.1 h
    obtain ⟨bindings, hbindings, h⟩ := bind_eq_ok_iff.1 h
    have hiterable := expressionAt_shift hσ hiterable
    have hbindings := bindingsAt_shift (k := k) hbindings
    rw [Nat.add_right_comm, Nat.add_right_comm c.pos] at hbindings
    unfold eachHeader
    rw [Cursor.shift_rest, hsplit]
    refine bind_eq_ok_iff.2 ⟨_, hiterable, bind_eq_ok_iff.2 ⟨_, hbindings, ?_⟩⟩
    split at h
    · cases h
      rfl
    · cases h
      rfl
    · cases h

theorem blockHeader_shift (hσ : Carries g k σ) {c : Cursor} {m : Mustache} {start stop : Nat}
    (start' stop' : Nat) (h : blockHeader g c start stop = .ok m) :
    blockHeader g (c.shift k) start' stop' = .ok (m.carry k σ) := by
  unfold blockHeader at h ⊢
  rw [Cursor.span_shift]
  dsimp only at h ⊢
  split at h
  · rename_i hif
    obtain ⟨test, htest, h⟩ := bind_eq_ok_iff.1 h
    cases h
    rw [if_pos hif]
    exact bind_eq_ok_iff.2 ⟨_, expressionAt_shift hσ htest, rfl⟩
  · rename_i hif
    rw [if_neg hif]
    split at h
    · rename_i heach
      rw [if_pos heach]
      exact eachHeader_shift hσ h
    · cases h

/-- Whether a mustache is an alternative does not depend on where it stands. -/
theorem alternative?_shift (hσ : Carries g k σ) (c : Cursor) :
    (alternative? g c = none → alternative? g (c.shift k) = none) ∧
      ∀ m, alternative? g c = some (.ok m) →
        alternative? g (c.shift k) = some (.ok (m.carry k σ)) := by
  unfold alternative?
  simp only [Cursor.skipBlanks_shift, Cursor.shift_rest, Cursor.shift_pos]
  split
  · refine ⟨nofun, fun m h => ?_⟩
    cases h
    rfl
  · split
    · rename_i b t _
      split
      · refine ⟨nofun, fun m h => ?_⟩
        obtain ⟨test, htest, rfl⟩ := map_eq_ok_iff.1 (Option.some.inj h)
        have htest := expressionAt_shift hσ htest
        rw [Cursor.shift, Nat.add_right_comm] at htest
        exact congrArg some (map_eq_ok_iff.2 ⟨_, htest, rfl⟩)
      · exact ⟨fun _ => rfl, nofun⟩
    · exact ⟨fun _ => rfl, nofun⟩

theorem mustacheOf_shift (hσ : Carries g k σ) {content : Cursor} {m : Mustache} {start stop : Nat}
    (start' stop' : Nat) (h : mustacheOf g content start stop = .ok m) :
    mustacheOf g (content.shift k) start' stop' = .ok (m.carry k σ) := by
  unfold mustacheOf at h ⊢
  simp only [Cursor.skipBlanks_shift, Cursor.shift_rest, Cursor.shift_pos]
  dsimp only at h
  split at h
  · have hheader := blockHeader_shift hσ start' stop' h
    rw [Cursor.shift, Nat.add_right_comm] at hheader
    exact hheader
  · cases h
    rfl
  · have htag : (do return .tag (← expressionAt g content)) = Except.ok m →
        (do return .tag (← expressionAt g (content.shift k))) = Except.ok (m.carry k σ) := by
      intro h
      obtain ⟨e, he, h⟩ := bind_eq_ok_iff.1 h
      cases h
      exact bind_eq_ok_iff.2 ⟨_, expressionAt_shift hσ he, rfl⟩
    cases hstrip : stripStart? content.skipBlanks.rest "else".toList with
    | none =>
      rw [hstrip] at h
      exact htag h
    | some t =>
      obtain ⟨hnone, hok⟩ := alternative?_shift hσ ⟨content.skipBlanks.pos + 4, t⟩
      rw [Cursor.shift, Nat.add_right_comm] at hnone hok
      rw [hstrip, Option.bind_some] at h
      rw [Option.bind_some]
      cases hresult : alternative? g ⟨content.skipBlanks.pos + 4, t⟩ with
      | none =>
        rw [hresult] at h
        rw [hnone hresult]
        exact htag h
      | some result =>
        rw [hresult] at h
        rw [hok m (hresult.trans (congrArg some h))]

/-- The content of a mustache ends at its own braces. -/
theorem splitMustache_append {depth : Nat} {quote : Option Char} {t content rest : Text}
    (h : splitMustache depth quote t = some (content, rest)) :
    splitMustache depth quote (t ++ tail) = some (content, rest ++ tail) := by
  fun_induction splitMustache depth quote t generalizing content with
  | case1 => cases h
  | case2 depth q c t ih =>
    obtain ⟨inner, hinner, rfl⟩ := consContent_eq_some_iff.1 h
    obtain ⟨inner', hinner', rfl⟩ := consContent_eq_some_iff.1 hinner
    simp only [List.cons_append, splitMustache, ih hinner']
    rfl
  | case6 t =>
    cases h
    simp only [List.cons_append, splitMustache]
  | case4 depth t ih | case5 depth t ih =>
    obtain ⟨inner, hinner, rfl⟩ := consContent_eq_some_iff.1 h
    simp only [List.cons_append, splitMustache, ih hinner]
    rfl
  | case3 depth q c t hescape ih =>
    obtain ⟨inner, hinner, rfl⟩ := consContent_eq_some_iff.1 h
    cases t with
    | nil => cases hinner
    | cons d t =>
      rw [List.cons_append, splitMustache, ih hinner]
      · rfl
      · intro d' t' hc _
        exact hescape d t hc rfl
  | case7 depth c t hopen hclose hend ih =>
    obtain ⟨inner, hinner, rfl⟩ := consContent_eq_some_iff.1 h
    cases t with
    | nil => cases hinner
    | cons d t =>
      rw [List.cons_append, splitMustache, ih hinner]
      · rfl
      · exact hopen
      · exact hclose
      · intro t' hdepth hc hd
        cases hd
        exact hend t hdepth hc rfl

theorem takeMustache_moved {c content after : Cursor} {t : Text}
    (hopen : c.rest = '\x7b' :: '\x7b' :: t) (h : takeMustache c = .ok (content, after)) :
    takeMustache (c.moved k tail) = .ok (content.shift k, after.moved k tail) := by
  unfold takeMustache at h ⊢
  rw [hopen] at h
  rw [Cursor.moved_rest, hopen]
  simp only [List.cons_append, List.drop_succ_cons, List.drop_zero] at h ⊢
  split at h
  · cases h
  · rename_i inner rest hsplit
    cases h
    rw [splitMustache_append hsplit]
    simp only [Cursor.shift, Cursor.moved, Nat.add_right_comm _ k]

theorem readMustache_moved (tail : Text) (hσ : Carries g k σ) {c after : Cursor} {m : Mustache}
    {t : Text}
    (hopen : c.rest = '\x7b' :: '\x7b' :: t) (h : readMustache g c = .ok (m, after)) :
    readMustache g (c.moved k tail) = .ok (m.carry k σ, after.moved k tail) := by
  obtain ⟨⟨content, after'⟩, htake, h⟩ := bind_eq_ok_iff.1 h
  obtain ⟨m', hm, h⟩ := bind_eq_ok_iff.1 h
  cases h
  exact bind_eq_ok_iff.2 ⟨_, takeMustache_moved hopen htake,
    bind_eq_ok_iff.2 ⟨_, mustacheOf_shift hσ _ _ hm, rfl⟩⟩

/-! ## Attributes -/

theorem startsWith_append {t pattern : Text} (h : pattern.length ≤ t.length) :
    startsWith (t ++ tail) pattern = startsWith t pattern := by
  induction pattern generalizing t with
  | nil => simp [startsWith]
  | cons p pattern ih =>
    cases t with
    | nil => simp at h
    | cons c t =>
      rw [List.cons_append, startsWith, startsWith, ih (by simpa using h)]

/-- The end of a value is seen before the text ends. -/
theorem endsValue_append {quote : Option Char} {x y : Char} {t : Text} :
    endsValue quote (x :: y :: t ++ tail) = endsValue quote (x :: y :: t) := by
  cases quote with
  | some q => rfl
  | none =>
    have hslash : startsWith (x :: y :: t ++ tail) "/>".toList =
        startsWith (x :: y :: t) "/>".toList :=
      startsWith_append (by simp)
    simp only [List.cons_append] at hslash ⊢
    simp only [endsValue, hslash]

theorem startsWith_append_of_true {t pattern : Text} (h : startsWith t pattern = true) :
    startsWith (t ++ tail) pattern = true := by
  obtain ⟨rest, rfl⟩ := startsWith_iff.1 h
  exact startsWith_iff.2 ⟨rest ++ tail, List.append_assoc ..⟩

theorem endsValue_append_of_true {quote : Option Char} {t : Text} (h : endsValue quote t = true) :
    endsValue quote (t ++ tail) = true := by
  cases t with
  | nil => cases h
  | cons x t =>
    cases quote with
    | some q => exact h
    | none =>
      rw [List.cons_append]
      simp only [endsValue, Bool.or_eq_true] at h ⊢
      exact h.imp_right startsWith_append_of_true

theorem map_consPart (x : Char) (parts : List AttributePart) :
    (consPart x parts).map (AttributePart.carry σ) =
      consPart x (parts.map (AttributePart.carry σ)) := by
  rcases parts with - | ⟨⟨data⟩ | ⟨e⟩, parts⟩ <;> rfl

/-- The parts of a value that ends before the text does. -/
theorem attributeParts_moved (tail : Text) (hσ : Carries g k σ) {quote : Option Char}
    {start n : Nat}
    {c stop : Cursor} {parts : List AttributePart} (hn : c.rest.length < n)
    (h : attributeParts g quote start n c = .ok (parts, stop)) (hstop : stop.rest ≠ [])
    (start' : Nat) {m : Nat} (hm : n ≤ m) :
    attributeParts g quote start' m (c.moved k tail) =
      .ok (parts.map (AttributePart.carry σ), stop.moved k tail) := by
  induction n generalizing c parts m with
  | zero => exact absurd hn (Nat.not_lt_zero _)
  | succ n ih =>
    obtain ⟨m, rfl⟩ : ∃ m', m = m' + 1 := ⟨m - 1, by omega⟩
    rw [attributeParts] at h ⊢
    cases hrest : c.rest with
    | nil =>
      simp only [hrest] at h
      cases quote with
      | some q => cases h
      | none =>
        cases h
        exact absurd hrest hstop
    | cons x t =>
      simp only [hrest] at h
      simp only [Cursor.moved_rest, hrest, List.cons_append]
      split at h
      · rename_i hends
        cases h
        rw [← List.cons_append, if_pos (endsValue_append_of_true hends)]
        rfl
      rename_i hends
      split at h
      · rename_i hopen
        obtain ⟨u, hu⟩ := startsWith_braces_iff.1 hopen
        obtain ⟨⟨content, after⟩, htake, h⟩ := bind_eq_ok_iff.1 h
        obtain ⟨e, he, h⟩ := bind_eq_ok_iff.1 h
        obtain ⟨⟨more, stop'⟩, hmore, h⟩ := bind_eq_ok_iff.1 h
        cases h
        have hlen := (takeMustache_eq_ok (hrest.trans hu) htake).four_le
        have hends' : ¬ endsValue quote (x :: (t ++ tail)) = true := by
          rw [← List.cons_append, hu, endsValue_append, ← hu]
          exact hends
        have hopen' : startsWith (x :: (t ++ tail)) "\x7b\x7b".toList = true :=
          startsWith_append_of_true hopen
        rw [if_neg hends', if_pos hopen']
        have hlen : after.rest.length < n := by omega
        have hmore := ih hlen hmore (Nat.le_of_succ_le_succ hm)
        exact bind_eq_ok_iff.2 ⟨_, takeMustache_moved (hrest.trans hu) htake,
          bind_eq_ok_iff.2 ⟨_, expressionAt_shift hσ he, bind_eq_ok_iff.2 ⟨_, hmore, rfl⟩⟩⟩
      · rename_i hopen
        obtain ⟨⟨more, stop'⟩, hmore, h⟩ := bind_eq_ok_iff.1 h
        cases h
        have hlen : t.length < n := by
          rw [hrest, List.length_cons] at hn
          omega
        -- The value ends further on, so there is one more character to look at.
        obtain ⟨y, u, rfl⟩ : ∃ y u, t = y :: u := by
          obtain ⟨read, hread⟩ := (attributeParts_reads hlen hmore).leads
          exact List.exists_cons_of_ne_nil (hread.rest_ne_nil hstop)
        have hends' : ¬ endsValue quote (x :: (y :: u ++ tail)) = true := by
          rw [← List.cons_append, endsValue_append]
          exact hends
        have hopen' : ¬ startsWith (x :: (y :: u ++ tail)) "\x7b\x7b".toList = true := by
          rw [← List.cons_append, startsWith_append (by simp)]
          exact hopen
        rw [if_neg hends', if_neg hopen', map_consPart]
        have hmore := ih hlen hmore (Nat.le_of_succ_le_succ hm)
        rw [Cursor.moved, Nat.add_right_comm] at hmore
        exact bind_eq_ok_iff.2 ⟨_, hmore, rfl⟩

/-- A value that ends before the text does. -/
theorem attributeValue_moved (tail : Text) (hσ : Carries g k σ) {c after : Cursor}
    {parts : List AttributePart}
    (h : attributeValue g c = .ok (parts, after)) (hafter : after.rest ≠ []) :
    attributeValue g (c.moved k tail) =
      .ok (parts.map (AttributePart.carry σ), after.moved k tail) := by
  unfold attributeValue at h ⊢
  cases hrest : c.rest with
  | nil =>
    rw [hrest] at h
    cases h
    exact absurd hrest hafter
  | cons q t =>
    simp only [hrest] at h
    simp only [Cursor.moved_rest, hrest, List.cons_append]
    split at h
    · rename_i hquote
      obtain ⟨⟨read, ⟨stopPos, stopRest⟩⟩, hparts, h⟩ := bind_eq_ok_iff.1 h
      cases h
      cases stopRest with
      | nil => exact absurd rfl hafter
      | cons y u =>
        have hparts := attributeParts_moved tail hσ (Nat.lt_succ_self _) hparts
          (List.cons_ne_nil _ _) (c.pos + k) (m := (t ++ tail).length + 1) (by simp)
        rw [Cursor.moved, Nat.add_right_comm] at hparts
        rw [if_pos hquote]
        refine bind_eq_ok_iff.2 ⟨_, hparts, ?_⟩
        simp only [Cursor.moved, Nat.add_right_comm _ k]
        rfl
    · rename_i hquote
      rw [if_neg hquote]
      exact attributeParts_moved tail hσ (by simp [hrest]) h hafter (c.pos + k) (by simp)

theorem attributeRest_leads {c after : Cursor} {value : Option (List AttributePart)}
    (h : attributeRest g c = .ok (value, after)) : ∃ read, c.Leads read after := by
  obtain ⟨blanks, hblanks⟩ := c.skipBlanks_leads
  unfold attributeRest at h
  dsimp only at h
  split at h
  · rename_i t hequals
    obtain ⟨⟨parts, after'⟩, hvalue, h⟩ := bind_eq_ok_iff.1 h
    cases h
    obtain ⟨blanks', hblanks'⟩ := Cursor.skipBlanks_leads ⟨c.skipBlanks.pos + 1, t⟩
    obtain ⟨read, hread⟩ := (attributeValue_reads hvalue).leads
    exact ⟨_, ((hblanks.trans (Cursor.leads_char hequals rfl)).trans hblanks').trans hread⟩
  · cases h
    exact ⟨blanks, hblanks⟩

/-- The value behind the name of an attribute, if the text goes on behind it. -/
theorem attributeRest_moved (tail : Text) (hσ : Carries g k σ) {c after : Cursor}
    {value : Option (List AttributePart)} (h : attributeRest g c = .ok (value, after))
    (hafter : after.rest ≠ []) :
    attributeRest g (c.moved k tail) =
      .ok (value.map (List.map (AttributePart.carry σ)), after.moved k tail) := by
  unfold attributeRest at h ⊢
  dsimp only at h ⊢
  split at h
  · rename_i t hequals
    obtain ⟨⟨parts, after'⟩, hvalue, h⟩ := bind_eq_ok_iff.1 h
    cases h
    obtain ⟨read, hread⟩ := (attributeValue_reads hvalue).leads
    have hblanks : (Cursor.moved k tail ⟨c.skipBlanks.pos + 1, t⟩).skipBlanks = _ :=
      Cursor.skipBlanks_moved (hread.rest_ne_nil hafter)
    have hvalue := attributeValue_moved tail hσ hvalue hafter
    rw [Cursor.skipBlanks_moved (by rw [hequals]; exact List.cons_ne_nil _ _), Cursor.moved_rest,
      hequals]
    rw [← hblanks, Cursor.moved, Nat.add_right_comm] at hvalue
    exact bind_eq_ok_iff.2 ⟨_, hvalue, rfl⟩
  · rename_i hequals
    cases h
    rw [Cursor.skipBlanks_moved hafter, Cursor.moved_rest]
    obtain ⟨x, t, hrest⟩ := List.exists_cons_of_ne_nil hafter
    rw [hrest]
    split
    · rename_i heq
      cases heq
      exact absurd hrest (hequals t)
    · rfl

theorem endsTag_append_of_true {t : Text} (ht : t ≠ []) (h : endsTag t = true) :
    endsTag (t ++ tail) = true := by
  cases t with
  | nil => exact absurd rfl ht
  | cons x t =>
    simp only [endsTag, Bool.or_eq_true] at h ⊢
    rcases h with (hnil | hend) | hend
    · cases hnil
    · exact .inl (.inr (startsWith_append_of_true hend))
    · exact .inr (startsWith_append_of_true hend)

/-- A tag does not end where the name of an attribute starts. -/
theorem not_endsTag_of_name {x : Char} {t : Text} (hx : isAttributeNameChar x = true) :
    endsTag (x :: t) = false := by
  have hne : x ≠ '>' ∧ x ≠ '/' := by
    constructor <;> rintro rfl <;> exact absurd hx (by decide)
  simp [endsTag, startsWith, hne.1, hne.2]

/-- Attributes whose tag goes on behind them. -/
theorem attributes_moved (tail : Text) (hσ : Carries g k σ) {n : Nat} {c stop : Cursor}
    {attrs : List Attribute}
    (hn : c.rest.length < n) (h : attributes g n c = .ok (attrs, stop)) (hstop : stop.rest ≠ [])
    {m : Nat} (hm : n ≤ m) :
    attributes g m (c.moved k tail) = .ok (attrs.map (Attribute.carry k σ), stop.moved k tail) := by
  induction n generalizing c attrs m with
  | zero => exact absurd hn (Nat.not_lt_zero _)
  | succ n ih =>
    obtain ⟨m, rfl⟩ : ∃ m', m = m' + 1 := ⟨m - 1, by omega⟩
    rw [attributes] at h ⊢
    dsimp only at h ⊢
    split at h
    · rename_i hends
      cases h
      rw [Cursor.skipBlanks_moved hstop, Cursor.moved_rest,
        if_pos (endsTag_append_of_true hstop hends)]
      rfl
    rename_i hends
    split at h
    · cases h
    rename_i hempty
    obtain ⟨⟨value, after⟩, hvalue, h⟩ := bind_eq_ok_iff.1 h
    obtain ⟨⟨more, stop'⟩, hmore, h⟩ := bind_eq_ok_iff.1 h
    cases h
    have hne : (c.skipBlanks.span isAttributeNameChar).1 ≠ [] := by simpa using hempty
    obtain ⟨blanks, hblanks⟩ := c.skipBlanks_leads
    have hname := c.skipBlanks.span_leads isAttributeNameChar
    obtain ⟨read, hread⟩ := attributeRest_leads hvalue
    have hlen : after.rest.length < n := by
      have hpos := List.length_pos_iff.2 hne
      have hb := hblanks.length_eq
      have hl := (hname.trans hread).length_eq
      rw [List.length_append] at hl
      omega
    -- The tag goes on behind the attributes, so the text goes on behind each part of one.
    obtain ⟨more', hmore'⟩ := (attributes_reads hlen hmore).leads
    have hafter := hmore'.rest_ne_nil hstop
    have hafterName := hread.rest_ne_nil hafter
    have hstart := hname.rest_ne_nil hafterName
    have hends' : ¬ endsTag (c.skipBlanks.rest ++ tail) = true := by
      obtain ⟨x, u, hx⟩ := List.exists_cons_of_ne_nil hne
      have hfirst :=
        c.skipBlanks.span_all isAttributeNameChar x (by rw [hx]; exact List.mem_cons_self)
      rw [hname.1, hx, List.cons_append, List.cons_append, not_endsTag_of_name hfirst]
      exact Bool.false_ne_true
    have hvalue := attributeRest_moved tail hσ hvalue hafter
    have hmore := ih hlen hmore (Nat.le_of_succ_le_succ hm)
    rw [Cursor.skipBlanks_moved hstart, Cursor.moved_rest, if_neg hends',
      Cursor.span_moved hafterName, if_neg hempty]
    exact bind_eq_ok_iff.2 ⟨_, hvalue, bind_eq_ok_iff.2 ⟨_, hmore, rfl⟩⟩

/-! ## Tags and texts -/

theorem openingTag_moved (hσ : Carries g k σ) {c : Cursor} {tag : OpeningTag} {t : Text}
    (hopen : c.rest = '<' :: t) (h : openingTag g c = .ok tag) :
    openingTag g (c.moved k tail) = .ok (tag.carry k tail σ) := by
  unfold openingTag at h ⊢
  rw [hopen, List.drop_succ_cons, List.drop_zero] at h
  rw [Cursor.moved_rest, hopen, List.cons_append, List.drop_succ_cons, List.drop_zero]
  dsimp only at h ⊢
  split at h
  · cases h
  rename_i hempty
  obtain ⟨⟨attrs, stop⟩, hattrs, h⟩ := bind_eq_ok_iff.1 h
  have hstop : stop.rest ≠ [] := by
    intro hnil
    simp only [hnil] at h
    cases h
  obtain ⟨read, hread⟩ := (attributes_reads (Nat.lt_succ_self _) hattrs).leads
  have hname : Cursor.span ⟨(c.moved k tail).pos + 1, t ++ tail⟩ isTagNameChar =
      ((Cursor.span ⟨c.pos + 1, t⟩ isTagNameChar).1,
        (Cursor.span ⟨c.pos + 1, t⟩ isTagNameChar).2.moved k tail) := by
    rw [← Cursor.span_moved (hread.rest_ne_nil hstop), Cursor.moved_pos, Nat.add_right_comm]
    rfl
  have hattrs := attributes_moved tail hσ (Nat.lt_succ_self _) hattrs hstop
    (m := ((Cursor.span ⟨c.pos + 1, t⟩ isTagNameChar).2.rest ++ tail).length + 1) (by simp)
  rw [hname, if_neg hempty]
  refine bind_eq_ok_iff.2 ⟨_, hattrs, ?_⟩
  dsimp only at h ⊢
  split at h
  · rename_i hend
    cases h
    simp only [Cursor.moved_rest, hend, List.cons_append]
    simp only [Cursor.moved_pos, Nat.add_right_comm _ k]
    rfl
  · rename_i hend
    cases h
    simp only [Cursor.moved_rest, hend, List.cons_append]
    simp only [Cursor.moved_pos, Nat.add_right_comm _ k]
    rfl
  · cases h

theorem closingTag_moved {c after : Cursor} {name t : Text} (hopen : c.rest = '<' :: '/' :: t)
    (h : closingTag c = .ok (name, after)) :
    closingTag (c.moved k tail) = .ok (name, after.moved k tail) := by
  simp only [closingTag, hopen, List.drop_succ_cons, List.drop_zero] at h
  simp only [closingTag, Cursor.moved_rest, hopen, List.cons_append, List.drop_succ_cons,
    List.drop_zero]
  have hstop : (Cursor.span ⟨c.pos + 2, t⟩ isTagNameChar).2.skipBlanks.rest ≠ [] := by
    intro hnil
    rw [hnil] at h
    split at h
    · cases h
    · contradiction
    · cases h
  obtain ⟨blanks, hblanks⟩ := (Cursor.span ⟨c.pos + 2, t⟩ isTagNameChar).2.skipBlanks_leads
  have hname : Cursor.span ⟨(c.moved k tail).pos + 2, t ++ tail⟩ isTagNameChar =
      ((Cursor.span ⟨c.pos + 2, t⟩ isTagNameChar).1,
        (Cursor.span ⟨c.pos + 2, t⟩ isTagNameChar).2.moved k tail) := by
    rw [← Cursor.span_moved (hblanks.rest_ne_nil hstop), Cursor.moved_pos, Nat.add_right_comm]
    rfl
  rw [hname, Cursor.skipBlanks_moved hstop]
  split at h
  · cases h
  · rename_i hrest hne
    cases h
    simp only [Cursor.moved_rest, hrest, List.cons_append]
    simp only [Cursor.moved, Nat.add_right_comm _ k]
  · cases h

theorem find?_append {pattern t before rest : Text} (h : find? pattern t = some (before, rest)) :
    find? pattern (t ++ tail) = some (before, rest ++ tail) := by
  induction t generalizing before with
  | nil =>
    cases pattern with
    | nil =>
      cases h
      cases tail with
      | nil => rfl
      | cons x tail => simp [find?, startsWith]
    | cons p pattern => cases h
  | cons c t ih =>
    rw [find?] at h
    split at h
    · rename_i hstart
      cases h
      rw [List.cons_append, find?, ← List.cons_append, if_pos (startsWith_append_of_true hstart)]
    · rename_i hstart
      obtain ⟨⟨before', rest'⟩, hfind, heq⟩ := Option.map_eq_some_iff.1 h
      cases heq
      -- The pattern is found further on, so it does not reach over the end of the text here.
      obtain ⟨ht, hfound⟩ := find?_eq_some hfind
      obtain ⟨more, hmore⟩ := startsWith_iff.1 hfound
      have hlen : pattern.length ≤ (c :: t).length := by
        rw [ht, hmore, List.length_cons, List.length_append, List.length_append]
        omega
      rw [List.cons_append, find?, ← List.cons_append, startsWith_append hlen, if_neg hstart,
        ih hfind]
      rfl

theorem startsMarkup_cons_cons (a b : Char) (t : Text) :
    startsMarkup (a :: b :: t) = ((a == '\x7b' && b == '\x7b') ||
      (a == '<' && (isAsciiLetter b || b == '/' || (b == '!' && startsWith t "--".toList)))) := by
  rw [startsMarkup]
  by_cases ha : a = '<'
  · subst ha
    simp [startsTag, startsWith]
  · have htag : startsTag (a :: b :: t) = false := by
      unfold startsTag
      split
      · rename_i heq
        cases heq
        exact absurd rfl ha
      · rfl
    simp [htag, startsWith, ha]

/-- Whether markup starts in front of other markup is seen before that ends. -/
theorem startsMarkup_append (tail : Text) {t rest : Text} (ht : t ≠ [])
    (hrest : startsMarkup rest = true) :
    startsMarkup (t ++ rest ++ tail) = startsMarkup (t ++ rest) := by
  obtain ⟨x, y, rest, rfl, hx⟩ : ∃ x y rest', rest = x :: y :: rest' ∧ (x = '\x7b' ∨ x = '<') := by
    rcases startsMarkup_iff.1 hrest with ⟨rest', rfl⟩ | ⟨y, rest', rfl, -⟩
    · exact ⟨_, _, _, rfl, .inl rfl⟩
    · exact ⟨_, _, _, rfl, .inr rfl⟩
  -- Only what opens a comment is longer, and no markup starts with the rest of it.
  have hx : (x == '!') = false := by
    rcases hx with rfl | rfl <;> decide
  rcases t with - | ⟨a, - | ⟨b, - | ⟨c, - | ⟨d, t⟩⟩⟩⟩
  · exact absurd rfl ht
  · simp [startsMarkup_cons_cons, hx]
  · simp [startsMarkup_cons_cons, startsWith]
  · simp [startsMarkup_cons_cons, startsWith]
  · simp [startsMarkup_cons_cons, startsWith]

theorem startsMarkup_append_of_true {t : Text} (h : startsMarkup t = true) :
    startsMarkup (t ++ tail) = true := by
  rcases startsMarkup_iff.1 h with ⟨rest, rfl⟩ | ⟨x, rest, rfl, hx⟩
  · exact startsMarkup_iff.2 (.inl ⟨_, rfl⟩)
  · refine startsMarkup_iff.2 (.inr ⟨x, _, rfl, hx.imp_right (Or.imp_right ?_)⟩)
    rintro ⟨rest', heq⟩
    exact ⟨rest' ++ tail, congrArg (· ++ tail) heq⟩

/-- A text up to markup. -/
theorem splitText_append {t : Text} (h : startsMarkup (splitText t).2 = true) :
    splitText (t ++ tail) = ((splitText t).1, (splitText t).2 ++ tail) := by
  induction t with
  | nil => cases h
  | cons c t ih =>
    rw [splitText] at h
    rw [List.cons_append, splitText, splitText]
    split at h
    · rename_i hmarkup
      rw [← List.cons_append, if_pos (startsMarkup_append_of_true hmarkup), if_pos hmarkup]
    · rename_i hmarkup
      have hplain : ¬ startsMarkup (c :: (t ++ tail)) = true := by
        have happend := startsMarkup_append tail (t := c :: (splitText t).1)
          (List.cons_ne_nil _ _) h
        rw [List.cons_append, ← (splitText_eq t).1, List.cons_append] at happend
        rw [happend]
        exact hmarkup
      rw [if_neg hplain, if_neg hmarkup, ih h]

/-- A piece that ends before the source does, whatever follows it. -/
def Piece.Ends (after : Cursor) : Piece → Prop
  | .stop .endOfSource => False
  | .text data => isComment data = false → after.rest ≠ []
  | .stop _ | .tag _ | .opensIf _ | .opensEach _ _ _ | .opens _ => True

theorem Piece.ends_stop (after : Cursor) {s : Stop} (h : s ≠ .endOfSource) :
    (Piece.stop s).Ends after := by
  cases s with
  | endOfSource => exact absurd rfl h
  | closingTag | closes | alternative | alternativeIf => exact trivial

/-- A text that runs up to markup, or up to the end of a source that does not go on. -/
theorem nextPiece_moved_text {c after : Cursor} {data : Text}
    (h : nextPiece g c = .ok (.text data, after)) (hplain : startsMarkup c.rest = false)
    (hafter : tail = [] ∨ after.rest ≠ []) :
    nextPiece g (c.moved k tail) = .ok (.text data, after.moved k tail) := by
  obtain ⟨hlead, hne⟩ := nextPiece_text h
  have hrest : c.rest ≠ [] := by
    rw [hlead.1]
    simp [hne]
  rw [nextPiece_eq_readText hrest hplain] at h
  obtain ⟨x, t, hxt⟩ := List.exists_cons_of_ne_nil hrest
  have hread : readText c = (data, after) := by
    cases h
    rfl
  rw [readText, hxt] at hread
  cases hread
  have hsplit : splitText (t ++ tail) = ((splitText t).1, (splitText t).2 ++ tail) ∧
      startsMarkup (c.rest ++ tail) = false := by
    rcases hafter with rfl | hafter
    · rw [List.append_nil, List.append_nil, List.append_nil]
      exact ⟨rfl, hplain⟩
    · have hmarkup := (splitText_eq t).2.resolve_right hafter
      refine ⟨splitText_append hmarkup, ?_⟩
      rw [hlead.1]
      exact (startsMarkup_append _ hne hmarkup).trans (hlead.1 ▸ hplain)
  have hmoved : readText (c.moved k tail) =
      (x :: (splitText t).1, (c.skip (x :: (splitText t).1) (splitText t).2).moved k tail) := by
    rw [readText, Cursor.moved_rest, hxt]
    simp only [List.cons_append, hsplit.1, Cursor.skip, Cursor.moved, Nat.add_right_comm _ k]
  rw [nextPiece_eq_readText (by simp [hrest]) hsplit.2, hmoved]

/-- The next piece of a source is read the same where the source is moved and goes on, unless it is
what runs up to the end of the source. -/
theorem nextPiece_moved (hσ : Carries g k σ) {c after : Cursor} {p : Piece}
    (h : nextPiece g c = .ok (p, after)) (hp : tail = [] ∨ p.Ends after) :
    nextPiece g (c.moved k tail) = .ok (p.carry k tail σ, after.moved k tail) := by
  by_cases hmarkup : startsMarkup c.rest = true
  · rcases startsMarkup_iff.1 hmarkup with ⟨t, hopen⟩ | ⟨x, t, hopen, hx | rfl | ⟨u, hcomment⟩⟩
    · rw [nextPiece_braces hopen] at h
      obtain ⟨⟨m, after'⟩, hm, h⟩ := bind_eq_ok_iff.1 h
      cases h
      have hm := readMustache_moved tail hσ hopen hm
      rw [nextPiece_braces (by rw [Cursor.moved_rest, hopen]; rfl), ← m.piece_carry]
      exact bind_eq_ok_iff.2 ⟨_, hm, rfl⟩
    · rw [nextPiece_opening hopen hx] at h
      obtain ⟨tag, htag, h⟩ := bind_eq_ok_iff.1 h
      cases h
      rw [nextPiece_opening (by rw [Cursor.moved_rest, hopen]; rfl) hx]
      exact bind_eq_ok_iff.2 ⟨_, openingTag_moved hσ hopen htag, rfl⟩
    · rw [nextPiece_closing hopen] at h
      obtain ⟨⟨name, after'⟩, hname, h⟩ := bind_eq_ok_iff.1 h
      cases h
      rw [nextPiece_closing (by rw [Cursor.moved_rest, hopen]; rfl)]
      exact bind_eq_ok_iff.2 ⟨_, closingTag_moved hopen hname, rfl⟩
    · rw [hcomment] at hopen
      rw [nextPiece_comment hopen] at h
      rw [nextPiece_comment (by rw [Cursor.moved_rest, hopen]; rfl)]
      split at h
      · cases h
      · rename_i before rest hfind
        cases h
        obtain ⟨more, rfl⟩ := startsWith_iff.1 (find?_eq_some hfind).2
        rw [Cursor.moved_rest, find?_append hfind]
        simp only [Cursor.skip, Cursor.moved, Nat.add_right_comm _ k]
        rfl
  · rw [Bool.not_eq_true] at hmarkup
    cases hrest : c.rest with
    | nil =>
      rw [nextPiece_nil hrest] at h
      cases h
      rcases hp with rfl | hp
      · rw [nextPiece_nil (by rw [Cursor.moved_rest, hrest]; rfl)]
        rfl
      · cases hp
    | cons x t =>
      have hread : p = .text (readText c).1 := by
        rw [nextPiece_eq_readText (by simp [hrest]) hmarkup] at h
        cases h
        rfl
      subst hread
      refine nextPiece_moved_text h hmarkup (hp.imp_right fun hends => hends ?_)
      rw [Bool.eq_false_iff]
      intro hcomment
      obtain ⟨body, hbody⟩ := startsWith_iff.1 hcomment
      have hopens : OpensTag ("<!--".toList ++ body) := .comment
      rw [(nextPiece_text h).1.1, hbody, hopens.startsMarkup_append] at hmarkup
      cases hmarkup

/-! ## Nodes -/

/-- At the end of the source there are no nodes. -/
theorem ReadsNodes.of_rest {depth : Nat} {found : Found} {c : Cursor} {r : Children}
    (h : ReadsNodes g depth found c r) (hrest : c.rest = []) :
    r.stop = .endOfSource ∧ r.nodes = [] := by
  have hnil := nextPiece_nil (g := g) hrest
  cases h with
  | stop h =>
    rw [hnil] at h
    cases h
    exact ⟨rfl, rfl⟩
  | text h | tag h | opensIf h | opensEach h | raw h | single h | element h =>
    rw [hnil] at h
    cases h

/-- No script and no style. -/
def Found.nothing : Found := ⟨none, none⟩

theorem rawBlock_ne_nothing {name : Text} {start : Nat} {selfClosing : Bool} {found found' : Found}
    {c after : Cursor} (h : rawBlock g name start selfClosing found c = .ok (found', after)) :
    found' ≠ .nothing := by
  obtain ⟨⟨content, after'⟩, -, h⟩ := bind_eq_ok_iff.1 h
  dsimp only at h
  split at h
  · split at h
    · cases h
    · cases h
      exact fun hnothing => nomatch congrArg Found.style hnothing
  · split at h
    · cases h
    · split at h
      · cases h
      · cases h
        exact fun hnothing => nomatch congrArg Found.script hnothing

/-- A script or style that is found stays found. -/
theorem ReadsNodes.found_nothing {depth : Nat} {found : Found} {c : Cursor} {r : Children} :
    ReadsNodes g depth found c r → r.found = .nothing → found = .nothing
  | .stop _, hr => hr
  | .text _ hrest, hr | .tag _ hrest, hr | .single _ _ _ hrest, hr => hrest.found_nothing hr
  | .opensIf _ hblock hrest, hr => hblock.found_eq ▸ hrest.found_nothing hr
  | .opensEach _ hbody _ hrest, hr | .element _ _ _ hbody _ hrest, hr =>
    hbody.found_eq (Nat.succ_ne_zero _) ▸ hrest.found_nothing hr
  | .raw _ _ hblock hrest, hr => absurd (hrest.found_nothing hr) (rawBlock_ne_nothing hblock)

mutual

/-- Nodes without scripts and styles are read the same where the source is moved and goes on, if
they do not run up to the end of the source. -/
theorem ReadsNodes.moved (hσ : Carries g k σ) {depth : Nat} {found : Found} {c : Cursor}
    {r : Children} :
    ReadsNodes g depth found c r → r.found = .nothing → (tail = [] ∨ r.stop ≠ .endOfSource) →
      ReadsNodes g depth found (c.moved k tail) (r.carry k tail σ)
  | .stop h, _, hend => .stop (nextPiece_moved hσ h (hend.imp_right (Piece.ends_stop _)))
  | .text h hrest, hr, hend => by
    refine .text (nextPiece_moved hσ h (hend.imp_right fun hstop _ hnil => ?_))
      (hrest.moved hσ hr hend)
    exact hstop (hrest.of_rest hnil).1
  | .tag h hrest, hr, hend =>
    .tag (nextPiece_moved hσ h (.inr trivial)) (hrest.moved hσ hr hend)
  | .opensIf h hblock hrest, hr, hend =>
    .opensIf (nextPiece_moved hσ h (.inr trivial)) (hblock.moved hσ (hrest.found_nothing hr))
      (hrest.moved hσ hr hend)
  | .opensEach h hbody hclose hrest, hr, hend => by
    have hbody := hbody.moved hσ (hrest.found_nothing hr)
      (.inr (by rw [hclose]; nofun))
    refine .opensEach (nextPiece_moved hσ h (.inr trivial)) hbody ?_ (hrest.moved hσ hr hend)
    exact congrArg (Stop.carry σ) hclose
  | .raw h hraw hblock hrest, hr, _ =>
    absurd (hrest.found_nothing hr) (rawBlock_ne_nothing hblock)
  | .single h hraw hsingle hrest, hr, hend =>
    .single (nextPiece_moved hσ h (.inr trivial)) hraw hsingle (hrest.moved hσ hr hend)
  | .element h hraw hsingle hbody hclose hrest, hr, hend => by
    have hbody := hbody.moved hσ (hrest.found_nothing hr)
      (.inr (by rw [hclose]; nofun))
    refine .element (nextPiece_moved hσ h (.inr trivial)) hraw hsingle hbody ?_
      (hrest.moved hσ hr hend)
    exact congrArg (Stop.carry σ) hclose

/-- A conditional block is read the same where the source is moved and goes on. -/
theorem ReadsIf.moved (hσ : Carries g k σ) {depth start : Nat} {test : Expr}
    {found found' : Found} {c after : Cursor} {node : Node} :
    ReadsIf g depth test start found c node found' after → found' = .nothing →
      ReadsIf g depth (σ test) (start + k) found (c.moved k tail) (node.carry k σ) found'
        (after.moved k tail)
  | .plain hbody hclose, hr => by
    have hbody := hbody.moved hσ hr (.inr (by rw [hclose]; nofun))
    exact .plain hbody (congrArg (Stop.carry σ) hclose)
  | .alternative hbody hstop hother hclose, hr => by
    have hbody := hbody.moved hσ (hother.found_nothing hr)
      (.inr (by rw [hstop]; nofun))
    have hother := hother.moved hσ hr (.inr (by rw [hclose]; nofun))
    exact .alternative hbody (congrArg (Stop.carry σ) hstop) hother
      (congrArg (Stop.carry σ) hclose)
  | .alternativeIf hbody hstop hnested, hr => by
    have hbody := hbody.moved hσ (hnested.found_eq ▸ hr)
      (.inr (by rw [hstop]; nofun))
    exact .alternativeIf hbody (congrArg (Stop.carry σ) hstop) (hnested.moved hσ hr)

end

end Readers

end TemplateCompiler
