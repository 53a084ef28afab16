import TemplateCompiler.Proofs.Template.Nodes

/-!
# The shape of what is read

What the readers guarantee about the parts of a template: names are made of the characters of names,
the texts of a value are separated by expressions, text is never empty, void elements have no
children, and inside of an element or block a text that ends in a dollar sign is not followed by a text
that starts with a brace.

## What this module delivers

* `AttributeFormed`, `NodeFormed`, `Seamless`: the shapes.
* `ReadsNodes.formed`, `readTemplate_formed`: nodes that are read have them.
-/

set_option autoImplicit false

namespace TemplateCompiler

open Script

variable {g : Grammar}

/-! ## Attributes -/

/-- The texts of a value are separated by expressions. -/
def Separated : List AttributePart → Prop
  | .text _ :: .text _ :: _ => False
  | _ :: rest => Separated rest
  | [] => True

theorem separated_consPart {parts : List AttributePart} (x : Char) (h : Separated parts) :
    Separated (consPart x parts) := by
  rcases parts with - | ⟨⟨data⟩ | ⟨e⟩, parts⟩
  · exact trivial
  · cases parts with
    | nil => exact trivial
    | cons part parts =>
      cases part with
      | text data' => exact h
      | expr e => exact h
  · exact h

theorem ReadsParts.separated {quote : Option Char} {c stop : Cursor} {parts : List AttributePart}
    (h : ReadsParts g quote c parts stop) : Separated parts := by
  induction h with
  | stop => exact trivial
  | expr _ _ _ _ ih => exact ih
  | char _ _ _ _ ih => exact separated_consPart _ ih

/-- An attribute with a name, whose texts are separated by expressions. -/
structure AttributeFormed (a : Attribute) : Prop where
  name_ne_nil : a.name ≠ []
  name_chars : ∀ c ∈ a.name, isAttributeNameChar c = true
  separated : Separated (a.value.getD [])

theorem ReadsValue.separated {c after : Cursor} {parts : List AttributePart}
    (h : ReadsValue g c parts after) : Separated parts := by
  cases h with
  | quoted _ _ hparts _ => exact hparts.separated
  | bare hparts => exact hparts.separated

theorem ReadsAttribute.formed {c after : Cursor} {a : Attribute} (h : ReadsAttribute g c a after) :
    AttributeFormed a := by
  have hall := c.span_all isAttributeNameChar
  cases h with
  | switch hname hne _ =>
    rw [hname] at hall
    exact ⟨hne, hall, trivial⟩
  | valued hname hne _ hvalue =>
    rw [hname] at hall
    exact ⟨hne, hall, hvalue.separated⟩

theorem ReadsAttributes.formed {c stop : Cursor} {attrs : List Attribute}
    (h : ReadsAttributes g c attrs stop) : ∀ a ∈ attrs, AttributeFormed a := by
  induction h with
  | stop => exact fun a ha => nomatch ha
  | cons _ ha _ ih =>
    intro b hb
    rcases List.mem_cons.1 hb with rfl | hb
    · exact ha.formed
    · exact ih b hb

/-! ## Nodes -/

/-- A name of an element. -/
def TagNamed (name : Text) : Prop :=
  name ≠ [] ∧ ∀ c ∈ name, isTagNameChar c = true

/-- A text that ends in a dollar sign is not followed by a text that starts with a brace. -/
def Seamless : List Node → Prop
  | .text d _ :: .text e s :: rest =>
    ¬(d.getLast? = some '$' ∧ e.head? = some '\x7b') ∧ Seamless (.text e s :: rest)
  | _ :: rest => Seamless rest
  | [] => True

mutual

/-- A node whose names and texts have their shape, and all the nodes in it. -/
def NodeFormed : Node → Prop
  | .element name attrs children _ =>
    TagNamed name ∧ (∀ a ∈ attrs, AttributeFormed a) ∧ NodesFormed children ∧ Seamless children ∧
      (isVoidElement name = true → children = [])
  | .text data _ => data ≠ []
  | .mustache _ _ => True
  | .ifBlock _ children alternative _ =>
    NodesFormed children ∧ Seamless children ∧ AlternativeFormed alternative
  | .eachBlock _ item index children _ =>
    isIdentifier item.name = true ∧ (∀ i ∈ index, isIdentifier i.name = true) ∧
      NodesFormed children ∧ Seamless children

/-- Nodes that all have their shape. -/
def NodesFormed : List Node → Prop
  | [] => True
  | n :: rest => NodeFormed n ∧ NodesFormed rest

/-- An alternative whose nodes have their shape. -/
def AlternativeFormed : Option (List Node) → Prop
  | none => True
  | some nodes => NodesFormed nodes ∧ Seamless nodes

end

/-! ## Pieces -/

theorem bindingsAt_identifiers {offset : Nat} {pieces : List Text} {bindings : List BlockBinding}
    (h : bindingsAt offset pieces = .ok bindings) : ∀ b ∈ bindings, isIdentifier b.name = true := by
  induction pieces generalizing offset bindings with
  | nil =>
    cases h
    exact fun b hb => nomatch hb
  | cons piece pieces ih =>
    unfold bindingsAt at h
    dsimp only at h
    split at h
    · rename_i hname
      obtain ⟨rest, hrest, h⟩ := bind_eq_ok_iff.1 h
      cases h
      intro b hb
      rcases List.mem_cons.1 hb with rfl | hb
      · exact hname
      · exact ih hrest b hb
    · cases h

/-- The names that the header of an each block binds are identifiers. -/
def Mustache.Named : Mustache → Prop
  | .opensEach _ item index =>
    isIdentifier item.name = true ∧ ∀ i ∈ index, isIdentifier i.name = true
  | .tag _ | .opensIf _ | .closes _ | .alternative | .alternativeIf _ => True

theorem eachHeader_named {c : Cursor} {m : Mustache} (h : eachHeader g c = .ok m) : m.Named := by
  unfold eachHeader at h
  split at h
  · cases h
  · obtain ⟨iterable, -, h⟩ := bind_eq_ok_iff.1 h
    obtain ⟨bindings, hbindings, h⟩ := bind_eq_ok_iff.1 h
    have hnames := bindingsAt_identifiers hbindings
    split at h
    · cases h
      exact ⟨hnames _ List.mem_cons_self, fun i hi => nomatch hi⟩
    · cases h
      refine ⟨hnames _ List.mem_cons_self, ?_⟩
      rintro i hi
      cases hi
      exact hnames _ (List.mem_cons_of_mem _ List.mem_cons_self)
    · cases h

theorem mustacheOf_named {content : Cursor} {m : Mustache} {start stop : Nat}
    (h : mustacheOf g content start stop = .ok m) : m.Named := by
  unfold mustacheOf at h
  dsimp only at h
  split at h
  · unfold blockHeader at h
    dsimp only at h
    split at h
    · obtain ⟨test, -, h⟩ := bind_eq_ok_iff.1 h
      cases h
      exact trivial
    · split at h
      · exact eachHeader_named h
      · cases h
  · cases h
    exact trivial
  · split at h
    · rename_i result hresult
      obtain ⟨t, -, halternative⟩ := Option.bind_eq_some_iff.1 hresult
      subst h
      unfold alternative? at halternative
      split at halternative
      · cases halternative
        exact trivial
      · dsimp only at halternative
        split at halternative
        · split at halternative
          · rename_i b u _ _
            cases he : expressionAt g ⟨(Cursor.skipBlanks ⟨content.skipBlanks.pos + 4, t⟩).pos + 2,
                b :: u⟩ with
            | error err =>
              rw [he] at halternative
              cases halternative
            | ok e =>
              rw [he] at halternative
              cases halternative
              exact trivial
          · cases halternative
        · cases halternative
    · obtain ⟨e, -, h⟩ := bind_eq_ok_iff.1 h
      cases h
      exact trivial

/-- The names of a piece have their shape. -/
def Piece.Named : Piece → Prop
  | .opensEach _ item index =>
    isIdentifier item.name = true ∧ ∀ i ∈ index, isIdentifier i.name = true
  | .opens opening => TagNamed opening.name ∧ ∀ a ∈ opening.attributes, AttributeFormed a
  | .text data => data ≠ []
  | .stop _ | .tag _ | .opensIf _ => True

theorem nextPiece_named {c after : Cursor} {p : Piece} (h : nextPiece g c = .ok (p, after)) :
    p.Named := by
  cases nextPiece_read h with
  | @mustache _ _ m _ hm =>
    have hnamed := mustacheOf_named hm
    cases m <;> exact hnamed
  | opens htag =>
    obtain ⟨-, hname, hne, hattrs, -⟩ := htag
    rename_i t _ _ _ _ _
    have hall := Cursor.span_all ⟨c.pos + 1, t⟩ isTagNameChar
    rw [hname] at hall
    exact ⟨⟨hne, hall⟩, hattrs.formed⟩
  | comment => exact List.cons_ne_nil _ _
  | text _ hne => exact hne
  | endOfSource | closing => exact trivial

theorem Mustache.piece_ne_text (m : Mustache) (d : Text) : m.piece ≠ .text d := by
  cases m <;> nofun

/-- Two texts follow each other only next to a comment. -/
theorem nextPiece_seamless {c mid after : Cursor} {d e : Text}
    (h : nextPiece g c = .ok (.text d, mid)) (h' : nextPiece g mid = .ok (.text e, after)) :
    ¬(d.getLast? = some '$' ∧ e.head? = some '\x7b') := by
  rintro ⟨hlast, hhead⟩
  have hread := nextPiece_read h
  have hread' := nextPiece_read h'
  generalize hd : Piece.text d = p at hread
  generalize he : Piece.text e = p' at hread'
  cases hread with
  | @comment body _ _ =>
    cases hd
    have hend : ('<' :: body ++ "-->".toList).getLast? = some '>' := by
      rw [List.getLast?_append]
      rfl
    rw [hend] at hlast
    cases hlast
  | text hlead hne hstart hstop =>
    cases hd
    cases hread' with
    | comment hrest =>
      cases he
      cases hhead
    | text hlead' hne' hstart' hstop' =>
      -- The first text runs up to markup, and there the second one cannot start.
      rcases hstop with hstop | hstop
      · rw [hstop] at hstart'
        cases hstart'
      · rw [hlead'.1] at hstop
        exact hne' (List.append_eq_nil_iff.1 hstop).1
    | @mustache _ _ m => exact m.piece_ne_text e he.symm
    | endOfSource | closing | opens => cases he
  | @mustache _ _ m => exact m.piece_ne_text d hd.symm
  | endOfSource | closing | opens => cases hd

/-! ## Nodes that are read -/

/-- A node in front of others, where it is no text. -/
theorem seamless_cons {n : Node} {rest : List Node} (hn : ∀ d s, n ≠ .text d s)
    (h : Seamless rest) : Seamless (n :: rest) := by
  cases n with
  | text d s => exact absurd rfl (hn d s)
  | element | mustache | ifBlock | eachBlock => exact h

theorem Seamless.tail {n : Node} {rest : List Node} (h : Seamless (n :: rest)) : Seamless rest := by
  cases n with
  | text d s =>
    rcases rest with - | ⟨⟨⟩, rest⟩
    all_goals first | exact trivial | exact h.2 | exact h
  | element | mustache | ifBlock | eachBlock => exact h

/-- A text in front of a node that is no text. -/
theorem seamless_text_cons {d : Text} {s : Span} {n : Node} {rest : List Node}
    (hn : ∀ e s, n ≠ .text e s) (h : Seamless (n :: rest)) :
    Seamless (.text d s :: n :: rest) := by
  cases n with
  | text e s => exact absurd rfl (hn e s)
  | element | mustache | ifBlock | eachBlock => exact h

theorem ReadsIf.not_text {depth start : Nat} {test : Expr} {found found' : Found} {c after : Cursor}
    {node : Node} (h : ReadsIf g depth test start found c node found' after) (d : Text) (s : Span) :
    node ≠ .text d s := by
  cases h with
  | plain | alternative | alternativeIf => nofun

mutual

/-- The nodes that are read have their shape, and inside of an element or block no two texts meet
at a dollar sign and a brace. -/
theorem ReadsNodes.formed {depth : Nat} {found : Found} {c : Cursor} {r : Children} :
    ReadsNodes g depth found c r → NodesFormed r.nodes ∧ (depth ≠ 0 → Seamless r.nodes)
  | .stop _ => ⟨trivial, fun _ => trivial⟩
  | .text h hrest => by
    refine ⟨⟨nextPiece_named h, hrest.formed.1⟩, fun hd => ?_⟩
    have hmore := hrest.formed.2 hd
    cases hrest with
    | stop => exact trivial
    | text h' => exact ⟨nextPiece_seamless h h', hmore⟩
    | opensIf _ hblock => exact seamless_text_cons hblock.not_text hmore
    | raw => exact absurd rfl hd
    | tag | opensEach | single | element => exact hmore
  | .tag h hrest => ⟨⟨trivial, hrest.formed.1⟩, hrest.formed.2⟩
  | .opensIf h hblock hrest =>
    ⟨⟨hblock.formed, hrest.formed.1⟩, fun hd => seamless_cons hblock.not_text (hrest.formed.2 hd)⟩
  | .opensEach h hbody _ hrest => by
    obtain ⟨hitem, hindex⟩ := nextPiece_named h
    exact ⟨⟨⟨hitem, hindex, hbody.formed.1, hbody.formed.2 (Nat.succ_ne_zero _)⟩, hrest.formed.1⟩,
      hrest.formed.2⟩
  | .raw _ _ _ hrest => hrest.formed
  | .single h _ _ hrest => by
    obtain ⟨hname, hattrs⟩ := nextPiece_named h
    exact ⟨⟨⟨hname, hattrs, trivial, trivial, fun _ => rfl⟩, hrest.formed.1⟩, hrest.formed.2⟩
  | .element h _ hsingle hbody _ hrest => by
    obtain ⟨hname, hattrs⟩ := nextPiece_named h
    have hvoid := (Bool.or_eq_false_iff.1 hsingle).2
    refine ⟨⟨⟨hname, hattrs, hbody.formed.1, hbody.formed.2 (Nat.succ_ne_zero _), fun h => ?_⟩,
      hrest.formed.1⟩, hrest.formed.2⟩
    rw [hvoid] at h
    cases h

/-- A conditional block that is read has its shape. -/
theorem ReadsIf.formed {depth start : Nat} {test : Expr} {found found' : Found} {c after : Cursor}
    {node : Node} : ReadsIf g depth test start found c node found' after → NodeFormed node
  | .plain hbody _ => ⟨hbody.formed.1, hbody.formed.2 (Nat.succ_ne_zero _), trivial⟩
  | .alternative hbody _ hother _ =>
    ⟨hbody.formed.1, hbody.formed.2 (Nat.succ_ne_zero _), hother.formed.1,
      hother.formed.2 (Nat.succ_ne_zero _)⟩
  | .alternativeIf hbody _ hnested =>
    ⟨hbody.formed.1, hbody.formed.2 (Nat.succ_ne_zero _), ⟨hnested.formed, trivial⟩,
      seamless_cons hnested.not_text trivial⟩

end

/-- The nodes of a template that is read have their shape. -/
theorem readTemplate_formed {source : Text} {t : Template} (h : readTemplate g source = .ok t) :
    NodesFormed t.nodes := by
  obtain ⟨r, hr, -, rfl⟩ := readTemplate_reads h
  exact hr.formed.1

end TemplateCompiler
