import TemplateCompiler.Proofs.Template.Reading

/-!
# How nodes are read

The rules for nodes follow the pieces of the source: an element or block is read with the children in
it, up to what ends it, and then the nodes after it are read.

## What this module delivers

* `ReadsNodes`, `ReadsIf`: the rules for nodes and conditional blocks.
* `children_reads`, `ifBlock_reads`: the readers follow the rules if their bound is large enough.
* `readTemplate_reads`: a template that is read follows the rules.
-/

set_option autoImplicit false

namespace TemplateCompiler

open Script

variable {g : Grammar}

/-! ## Rules -/

mutual

/-- Reading the nodes at a cursor, with the script and style found before, up to what stops them. -/
inductive ReadsNodes (g : Grammar) : Nat → Found → Cursor → Children → Prop where
  | stop {depth : Nat} {found : Found} {c after : Cursor} {s : Stop}
    (h : nextPiece g c = .ok (.stop s, after)) :
    ReadsNodes g depth found c ⟨[], s, c.pos, found, after⟩
  | text {depth : Nat} {found : Found} {c after : Cursor} {data : Text} {rest : Children}
    (h : nextPiece g c = .ok (.text data, after)) (hrest : ReadsNodes g depth found after rest) :
    ReadsNodes g depth found c (rest.cons (.text data ⟨c.pos, after.pos⟩))
  | tag {depth : Nat} {found : Found} {c after : Cursor} {e : Expr} {rest : Children}
    (h : nextPiece g c = .ok (.tag e, after)) (hrest : ReadsNodes g depth found after rest) :
    ReadsNodes g depth found c (rest.cons (.mustache e ⟨c.pos, after.pos⟩))
  | opensIf {depth : Nat} {found found' : Found} {c header after : Cursor} {test : Expr}
    {node : Node} {rest : Children} (h : nextPiece g c = .ok (.opensIf test, header))
    (hblock : ReadsIf g depth test c.pos found header node found' after)
    (hrest : ReadsNodes g depth found' after rest) : ReadsNodes g depth found c (rest.cons node)
  | opensEach {depth : Nat} {found : Found} {c header : Cursor} {iterable : Expr}
    {item : BlockBinding} {index : Option BlockBinding} {body rest : Children}
    (h : nextPiece g c = .ok (.opensEach iterable item index, header))
    (hbody : ReadsNodes g (depth + 1) found header body)
    (hclose : body.stop = .closes "each".toList)
    (hrest : ReadsNodes g depth body.found body.after rest) :
    ReadsNodes g depth found c
      (rest.cons (.eachBlock iterable item index body.nodes ⟨c.pos, body.after.pos⟩))
  /-- A script or style at the top level is kept apart. -/
  | raw {found found' : Found} {c after after' : Cursor} {tag : OpeningTag} {rest : Children}
    (h : nextPiece g c = .ok (.opens tag, after)) (hraw : isRawElement tag.name = true)
    (hblock : rawBlock g tag.name c.pos tag.selfClosing found after = .ok (found', after'))
    (hrest : ReadsNodes g 0 found' after' rest) : ReadsNodes g 0 found c rest
  /-- An element without children. -/
  | single {depth : Nat} {found : Found} {c after : Cursor} {tag : OpeningTag} {rest : Children}
    (h : nextPiece g c = .ok (.opens tag, after)) (hraw : isRawElement tag.name = false)
    (hsingle : (tag.selfClosing || isVoidElement tag.name) = true)
    (hrest : ReadsNodes g depth found after rest) :
    ReadsNodes g depth found c
      (rest.cons (.element tag.name tag.attributes [] ⟨c.pos, after.pos⟩))
  | element {depth : Nat} {found : Found} {c after : Cursor} {tag : OpeningTag}
    {body rest : Children} (h : nextPiece g c = .ok (.opens tag, after))
    (hraw : isRawElement tag.name = false)
    (hsingle : (tag.selfClosing || isVoidElement tag.name) = false)
    (hbody : ReadsNodes g (depth + 1) found after body)
    (hclose : body.stop = .closingTag tag.name)
    (hrest : ReadsNodes g depth body.found body.after rest) :
    ReadsNodes g depth found c
      (rest.cons (.element tag.name tag.attributes body.nodes ⟨c.pos, body.after.pos⟩))

/-- Reading a conditional block from the end of its header. -/
inductive ReadsIf (g : Grammar) :
    Nat → Expr → Nat → Found → Cursor → Node → Found → Cursor → Prop where
  | plain {depth start : Nat} {test : Expr} {found : Found} {c : Cursor} {body : Children}
    (hbody : ReadsNodes g (depth + 1) found c body) (hclose : body.stop = .closes "if".toList) :
    ReadsIf g depth test start found c (.ifBlock test body.nodes none ⟨start, body.after.pos⟩)
      body.found body.after
  | alternative {depth start : Nat} {test : Expr} {found : Found} {c : Cursor}
    {body other : Children} (hbody : ReadsNodes g (depth + 1) found c body)
    (hstop : body.stop = .alternative)
    (hother : ReadsNodes g (depth + 1) body.found body.after other)
    (hclose : other.stop = .closes "if".toList) :
    ReadsIf g depth test start found c
      (.ifBlock test body.nodes (some other.nodes) ⟨start, other.after.pos⟩) other.found other.after
  /-- A further condition is a nested block that shares the end of this one. -/
  | alternativeIf {depth start : Nat} {test test' : Expr} {found found' : Found} {c after : Cursor}
    {body : Children} {nested : Node} (hbody : ReadsNodes g (depth + 1) found c body)
    (hstop : body.stop = .alternativeIf test')
    (hnested : ReadsIf g depth test' body.stopStart body.found body.after nested found' after) :
    ReadsIf g depth test start found c
      (.ifBlock test body.nodes (some [nested]) ⟨start, after.pos⟩) found' after

end

/-! ## Progress -/

/-- Every piece but the end of the source takes up some of it. -/
theorem nextPiece_leads {c after : Cursor} {p : Piece} (h : nextPiece g c = .ok (p, after)) :
    ∃ read, c.Leads read after ∧ (p = .stop .endOfSource ∨ read ≠ []) := by
  cases nextPiece_read h with
  | endOfSource => exact ⟨[], Cursor.Leads.refl c, .inl rfl⟩
  | mustache hmustache => exact ⟨_, hmustache.leads, .inr (by simp)⟩
  | comment hrest => exact ⟨_, Cursor.skip_leads hrest, .inr (by simp)⟩
  | closing hlead hne => exact ⟨_, hlead, .inr hne⟩
  | opens htag =>
    obtain ⟨read, hne, hlead⟩ := htag.leads
    exact ⟨read, hlead, .inr hne⟩
  | text hlead hne => exact ⟨_, hlead, .inr hne⟩

theorem nextPiece_length_lt {c after : Cursor} {p : Piece} (h : nextPiece g c = .ok (p, after))
    (hp : p ≠ .stop .endOfSource) : after.rest.length < c.rest.length := by
  obtain ⟨read, hlead, hread⟩ := nextPiece_leads h
  have hpos := List.length_pos_iff.2 (hread.resolve_left hp)
  have hlen := hlead.length_eq
  omega

/-- The header of a conditional block has at least its braces. -/
theorem nextPiece_opensIf_length {c after : Cursor} {test : Expr}
    (h : nextPiece g c = .ok (.opensIf test, after)) : after.rest.length + 4 ≤ c.rest.length := by
  have hread := nextPiece_read h
  generalize hp : Piece.opensIf test = p at hread
  cases hread with
  | mustache hmustache => exact hmustache.four_le
  | endOfSource | comment | closing | opens | text => cases hp

theorem rawBlock_leads {name : Text} {start : Nat} {selfClosing : Bool} {found found' : Found}
    {c after : Cursor} (h : rawBlock g name start selfClosing found c = .ok (found', after)) :
    ∃ read, c.Leads read after := by
  obtain ⟨⟨content, after'⟩, hcontent, h⟩ := bind_eq_ok_iff.1 h
  have hafter : after' = after := by
    dsimp only at h
    split at h
    · split at h
      · cases h
      · cases h
        rfl
    · split at h
      · cases h
      · split at h
        · cases h
        · cases h
          rfl
  obtain ⟨closing, hlead⟩ := rawContent_leads hcontent
  exact ⟨_, hafter ▸ hlead⟩

mutual

/-- Reading nodes leads to the piece that stops them. -/
theorem ReadsNodes.stops {depth : Nat} {found : Found} {c : Cursor} {r : Children} :
    ReadsNodes g depth found c r → ∃ read stopped, c.Leads read stopped ∧
      r.stopStart = stopped.pos ∧ nextPiece g stopped = .ok (.stop r.stop, r.after)
  | .stop h => ⟨[], c, Cursor.Leads.refl c, rfl, h⟩
  | .text h hrest | .tag h hrest | .single h _ _ hrest => by
    obtain ⟨read, hread, -⟩ := nextPiece_leads h
    obtain ⟨more, stopped, hmore, hstop⟩ := hrest.stops
    exact ⟨_, stopped, hread.trans hmore, hstop⟩
  | .opensIf h hblock hrest => by
    obtain ⟨read, hread, -⟩ := nextPiece_leads h
    obtain ⟨block, hblock⟩ := hblock.leads
    obtain ⟨more, stopped, hmore, hstop⟩ := hrest.stops
    exact ⟨_, stopped, (hread.trans hblock).trans hmore, hstop⟩
  | .opensEach h hbody _ hrest | .element h _ _ hbody _ hrest => by
    obtain ⟨read, hread, -⟩ := nextPiece_leads h
    obtain ⟨inner, stoppedBody, hinner, -, hstopBody⟩ := hbody.stops
    obtain ⟨closing, hclosing, -⟩ := nextPiece_leads hstopBody
    obtain ⟨more, stopped, hmore, hstop⟩ := hrest.stops
    exact ⟨_, stopped, ((hread.trans hinner).trans hclosing).trans hmore, hstop⟩
  | .raw h _ hblock hrest => by
    obtain ⟨read, hread, -⟩ := nextPiece_leads h
    obtain ⟨block, hblock⟩ := rawBlock_leads hblock
    obtain ⟨more, stopped, hmore, hstop⟩ := hrest.stops
    exact ⟨_, stopped, (hread.trans hblock).trans hmore, hstop⟩

/-- Reading a conditional block leads to the cursor behind its end. -/
theorem ReadsIf.leads {depth start : Nat} {test : Expr} {found found' : Found} {c after : Cursor}
    {node : Node} :
    ReadsIf g depth test start found c node found' after → ∃ read, c.Leads read after
  | .plain hbody _ => by
    obtain ⟨read, stopped, hread, -, hstop⟩ := hbody.stops
    obtain ⟨closing, hclosing, -⟩ := nextPiece_leads hstop
    exact ⟨_, hread.trans hclosing⟩
  | .alternative hbody _ hother _ => by
    obtain ⟨read, stopped, hread, -, hstop⟩ := hbody.stops
    obtain ⟨closing, hclosing, -⟩ := nextPiece_leads hstop
    obtain ⟨read', stopped', hread', -, hstop'⟩ := hother.stops
    obtain ⟨closing', hclosing', -⟩ := nextPiece_leads hstop'
    exact ⟨_, ((hread.trans hclosing).trans hread').trans hclosing'⟩
  | .alternativeIf hbody _ hnested => by
    obtain ⟨read, stopped, hread, -, hstop⟩ := hbody.stops
    obtain ⟨closing, hclosing, -⟩ := nextPiece_leads hstop
    obtain ⟨more, hmore⟩ := hnested.leads
    exact ⟨_, (hread.trans hclosing).trans hmore⟩

end

theorem ReadsNodes.leads {depth : Nat} {found : Found} {c : Cursor} {r : Children}
    (h : ReadsNodes g depth found c r) : ∃ read, c.Leads read r.after := by
  obtain ⟨read, stopped, hread, -, hstop⟩ := h.stops
  obtain ⟨closing, hclosing, -⟩ := nextPiece_leads hstop
  exact ⟨_, hread.trans hclosing⟩

theorem ReadsNodes.length_le {depth : Nat} {found : Found} {c : Cursor} {r : Children}
    (h : ReadsNodes g depth found c r) : r.after.rest.length ≤ c.rest.length := by
  obtain ⟨read, hread⟩ := h.leads
  have hlen := hread.length_eq
  omega

/-- A further condition takes up some of the source. -/
theorem ReadsNodes.length_lt {depth : Nat} {found : Found} {c : Cursor} {r : Children}
    (h : ReadsNodes g depth found c r) (hstop : r.stop ≠ .endOfSource) :
    r.after.rest.length < c.rest.length := by
  obtain ⟨read, stopped, hread, -, hnext⟩ := h.stops
  have hlt := nextPiece_length_lt hnext (fun heq => hstop (Piece.stop.inj heq))
  have hlen := hread.length_eq
  omega

/-! ## The readers follow the rules -/

theorem expectClose_eq_ok {name : Text} {start : Nat} {c : Children}
    (h : expectClose name start c = .ok ()) : c.stop = .closes name := by
  unfold expectClose at h
  split at h
  · split at h
    · rename_i hstop heq
      rw [hstop, heq]
    · cases h
  all_goals cases h

theorem expectClosingTag_eq_ok {name : Text} {start : Nat} {c : Children}
    (h : expectClosingTag name start c = .ok ()) : c.stop = .closingTag name := by
  unfold expectClosingTag at h
  split at h
  · split at h
    · rename_i hstop heq
      rw [hstop, heq]
    · cases h
  · cases h

mutual

/-- The children at a cursor are read by the rules if the bound exceeds the text. -/
theorem children_reads {depth : Nat} {found : Found} {c : Cursor} {r : Children} :
    (n : Nat) → c.rest.length < n → children g n depth found c = .ok r →
      ReadsNodes g depth found c r
  | 0, hn, _ => absurd hn (Nat.not_lt_zero _)
  | n + 1, hn, h => by
    rw [children] at h
    obtain ⟨⟨piece, after⟩, hpiece, h⟩ := bind_eq_ok_iff.1 h
    have hlt := nextPiece_length_lt hpiece
    cases piece with
    | stop s =>
      cases h
      exact .stop hpiece
    | text data =>
      obtain ⟨rest, hrest, h⟩ := bind_eq_ok_iff.1 h
      cases h
      have hlt := hlt nofun
      exact .text hpiece (children_reads n (by omega) hrest)
    | tag e =>
      obtain ⟨rest, hrest, h⟩ := bind_eq_ok_iff.1 h
      cases h
      have hlt := hlt nofun
      exact .tag hpiece (children_reads n (by omega) hrest)
    | opensIf test =>
      obtain ⟨⟨node, found', after'⟩, hblock, h⟩ := bind_eq_ok_iff.1 h
      obtain ⟨rest, hrest, h⟩ := bind_eq_ok_iff.1 h
      cases h
      have hheader := nextPiece_opensIf_length hpiece
      have hblock := ifBlock_reads n (by omega) hblock
      obtain ⟨read, hread⟩ := hblock.leads
      have hlen := hread.length_eq
      exact .opensIf hpiece hblock (children_reads n (by omega) hrest)
    | opensEach iterable item index =>
      obtain ⟨body, hbody, h⟩ := bind_eq_ok_iff.1 h
      obtain ⟨⟨⟩, hclose, h⟩ := bind_eq_ok_iff.1 h
      obtain ⟨rest, hrest, h⟩ := bind_eq_ok_iff.1 h
      cases h
      have hlt := hlt nofun
      have hbody := children_reads n (by omega) hbody
      have hle := hbody.length_le
      exact .opensEach hpiece hbody (expectClose_eq_ok hclose) (children_reads n (by omega) hrest)
    | opens tag =>
      have hlt := hlt nofun
      dsimp only at h
      split at h
      · rename_i hraw
        split at h
        · rename_i hdepth
          subst hdepth
          obtain ⟨⟨found', after'⟩, hblock, hrest⟩ := bind_eq_ok_iff.1 h
          obtain ⟨read, hread⟩ := rawBlock_leads hblock
          have hlen := hread.length_eq
          exact .raw hpiece hraw hblock (children_reads n (by omega) hrest)
        · cases h
      rename_i hraw
      rw [Bool.not_eq_true] at hraw
      split at h
      · rename_i hsingle
        obtain ⟨rest, hrest, h⟩ := bind_eq_ok_iff.1 h
        cases h
        exact .single hpiece hraw hsingle (children_reads n (by omega) hrest)
      · rename_i hsingle
        obtain ⟨body, hbody, h⟩ := bind_eq_ok_iff.1 h
        obtain ⟨⟨⟩, hclose, h⟩ := bind_eq_ok_iff.1 h
        obtain ⟨rest, hrest, h⟩ := bind_eq_ok_iff.1 h
        cases h
        have hbody := children_reads n (by omega) hbody
        have hle := hbody.length_le
        exact .element hpiece hraw (by simpa using hsingle) hbody (expectClosingTag_eq_ok hclose)
          (children_reads n (by omega) hrest)

/-- A conditional block is read by the rules if the bound exceeds the text by two. -/
theorem ifBlock_reads {depth start : Nat} {test : Expr} {found found' : Found} {c after : Cursor}
    {node : Node} :
    (n : Nat) → c.rest.length + 1 < n →
      ifBlock g n depth test start found c = .ok (node, found', after) →
      ReadsIf g depth test start found c node found' after
  | 0, hn, _ => absurd hn (Nat.not_lt_zero _)
  | n + 1, hn, h => by
    rw [ifBlock] at h
    obtain ⟨body, hbody, h⟩ := bind_eq_ok_iff.1 h
    have hbody := children_reads n (by omega) hbody
    have hle := hbody.length_le
    cases hstop : body.stop with
    | alternative =>
      simp only [hstop] at h
      obtain ⟨other, hother, h⟩ := bind_eq_ok_iff.1 h
      obtain ⟨⟨⟩, hclose, h⟩ := bind_eq_ok_iff.1 h
      cases h
      exact .alternative hbody hstop (children_reads n (by omega) hother) (expectClose_eq_ok hclose)
    | alternativeIf test' =>
      simp only [hstop] at h
      obtain ⟨⟨nested, found'', after'⟩, hnested, h⟩ := bind_eq_ok_iff.1 h
      cases h
      have hlt := hbody.length_lt (by rw [hstop]; nofun)
      exact .alternativeIf hbody hstop (ifBlock_reads n (by omega) hnested)
    | endOfSource | closingTag _ | closes _ =>
      simp only [hstop] at h
      obtain ⟨⟨⟩, hclose, h⟩ := bind_eq_ok_iff.1 h
      cases h
      exact .plain hbody (expectClose_eq_ok hclose)

end

/-- A template that is read has the nodes, the script and the style that the rules find up to the end
of the source. -/
theorem readTemplate_reads {source : Text} {t : Template} (h : readTemplate g source = .ok t) :
    ∃ r, ReadsNodes g 0 ⟨none, none⟩ ⟨0, source⟩ r ∧ r.stop = .endOfSource ∧
      t = ⟨r.nodes, r.found.script, r.found.style⟩ := by
  obtain ⟨r, hr, h⟩ := bind_eq_ok_iff.1 h
  have hreads := children_reads (source.length + 2) (by simp only []; omega) hr
  refine ⟨r, hreads, ?_⟩
  cases hstop : r.stop with
  | endOfSource =>
    simp only [hstop, Stop.fault?] at h
    cases h
    exact ⟨rfl, rfl⟩
  | closingTag | closes | alternative | alternativeIf =>
    simp only [hstop, Stop.fault?] at h
    cases h

end TemplateCompiler
