import TemplateCompiler.Proofs.Template.Violations
import TemplateCompiler.Proofs.Template.Watching

/-!
# The record of a reading is complete

A template that is read is on the record: a round started at each of its nodes, the reader of each
element or block was called and ended where the element or block ends, and so was the reader of each
value of an attribute. So what is known of all calls and rounds on the record is known of the
reading.

## What this module delivers

* `Watch.PartOf`: a record that is part of another.
* `Watch.Records`: nodes that are on a record, with all the nodes in them.
* `watchChildren_records`, `watchIf_records`: the nodes that are read are on the record.
* `watchTemplate_records`: so is a whole template.
-/

set_option autoImplicit false

namespace TemplateCompiler

open Script Text

variable {g : Grammar} {α β γ : Type}

namespace Watch

/-! ## Parts of a record -/

/-- The calls and rounds of a watched reader are among those of another. -/
structure PartOf (w : Watch α) (v : Watch β) : Prop where
  calls : w.calls ⊆ v.calls
  rounds : w.rounds ⊆ v.rounds

variable {w : Watch α} {v : Watch β} {u : Watch γ} {f : α → Cursor → Watch β}

namespace PartOf

theorem refl : w.PartOf w :=
  ⟨List.Subset.refl _, List.Subset.refl _⟩

theorem trans (h : w.PartOf v) (h' : v.PartOf u) : w.PartOf u :=
  ⟨List.Subset.trans h.calls h'.calls, List.Subset.trans h.rounds h'.rounds⟩

theorem first (h : u.PartOf w) : u.PartOf (w.bind f) := by
  apply h.trans
  cases ha : w.outcome with
  | error e =>
    rw [bind_of_error f ha]
    exact ⟨List.Subset.refl _, List.Subset.refl _⟩
  | ok a =>
    rw [bind_of_ok f ha]
    exact ⟨List.subset_append_left _ _, List.subset_append_left _ _⟩

theorem second {a : α} (ha : w.outcome = .ok a) (h : u.PartOf (f a w.cursor)) :
    u.PartOf (w.bind f) := by
  apply h.trans
  rw [bind_of_ok f ha]
  exact ⟨List.subset_append_right _ _, List.subset_append_right _ _⟩

theorem map {f : α → β} (h : u.PartOf w) : u.PartOf (w.map f) :=
  h.first

theorem call {kind : ReaderKind} {entry : Nat} (h : u.PartOf w) : u.PartOf (w.call kind entry) :=
  h.trans ⟨List.subset_append_left _ _, List.Subset.refl _⟩

theorem callIf {b : Bool} {kind : ReaderKind} {entry : Nat} (h : u.PartOf w) :
    u.PartOf (w.callIf b kind entry) := by
  cases b with
  | false => exact h
  | true => exact h.call

theorem round {entry : Nat} (h : u.PartOf w) : u.PartOf (w.round entry) :=
  h.trans ⟨List.Subset.refl _, List.subset_cons_self _ _⟩

/-- The same round before both records. -/
theorem rounds_cons {entry : Nat} (h : u.PartOf w) : (u.round entry).PartOf (w.round entry) :=
  ⟨h.calls, List.cons_subset_cons _ h.rounds⟩

/-- A round that is on the larger record already. -/
theorem of_round {entry : Nat} (h : u.PartOf w) (hentry : entry ∈ w.rounds) :
    (u.round entry).PartOf w :=
  ⟨h.calls, List.cons_subset.2 ⟨hentry, h.rounds⟩⟩

end PartOf

theorem mem_call {kind : ReaderKind} {entry stop : Nat} (h : w.cursor.pos = stop) :
    ⟨kind, entry, stop⟩ ∈ (w.call kind entry).calls := by
  rw [← h]
  exact List.mem_append_right _ (List.mem_singleton_self _)

end Watch

/-! ## Nodes on a record -/

/-- The values of some attributes have been read by calls. -/
def ValuesCalled (calls : List ReaderCall) (attrs : List Attribute) : Prop :=
  ∀ a ∈ attrs, a.value.isSome → ∃ entry, ⟨.attributeValue, entry, a.span.stop⟩ ∈ calls

/-- The calls without which a node cannot be read. The reader of a block starts behind its header.
-/
def Node.CalledIn (calls : List ReaderCall) : Node → Prop
  | .element _ attrs _ span => ⟨.element, span.start, span.stop⟩ ∈ calls ∧ ValuesCalled calls attrs
  | .text _ _ | .mustache _ _ => True
  | .ifBlock _ _ _ span => ∃ entry, ⟨.ifBlock, entry, span.stop⟩ ∈ calls
  | .eachBlock _ _ _ _ span => ∃ entry, ⟨.eachBlock, entry, span.stop⟩ ∈ calls

/-- Some nodes and the nodes in them are on a record: a round starts at each, and its calls have
been made. -/
def Watch.Records (w : Watch α) (nodes : List Node) : Prop :=
  ∀ m ∈ preorderOf nodes, m.span.start ∈ w.rounds ∧ m.CalledIn w.calls

variable {calls calls' : List ReaderCall} {nodes : List Node} {m : Node}

theorem ValuesCalled.mono {attrs : List Attribute} (h : ValuesCalled calls attrs)
    (hcalls : calls ⊆ calls') : ValuesCalled calls' attrs := by
  intro a ha hvalue
  obtain ⟨entry, hentry⟩ := h a ha hvalue
  exact ⟨entry, hcalls hentry⟩

theorem Node.CalledIn.mono (h : m.CalledIn calls) (hcalls : calls ⊆ calls') :
    m.CalledIn calls' := by
  cases m with
  | element name attrs children span => exact ⟨hcalls h.1, h.2.mono hcalls⟩
  | text | mustache => trivial
  | ifBlock | eachBlock =>
    obtain ⟨entry, hentry⟩ := h
    exact ⟨entry, hcalls hentry⟩

namespace Watch.Records

variable {w : Watch α} {v : Watch β}

theorem mono (h : w.Records nodes) (hpart : w.PartOf v) : v.Records nodes := by
  intro m hm
  obtain ⟨hround, hcalled⟩ := h m hm
  exact ⟨hpart.rounds hround, hcalled.mono hpart.calls⟩

theorem nil : w.Records [] := by
  intro m hm
  rw [preorderOf] at hm
  cases hm

theorem cons (hm : w.Records [m]) (h : w.Records nodes) : w.Records (m :: nodes) := by
  intro n hn
  rw [preorderOf] at hn
  rcases List.mem_append.1 hn with hn | hn
  · exact hm n (mem_preorderOf_of_mem (List.mem_singleton_self m) hn)
  · exact h n hn

/-- A node is on a record if it is itself and its bodies are. -/
theorem single (hround : m.span.start ∈ w.rounds) (hcalled : m.CalledIn w.calls)
    (hbodies : ∀ body ∈ m.bodies, w.Records body) : w.Records [m] := by
  intro n hn
  rw [preorderOf, preorderOf, List.append_nil, Node.preorder_eq] at hn
  rcases List.mem_cons.1 hn with rfl | hn
  · exact ⟨hround, hcalled⟩
  · obtain ⟨body, hbody, hn⟩ := List.mem_flatMap.1 hn
    exact hbodies body hbody n hn

/-- A node with one body. -/
theorem around {body : List Node} (hround : m.span.start ∈ w.rounds) (hcalled : m.CalledIn w.calls)
    (hbodies : m.bodies = [body]) (hbody : w.Records body) : w.Records [m] := by
  apply single hround hcalled
  rw [hbodies]
  exact List.forall_mem_singleton.2 hbody

end Watch.Records

/-! ## Tags and pieces -/

open Watch

theorem watchRest_called {c : Cursor} {parts : List AttributePart}
    (h : (watchRest g c).outcome = .ok (some parts)) :
    ∃ entry, ⟨.attributeValue, entry, (watchRest g c).cursor.pos⟩ ∈ (watchRest g c).calls := by
  unfold watchRest at h ⊢
  dsimp only at h ⊢
  split at h
  · rw [map_cursor]
    exact ⟨_, (PartOf.map .refl).calls (mem_call rfl)⟩
  · cases h

theorem watchAttributes_called {n : Nat} {c : Cursor} {attrs : List Attribute}
    (h : (watchAttributes g n c).outcome = .ok attrs) :
    ValuesCalled (watchAttributes g n c).calls attrs := by
  induction n generalizing c attrs with
  | zero =>
    cases h
    exact nofun
  | succ n ih =>
    rw [watchAttributes] at h ⊢
    dsimp only at h ⊢
    split at h
    · cases h
      exact nofun
    · split at h
      · cases h
      · rename_i hend hempty
        rw [if_neg hend, if_neg hempty]
        obtain ⟨value, hvalue, h⟩ := ok_of_bind h
        obtain ⟨rest, hrest, h⟩ := ok_of_bind h
        cases h
        intro a ha hsome
        rcases List.mem_cons.1 ha with rfl | ha
        · obtain ⟨parts, rfl⟩ := Option.isSome_iff_exists.1 hsome
          obtain ⟨entry, hentry⟩ := watchRest_called hvalue
          exact ⟨entry, (PartOf.first .refl).calls hentry⟩
        · obtain ⟨entry, hentry⟩ := ih hrest a ha hsome
          exact ⟨entry, (PartOf.second hvalue (.map .refl)).calls hentry⟩

theorem endTag_attributes {start : Nat} {name : Text} {attrs : List Attribute} {stop : Cursor}
    {tag : OpeningTag} (h : endTag start name attrs stop = .ok tag) : tag.attributes = attrs := by
  unfold endTag at h
  split at h <;> cases h <;> rfl

theorem watchOpeningTag_called {c : Cursor} {tag : OpeningTag}
    (h : (watchOpeningTag g c).outcome = .ok tag) :
    ValuesCalled (watchOpeningTag g c).calls tag.attributes := by
  unfold watchOpeningTag at h ⊢
  dsimp only at h ⊢
  split at h
  · cases h
  · rename_i hempty
    rw [if_neg hempty]
    obtain ⟨attrs, hattrs, h⟩ := ok_of_bind h
    have hresult := result_eq_ok_iff.2 ⟨h, rfl⟩
    rw [result_ofRead] at hresult
    obtain ⟨tag', htag, heq⟩ := bind_eq_ok_iff.1 hresult
    obtain rfl : tag' = tag := congrArg Prod.fst (Except.ok.inj heq)
    rw [endTag_attributes htag]
    exact (watchAttributes_called hattrs).mono (PartOf.first (.call .refl)).calls

theorem opensElement_of_nextPiece {c after : Cursor} {tag : OpeningTag}
    (h : nextPiece g c = .ok (.opens tag, after)) : opensElement c.rest = true := by
  unfold nextPiece at h
  split at h
  · cases h
  · obtain ⟨⟨m, after'⟩, -, h⟩ := bind_eq_ok_iff.1 h
    cases m <;> cases h
  · split at h <;> cases h
  · obtain ⟨⟨name, after'⟩, -, h⟩ := bind_eq_ok_iff.1 h
    cases h
  · rename_i x t _ _ hrest
    split at h
    · rename_i hletter
      rw [hrest]
      exact hletter
    · cases h
  · cases h

theorem watchPiece_called {c : Cursor} {tag : OpeningTag}
    (h : (watchPiece g c).outcome = .ok (.opens tag)) :
    opensElement c.rest = true ∧ ValuesCalled (watchPiece g c).calls tag.attributes := by
  have hresult := result_eq_ok_iff.2 ⟨h, rfl⟩
  rw [watchPiece_result] at hresult
  have hopens := opensElement_of_nextPiece hresult
  refine ⟨hopens, ?_⟩
  rw [watchPiece, if_pos hopens] at h ⊢
  obtain ⟨tag', htag, h⟩ := ok_of_bind h
  cases h
  exact (watchOpeningTag_called htag).mono (PartOf.map .refl).calls

/-! ## Rounds -/

section Rounds

variable {readChildren : Nat → Found → Cursor → Watch Children}
  {readIf : Nat → Expr → Nat → Found → Cursor → Watch (Node × Found)}
  (hchildren : ∀ depth found c r, (readChildren depth found c).outcome = .ok r →
    (readChildren depth found c).Records r.nodes)
  (hif : ∀ depth test start found c p, (readIf depth test start found c).outcome = .ok p →
    (((readIf depth test start found c).call .ifBlock c.pos).round start).Records [p.1])
include hchildren hif

/-- The node that a piece starts. The call of an element is made around it, as is the round. -/
theorem watchNode_records {v : Watch α} {depth : Nat} {found found' : Found} {start : Nat}
    {piece : Piece} {c : Cursor} {node : Node}
    (hpart : ((watchNode g readChildren readIf depth found start piece c).round start).PartOf v)
    (hopens : ∀ tag, piece = .opens tag → ValuesCalled v.calls tag.attributes ∧
      ⟨.element, start, (watchNode g readChildren readIf depth found start piece c).cursor.pos⟩ ∈
        v.calls)
    (h : (watchNode g readChildren readIf depth found start piece c).outcome =
      .ok (.node (some node) found')) : v.Records [node] := by
  have hstart : start ∈ v.rounds := hpart.rounds List.mem_cons_self
  cases piece with
  | stop s => cases h
  | text data | tag e =>
    cases h
    exact .single hstart trivial nofun
  | opensIf test =>
    rw [watchNode] at h hpart
    obtain ⟨p, hp, h⟩ := ok_of_bind h
    cases h
    exact (hif depth test start found c p hp).mono (.trans (.rounds_cons (.map .refl)) hpart)
  | opensEach iterable item index =>
    rw [watchNode] at h hpart
    obtain ⟨body, hbody, h⟩ := ok_of_bind h
    obtain ⟨u, -, h⟩ := ok_of_bind h
    cases h
    refine .around hstart ⟨c.pos, hpart.calls (mem_call ?_)⟩ rfl ?_
    · rw [bind_of_ok _ hbody, map_cursor]
      rfl
    · exact (hchildren _ _ _ _ hbody).mono (.trans (.round (.call (.first (.call .refl)))) hpart)
  | opens tag =>
    obtain ⟨hvalues, helement⟩ := hopens tag rfl
    rw [watchNode] at h hpart helement
    by_cases hraw : isRawElement tag.name = true
    · rw [if_pos hraw] at h
      split at h
      · obtain ⟨found, -, h⟩ := ok_of_bind h
        cases h
      · cases h
    · rw [if_neg hraw] at h hpart helement
      by_cases hsingle : (tag.selfClosing || isVoidElement tag.name) = true
      · rw [if_pos hsingle] at h helement
        cases h
        exact .around hstart ⟨helement, hvalues⟩ rfl .nil
      · rw [if_neg hsingle] at h hpart helement
        obtain ⟨body, hbody, h⟩ := ok_of_bind h
        obtain ⟨u, -, h⟩ := ok_of_bind h
        cases h
        rw [bind_of_ok _ hbody, map_cursor] at helement
        refine .around hstart ⟨helement, hvalues⟩ rfl ?_
        exact (hchildren _ _ _ _ hbody).mono (.trans (.round (.first (.call .refl))) hpart)

/-- The node that a round reads. -/
theorem watchRound_records {depth : Nat} {found found' : Found} {c : Cursor} {node : Node}
    (h : (watchRound g readChildren readIf depth found c).outcome =
      .ok (.node (some node) found')) :
    ((watchRound g readChildren readIf depth found c).round c.pos).Records [node] := by
  unfold watchRound at h ⊢
  rw [callIf_outcome] at h
  obtain ⟨piece, hpiece, h⟩ := ok_of_bind h
  apply watchNode_records hchildren hif ?_ ?_ h
  · exact .rounds_cons (.callIf (.second hpiece .refl))
  · rintro tag rfl
    obtain ⟨hopens, hvalues⟩ := watchPiece_called hpiece
    refine ⟨hvalues.mono (PartOf.callIf (.first .refl)).calls, ?_⟩
    rw [hopens, bind_of_ok _ hpiece]
    exact mem_call rfl

end Rounds

/-- A conditional block, around its children and its alternative. -/
theorem ifBlock_records {w : Watch Children} {f : Children → Cursor → Watch (Node × Found)}
    {test : Expr} {alternative : Option (List Node)} {start entry stop : Nat}
    (hnodes : w.Records nodes) (hstop : (w.bind f).cursor.pos = stop)
    (halternative : ∀ body ∈ alternative.toList,
      (((w.bind f).call .ifBlock entry).round start).Records body) :
    (((w.bind f).call .ifBlock entry).round start).Records
      [.ifBlock test nodes alternative ⟨start, stop⟩] := by
  refine .single List.mem_cons_self ⟨entry, mem_call hstop⟩ (List.forall_mem_cons.2 ⟨?_, ?_⟩)
  · exact hnodes.mono (.round (.call (.first .refl)))
  · exact halternative

mutual

/-- The children that are read are on the record, and a round starts at what stops them. -/
theorem watchChildren_records (g : Grammar) : (n depth : Nat) → (found : Found) → (c : Cursor) →
    (r : Children) → (watchChildren g n depth found c).outcome = .ok r →
    r.stopStart ∈ (watchChildren g n depth found c).rounds ∧
      (watchChildren g n depth found c).Records r.nodes
  | 0, _, _, c, r, h => by
    cases h
    exact ⟨List.mem_cons_self, .nil⟩
  | n + 1, depth, found, c, r, h => by
    rw [watchChildren] at h ⊢
    obtain ⟨result, hresult, h⟩ := ok_of_bind h
    rcases result with s | ⟨node | node, found'⟩
    · cases h
      exact ⟨List.mem_cons_self, .nil⟩
    · obtain ⟨hstop, hrest⟩ := watchChildren_records g n depth found' _ r h
      refine ⟨?_, hrest.mono ?_⟩
      · exact (PartOf.round (.second hresult .refl)).rounds hstop
      · exact .round (.second hresult .refl)
    · obtain ⟨rest, hrest, h⟩ := ok_of_bind h
      cases h
      obtain ⟨hstop, hrest⟩ := watchChildren_records g n depth found' _ rest hrest
      have hnode := watchRound_records (fun d f c r h => (watchChildren_records g n d f c r h).2)
        (watchIf_records g n) hresult
      refine ⟨?_, .cons (hnode.mono ?_) (hrest.mono ?_)⟩
      · exact (PartOf.round (.second hresult (.map .refl))).rounds hstop
      · exact .rounds_cons (.first .refl)
      · exact .round (.second hresult (.map .refl))

/-- A conditional block that is read is on the record, with its call and the round at it. -/
theorem watchIf_records (g : Grammar) : (n depth : Nat) → (test : Expr) → (start : Nat) →
    (found : Found) → (c : Cursor) → (p : Node × Found) →
    (watchIf g n depth test start found c).outcome = .ok p →
    (((watchIf g n depth test start found c).call .ifBlock c.pos).round start).Records [p.1]
  | 0, _, _, _, _, c, p, h => by
    cases h
    exact .around List.mem_cons_self ⟨c.pos, mem_call rfl⟩ rfl .nil
  | n + 1, depth, test, start, found, c, p, h => by
    rw [watchIf] at h ⊢
    obtain ⟨body, hbody, h⟩ := ok_of_bind h
    obtain ⟨hstopStart, hchildren⟩ := watchChildren_records g n (depth + 1) found c body hbody
    have hnodes :
        ((watchChildren g n (depth + 1) found c).call .children c.pos).Records body.nodes :=
      hchildren.mono (.call .refl)
    cases hstop : body.stop with
    | alternative =>
      simp only [hstop] at h
      obtain ⟨other, hother, h⟩ := ok_of_bind h
      obtain ⟨u, -, h⟩ := ok_of_bind h
      cases h
      obtain ⟨-, hotherNodes⟩ := watchChildren_records g n (depth + 1) body.found _ other hother
      refine ifBlock_records hnodes ?_ (List.forall_mem_singleton.2 ?_)
      · rw [bind_of_ok _ hbody]
        simp only [hstop]
        rw [bind_of_ok _ hother, map_cursor]
        rfl
      · refine hotherNodes.mono (.round (.call (.second hbody ?_)))
        simp only [hstop]
        exact .first (.call .refl)
    | alternativeIf test' =>
      simp only [hstop] at h
      obtain ⟨nested, hnested, h⟩ := ok_of_bind h
      cases h
      have hnode := watchIf_records g n depth test' body.stopStart body.found _ nested hnested
      refine ifBlock_records hnodes ?_ (List.forall_mem_singleton.2 ?_)
      · rw [bind_of_ok _ hbody]
        simp only [hstop]
        rw [bind_of_ok _ hnested]
        rfl
      · -- The round at the further condition is the one that stopped the children before it.
        refine hnode.mono (.of_round ?_ ?_)
        · refine .round (.call (.second hbody ?_))
          simp only [hstop]
          exact .first .refl
        · exact (PartOf.round (.call (.first (.call .refl)))).rounds hstopStart
    | endOfSource | closingTag | closes =>
      simp only [hstop] at h
      obtain ⟨u, -, h⟩ := ok_of_bind h
      cases h
      refine ifBlock_records hnodes ?_ nofun
      rw [bind_of_ok _ hbody]
      simp only [hstop, map_cursor]
      rfl

end

/-- A template that is read is on the record. -/
theorem watchTemplate_records {source : Text} {t : Template}
    (h : (watchTemplate g source).outcome = .ok t) : (watchTemplate g source).Records t.nodes := by
  unfold watchTemplate at h ⊢
  obtain ⟨top, htop, h⟩ := ok_of_bind h
  have hnodes : t.nodes = top.nodes := by
    dsimp only [lift] at h
    split at h
    · cases h
    · cases h
      rfl
  rw [hnodes]
  exact (watchChildren_records g _ 0 _ _ top htop).2.mono (.first (.call .refl))

end TemplateCompiler
