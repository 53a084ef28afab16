import TemplateCompiler.Proofs.Template.Moved

/-!
# Templates one behind the other

Reading a source that is put together from two reads the first, and then the second further on. Only
a text at the end of the first could go on in the second.

## What this module delivers

* `ReadsNodes.children_eq`, `ReadsIf.ifBlock_eq`: what the rules read, the readers read.
* `ReadsNodes.followed`: nodes up to the end of a source, and the nodes of a tail behind them.
* `readTemplate_append`: a template and another one behind it.
-/

set_option autoImplicit false

namespace TemplateCompiler

open Script Text

variable {g : Grammar}

/-! ## The readers find what the rules say -/

theorem expectClose_of_stop {name : Text} {c : Children} (start : Nat) (h : c.stop = .closes name) :
    expectClose name start c = .ok () := by
  simp only [expectClose, h, if_true]

theorem expectClosingTag_of_stop {name : Text} {c : Children} (start : Nat)
    (h : c.stop = .closingTag name) : expectClosingTag name start c = .ok () := by
  simp only [expectClosingTag, h, if_true]

mutual

/-- Nodes that the rules read are read if the bound exceeds the text. -/
theorem ReadsNodes.children_eq {depth : Nat} {found : Found} {c : Cursor} {r : Children} :
    ReadsNodes g depth found c r → (n : Nat) → c.rest.length < n →
      children g n depth found c = .ok r
  | _, 0, hn => absurd hn (Nat.not_lt_zero _)
  | .stop h, n + 1, _ => by
    rw [children]
    exact bind_eq_ok_iff.2 ⟨_, h, rfl⟩
  | .text h hrest, n + 1, hn => by
    have hlt := nextPiece_length_lt h nofun
    rw [children]
    exact bind_eq_ok_iff.2 ⟨_, h, bind_eq_ok_iff.2 ⟨_, hrest.children_eq n (by omega), rfl⟩⟩
  | .tag h hrest, n + 1, hn => by
    have hlt := nextPiece_length_lt h nofun
    rw [children]
    exact bind_eq_ok_iff.2 ⟨_, h, bind_eq_ok_iff.2 ⟨_, hrest.children_eq n (by omega), rfl⟩⟩
  | .opensIf h hblock hrest, n + 1, hn => by
    have hheader := nextPiece_opensIf_length h
    obtain ⟨read, hread⟩ := hblock.leads
    have hlen := hread.length_eq
    rw [children]
    exact bind_eq_ok_iff.2 ⟨_, h, bind_eq_ok_iff.2 ⟨_, hblock.ifBlock_eq n (by omega),
      bind_eq_ok_iff.2 ⟨_, hrest.children_eq n (by omega), rfl⟩⟩⟩
  | .opensEach h hbody hclose hrest, n + 1, hn => by
    have hlt := nextPiece_length_lt h nofun
    have hle := hbody.length_le
    rw [children]
    exact bind_eq_ok_iff.2 ⟨_, h, bind_eq_ok_iff.2 ⟨_, hbody.children_eq n (by omega),
      bind_eq_ok_iff.2 ⟨_, expectClose_of_stop _ hclose,
        bind_eq_ok_iff.2 ⟨_, hrest.children_eq n (by omega), rfl⟩⟩⟩⟩
  | .raw h hraw hblock hrest, n + 1, hn => by
    have hlt := nextPiece_length_lt h nofun
    obtain ⟨read, hread⟩ := rawBlock_leads hblock
    have hlen := hread.length_eq
    rw [children]
    refine bind_eq_ok_iff.2 ⟨_, h, ?_⟩
    dsimp only
    rw [if_pos hraw, if_pos rfl]
    exact bind_eq_ok_iff.2 ⟨_, hblock, hrest.children_eq n (by omega)⟩
  | .single h hraw hsingle hrest, n + 1, hn => by
    have hlt := nextPiece_length_lt h nofun
    rw [children]
    refine bind_eq_ok_iff.2 ⟨_, h, ?_⟩
    dsimp only
    rw [hraw, if_neg Bool.false_ne_true, if_pos hsingle]
    exact bind_eq_ok_iff.2 ⟨_, hrest.children_eq n (by omega), rfl⟩
  | .element h hraw hsingle hbody hclose hrest, n + 1, hn => by
    have hlt := nextPiece_length_lt h nofun
    have hle := hbody.length_le
    rw [children]
    refine bind_eq_ok_iff.2 ⟨_, h, ?_⟩
    dsimp only
    rw [hraw, if_neg Bool.false_ne_true, hsingle, if_neg Bool.false_ne_true]
    exact bind_eq_ok_iff.2 ⟨_, hbody.children_eq n (by omega),
      bind_eq_ok_iff.2 ⟨_, expectClosingTag_of_stop _ hclose,
        bind_eq_ok_iff.2 ⟨_, hrest.children_eq n (by omega), rfl⟩⟩⟩

/-- A conditional block that the rules read is read if the bound exceeds the text by two. -/
theorem ReadsIf.ifBlock_eq {depth start : Nat} {test : Expr} {found found' : Found}
    {c after : Cursor} {node : Node} :
    ReadsIf g depth test start found c node found' after → (n : Nat) → c.rest.length + 1 < n →
      ifBlock g n depth test start found c = .ok (node, found', after)
  | _, 0, hn => absurd hn (Nat.not_lt_zero _)
  | .plain hbody hclose, n + 1, hn => by
    rw [ifBlock]
    refine bind_eq_ok_iff.2 ⟨_, hbody.children_eq n (by omega), ?_⟩
    simp only [hclose]
    exact bind_eq_ok_iff.2 ⟨_, expectClose_of_stop _ hclose, rfl⟩
  | .alternative hbody hstop hother hclose, n + 1, hn => by
    have hle := hbody.length_le
    rw [ifBlock]
    refine bind_eq_ok_iff.2 ⟨_, hbody.children_eq n (by omega), ?_⟩
    simp only [hstop]
    exact bind_eq_ok_iff.2 ⟨_, hother.children_eq n (by omega),
      bind_eq_ok_iff.2 ⟨_, expectClose_of_stop _ hclose, rfl⟩⟩
  | .alternativeIf hbody hstop hnested, n + 1, hn => by
    have hlt := hbody.length_lt (by rw [hstop]; nofun)
    rw [ifBlock]
    refine bind_eq_ok_iff.2 ⟨_, hbody.children_eq n (by omega), ?_⟩
    simp only [hstop]
    exact bind_eq_ok_iff.2 ⟨_, hnested.ifBlock_eq n (by omega), rfl⟩

end

theorem readTemplate_of_reads {source : Text} {r : Children}
    (h : ReadsNodes g 0 .nothing ⟨0, source⟩ r) (hstop : r.stop = .endOfSource) :
    readTemplate g source = .ok ⟨r.nodes, r.found.script, r.found.style⟩ := by
  refine bind_eq_ok_iff.2 ⟨r, h.children_eq _ (by simp only []; omega), ?_⟩
  simp only [hstop, Stop.fault?]
  rfl

/-! ## A source behind another -/

theorem Span.shift_zero (s : Span) : s.shift 0 = s := rfl

theorem BlockBinding.shift_zero (b : BlockBinding) : b.shift 0 = b := rfl

theorem AttributePart.carry_id (p : AttributePart) : p.carry id = p := by
  cases p <;> rfl

theorem Attribute.carry_zero (a : Attribute) : a.carry 0 id = a := by
  rw [Attribute.carry, funext AttributePart.carry_id, funext List.map_id', Option.map_id']
  rfl

mutual

/-- A node that is not moved stays as it is. -/
theorem Node.carry_zero : (n : Node) → n.carry 0 id = n
  | .element name attrs children span => by
    rw [Node.carry, funext Attribute.carry_zero, List.map_id', nodesCarry_zero children,
      span.shift_zero]
  | .text data span => by rw [Node.carry, span.shift_zero]
  | .mustache e span => by rw [Node.carry, span.shift_zero, id]
  | .ifBlock test children alternative span => by
    rw [Node.carry, nodesCarry_zero children, alternativeCarry_zero alternative, span.shift_zero,
      id]
  | .eachBlock iterable item index children span => by
    rw [Node.carry, nodesCarry_zero children, span.shift_zero, item.shift_zero,
      funext BlockBinding.shift_zero, Option.map_id', id]

theorem nodesCarry_zero : (nodes : List Node) → nodesCarry 0 id nodes = nodes
  | [] => by rw [nodesCarry]
  | n :: rest => by rw [nodesCarry, n.carry_zero, nodesCarry_zero rest]

theorem alternativeCarry_zero : (nodes : Option (List Node)) → alternativeCarry 0 id nodes = nodes
  | none => by rw [alternativeCarry]
  | some nodes => by rw [alternativeCarry, nodesCarry_zero nodes]

end

/-- Nodes up to the end of a source, with what is read behind them. -/
def Children.followedBy (r after : Children) : Children :=
  ⟨r.nodes ++ after.nodes, after.stop, after.stopStart, after.found, after.after⟩

/-- The last of some nodes is no plain text, which could go on behind them. -/
def EndsClosed (nodes : List Node) : Prop := ∀ n ∈ nodes.getLast?, n.isPlainText = false

theorem EndsClosed.tail {n : Node} {nodes : List Node} (h : EndsClosed (n :: nodes)) :
    EndsClosed nodes := by
  intro m hm
  refine h m ?_
  rw [List.getLast?_cons, Option.mem_def.1 hm]
  rfl

theorem EndsClosed.of_nil {n : Node} {nodes : List Node} (h : EndsClosed (n :: nodes))
    (hnil : nodes = []) : n.isPlainText = false := by
  subst hnil
  exact h n (Option.mem_some_self n)

/-- Nodes up to the end of a source are read the same where the source is moved and another one
stands behind it, unless the last of them is a text that may go on there. -/
theorem ReadsNodes.followed {k : Nat} {σ : Expr → Expr} {tail : Text} {r' : Children}
    (hσ : Carries g k σ) {depth : Nat} {found : Found} {c : Cursor} {r : Children} :
    ReadsNodes g depth found c r → r.found = .nothing → r.stop = .endOfSource → EndsClosed r.nodes →
      ReadsNodes g depth .nothing ⟨r.after.pos + k, tail⟩ r' →
      ReadsNodes g depth found (c.moved k tail) ((r.carry k [] σ).followedBy r')
  | .stop h, hr, hend, _, hnext => by
    cases hend
    cases hr
    have hrest := nextPiece_endOfSource h
    rw [nextPiece_nil hrest] at h
    cases h
    show ReadsNodes g depth _ ⟨_, _ ++ tail⟩ _
    rw [hrest]
    exact hnext
  | .text h hrest, hr, hend, hlast, hnext => by
    refine .text (nextPiece_moved hσ h (.inr fun hplain hnil => ?_))
      (hrest.followed hσ hr hend hlast.tail hnext)
    -- A text up to the end of the source would be the last node.
    have hclosed : (!isComment _) = false := hlast.of_nil (hrest.of_rest hnil).2
    rw [hplain] at hclosed
    cases hclosed
  | .tag h hrest, hr, hend, hlast, hnext =>
    .tag (nextPiece_moved hσ h (.inr trivial)) (hrest.followed hσ hr hend hlast.tail hnext)
  | .opensIf h hblock hrest, hr, hend, hlast, hnext =>
    .opensIf (nextPiece_moved hσ h (.inr trivial)) (hblock.moved hσ (hrest.found_nothing hr))
      (hrest.followed hσ hr hend hlast.tail hnext)
  | .opensEach h hbody hclose hrest, hr, hend, hlast, hnext =>
    .opensEach (nextPiece_moved hσ h (.inr trivial))
      (hbody.moved hσ (hrest.found_nothing hr) (.inr (by rw [hclose]; intro h; cases h)))
      (congrArg (Stop.carry σ) hclose) (hrest.followed hσ hr hend hlast.tail hnext)
  | .raw _ _ hblock hrest, hr, _, _, _ =>
    absurd (hrest.found_nothing hr) (rawBlock_ne_nothing hblock)
  | .single h hraw hsingle hrest, hr, hend, hlast, hnext =>
    .single (nextPiece_moved hσ h (.inr trivial)) hraw hsingle
      (hrest.followed hσ hr hend hlast.tail hnext)
  | .element h hraw hsingle hbody hclose hrest, hr, hend, hlast, hnext =>
    .element (nextPiece_moved hσ h (.inr trivial)) hraw hsingle
      (hbody.moved hσ (hrest.found_nothing hr) (.inr (by rw [hclose]; intro h; cases h)))
      (congrArg (Stop.carry σ) hclose) (hrest.followed hσ hr hend hlast.tail hnext)

/-- What is read up to the end of a source ends there. -/
theorem ReadsNodes.after_pos {source : Text} {r : Children}
    (h : ReadsNodes g 0 .nothing ⟨0, source⟩ r) (hstop : r.stop = .endOfSource) :
    r.after.pos = byteLength source := by
  obtain ⟨read, stopped, hread, -, hend⟩ := h.stops
  rw [hstop] at hend
  have hrest := nextPiece_endOfSource hend
  rw [nextPiece_nil hrest] at hend
  obtain ⟨hall, hpos⟩ := hread
  rw [hrest, List.append_nil] at hall
  rw [← (Prod.mk.inj (Except.ok.inj hend)).2, hpos, ← hall]
  exact Nat.zero_add _

theorem readTemplate_bare {source : Text} {nodes : List Node}
    (h : readTemplate g source = .ok ⟨nodes, none, none⟩) :
    ∃ r, ReadsNodes g 0 .nothing ⟨0, source⟩ r ∧ r.stop = .endOfSource ∧ r.found = .nothing ∧
      r.nodes = nodes := by
  obtain ⟨r, hreads, hstop, heq⟩ := readTemplate_reads h
  refine ⟨r, hreads, hstop, ?_, (congrArg Template.nodes heq).symm⟩
  have hscript := congrArg Template.script heq
  have hstyle := congrArg Template.style heq
  cases hfound : r.found with
  | mk script style =>
    rw [hfound] at hscript hstyle
    cases hscript
    cases hstyle
    rfl

/-- A template without scripts and styles and another one behind it are one template, unless the
first ends with a plain text. -/
theorem readTemplate_append {s₁ s₂ : Text} {nodes₁ nodes₂ : List Node} (hg : g.Shifts)
    (h₁ : readTemplate g s₁ = .ok ⟨nodes₁, none, none⟩)
    (h₂ : readTemplate g s₂ = .ok ⟨nodes₂, none, none⟩) (hlast : EndsClosed nodes₁) :
    readTemplate g (s₁ ++ s₂) =
      .ok ⟨nodes₁ ++ nodes₂.map (Node.shift (byteLength s₁)), none, none⟩ := by
  obtain ⟨r₁, hreads₁, hstop₁, hfound₁, rfl⟩ := readTemplate_bare h₁
  obtain ⟨r₂, hreads₂, hstop₂, hfound₂, rfl⟩ := readTemplate_bare h₂
  -- The second source is read where the first one ends.
  have hstart : (⟨0, s₂⟩ : Cursor).moved (byteLength s₁) [] = ⟨r₁.after.pos + 0, s₂⟩ := by
    rw [hreads₁.after_pos hstop₁, Cursor.moved, Nat.zero_add, List.append_nil, Nat.add_zero]
  have hmoved := hreads₂.moved (hg.carries (byteLength s₁)) hfound₂ (.inl rfl)
  rw [hstart] at hmoved
  have hall := hreads₁.followed (carries_id g) hfound₁ hstop₁ hlast hmoved
  rw [readTemplate_of_reads hall (congrArg (Stop.carry _) hstop₂)]
  simp only [Children.followedBy, Children.carry, nodesCarry_zero, hfound₂,
    nodesCarry_eq_map _ (Expr.shift _)]
  rfl

end TemplateCompiler
