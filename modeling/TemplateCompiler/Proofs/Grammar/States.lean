import TemplateCompiler.Proofs.Grammar.Scanning
import TemplateCompiler.Script.Grammar.Basic

/-!
# Readers and where they get to

A reader moves over the tokens of a text from left to right. Between two steps its state points into
the text: the end of the last token and both ends of the current one are character boundaries, in this
order, and what is left to read is what stands behind the current token.

What a reader does is said by what holds of every answer it gives. For the steps that readers are made
of this is an equation, so a rule that is written as a sequence of steps is opened by rewriting, up to
the rules that it calls.

## What this module delivers

* `Gives`: what holds of the answers of a reader, with an equation for each kind of step.
* `Excerpt`, with `GoesOn`, `Mark`, `Begins`, `Ends`: offsets of a text that stands in a source.
* `Ready`: the states that point into an excerpt. `Took`: what consuming tokens does to a state.
* `advance_gives`: the step over a token.
-/

set_option autoImplicit false

namespace TemplateCompiler.Script

open Text Reader

/-! ## Answers -/

/-- What holds of every answer that a reader gives in a state, and of the state it leaves. -/
def Gives {α : Type} (s : ReaderState) (r : Reader α) (Q : α → ReaderState → Prop) : Prop :=
  ∀ a s', r s = some (a, s') → Q a s'

section

variable {α β : Type} {s : ReaderState} {r : Reader α} {f : α → Reader β}
  {Q : α → ReaderState → Prop} {P : β → ReaderState → Prop}

theorem Gives.mono {Q' : α → ReaderState → Prop} (h : Gives s r Q)
    (hQ : ∀ a s', Q a s' → Q' a s') : Gives s r Q' :=
  fun a s' hr => hQ a s' (h a s' hr)

theorem Gives.and {Q' : α → ReaderState → Prop} (h : Gives s r Q) (h' : Gives s r Q') :
    Gives s r fun a s' => Q a s' ∧ Q' a s' :=
  fun a s' hr => ⟨h a s' hr, h' a s' hr⟩

theorem gives_pure {a : α} : Gives s (pure a) Q ↔ Q a s := by
  constructor
  · intro h
    exact h a s rfl
  · intro h b s' hb
    cases hb
    exact h

theorem Gives.fail : Gives s Reader.fail Q := by
  intro a s' h
  cases h

theorem gives_bind : Gives s (r >>= f) P ↔ Gives s r fun a s' => Gives s' (f a) P := by
  constructor
  · intro h a s' hr b s'' hf
    refine h b s'' ?_
    change (r s).bind (fun p => f p.1 p.2) = _
    rw [hr]
    exact hf
  · intro h b s'' hb
    change (r s).bind (fun p => f p.1 p.2) = _ at hb
    obtain ⟨⟨a, s'⟩, hr, hf⟩ := Option.bind_eq_some_iff.1 hb
    exact h a s' hr b s'' hf

theorem gives_map {g : α → β} : Gives s (g <$> r) P ↔ Gives s r fun a s' => P (g a) s' := by
  rw [← bind_pure_comp, gives_bind]
  simp only [gives_pure]

theorem gives_ite {c : Prop} [Decidable c] {r' : Reader α} :
    Gives s (if c then r else r') Q ↔ if c then Gives s r Q else Gives s r' Q := by
  split <;> rfl

/-- A reader that depends on a condition, with what the condition says. -/
theorem Gives.ite {c : Prop} [Decidable c] {r' : Reader α} (hyes : c → Gives s r Q)
    (hno : ¬c → Gives s r' Q) : Gives s (if c then r else r') Q := by
  split
  · exact hyes ‹_›
  · exact hno ‹_›

theorem gives_get {Q : ReaderState → ReaderState → Prop} : Gives s (get : Reader _) Q ↔ Q s s := by
  constructor
  · intro h
    exact h s s rfl
  · intro h a s' ha
    cases ha
    exact h

theorem gives_require {c : Bool} {Q : Unit → ReaderState → Prop} :
    Gives s (require c) Q ↔ (c = true → Q () s) := by
  cases c with
  | true => exact gives_pure.trans ⟨fun h _ => h, fun h => h rfl⟩
  | false => exact ⟨fun _ h => Bool.noConfusion h, fun _ => .fail⟩

theorem gives_lexeme {Q : Lexeme → ReaderState → Prop} :
    Gives s lexeme Q ↔ Q s.current s :=
  gives_bind.trans (gives_get.trans gives_pure)

theorem gives_token {Q : Token → ReaderState → Prop} : Gives s token Q ↔ Q s.current.token s :=
  gives_bind.trans (gives_get.trans gives_pure)

theorem gives_offset {Q : Nat → ReaderState → Prop} : Gives s offset Q ↔ Q s.current.start s :=
  gives_bind.trans (gives_get.trans gives_pure)

theorem gives_newlineBefore {Q : Bool → ReaderState → Prop} :
    Gives s newlineBefore Q ↔ Q s.current.newlineBefore s :=
  gives_bind.trans (gives_get.trans gives_pure)

theorem gives_spanFrom {start : Nat} {Q : Span → ReaderState → Prop} :
    Gives s (spanFrom start) Q ↔ Q ⟨start, s.lastStop⟩ s :=
  gives_bind.trans (gives_get.trans gives_pure)

theorem gives_sees {t : Token} {Q : Bool → ReaderState → Prop} :
    Gives s (sees t) Q ↔ Q (s.current.token == t) s :=
  gives_bind.trans (gives_token.trans gives_pure)

theorem gives_seesWord {w : String} {Q : Bool → ReaderState → Prop} :
    Gives s (seesWord w) Q ↔ Q (isWord s.current.token w) s :=
  gives_bind.trans (gives_token.trans gives_pure)

/-- A look at the next token changes nothing, and tells what the current token becomes. -/
theorem peek_gives {Q : Lexeme → ReaderState → Prop}
    (h : ∀ l, (Gives s advance fun _ s' => s'.current = l) → Q l s) : Gives s peek Q := by
  intro l s' hl
  obtain ⟨l', hscan, heq⟩ := Option.map_eq_some_iff.1 hl
  cases heq
  refine h l ?_
  -- The step over the current token scans the same text, so it finds the same lexeme.
  simp only [advance, gives_bind, gives_lexeme]
  refine .ite (fun _ => .fail) fun _ _ s' hs' => ?_
  obtain ⟨l', hscan', heq⟩ := Option.map_eq_some_iff.1 hs'
  cases heq
  exact Option.some.inj (hscan'.symm.trans hscan)

/-- Whether a statement can end is told without a change. -/
theorem seesEnd_gives {Q : Bool → ReaderState → Prop} (h : ∀ b, Q b s) : Gives s seesEnd Q := by
  simp only [seesEnd, gives_bind, gives_token]
  split <;> simp only [gives_pure, gives_newlineBefore, h]

end

/-! ## Offsets of an excerpt -/

/-- A text that stands at an offset of the source. -/
structure Excerpt where
  text : Text
  pos : Nat

namespace Excerpt

variable (x : Excerpt)

/-- What an excerpt still has from an offset on. -/
def GoesOn (p : Nat) (t : Text) : Prop :=
  ∃ read, x.text = read ++ t ∧ p = x.pos + byteLength read

/-- An offset on a character boundary. -/
def Mark (p : Nat) : Prop := ∃ t, x.GoesOn p t

/-- An offset with a character behind it that is no blank. -/
def Begins (p : Nat) : Prop := ∃ c t, x.GoesOn p (c :: t) ∧ isScriptBlank c = false

/-- An offset with a character before it that is no blank. -/
def Ends (p : Nat) : Prop :=
  ∃ read t, x.text = read ++ t ∧ p = x.pos + byteLength read ∧ Solid read

/-- A lexeme that stands in an excerpt. From behind a slash a regular expression can be read. -/
structure Stands (l : Lexeme) : Prop where
  mark : x.Mark l.start
  after : x.GoesOn l.stop l.after
  le : l.start ≤ l.stop
  begins : l.token ≠ .eof → x.Begins l.start ∧ l.start < l.stop
  ends : l.token ≠ .eof → l.token ≠ .malformed → x.Ends l.stop
  slash : l.token.isSlash = true → x.GoesOn (l.start + 1) (l.token.afterSlash l.after)

/-- A state that points into an excerpt. -/
structure Ready (s : ReaderState) : Prop where
  last : x.Mark s.lastStop
  before : s.lastStop ≤ s.current.start
  current : x.Stands s.current

/-- A state that is reached from another by consuming tokens, the current one of the other first. -/
structure Took (s s' : ReaderState) : Prop where
  ready : x.Ready s'
  begins : x.Begins s.current.start
  lt : s.current.start < s.current.stop
  far : s.current.stop ≤ s'.lastStop
  ends : x.Ends s'.lastStop

variable {x} {s s' s'' : ReaderState} {p : Nat}

theorem GoesOn.mark {t : Text} (h : x.GoesOn p t) : x.Mark p := ⟨t, h⟩

/-- What an excerpt still has says where it has it. -/
theorem GoesOn.unique {p' : Nat} {t : Text} (h : x.GoesOn p t) (h' : x.GoesOn p' t) : p = p' := by
  obtain ⟨read, htext, rfl⟩ := h
  obtain ⟨read', htext', rfl⟩ := h'
  rw [List.append_cancel_right (htext.symm.trans htext')]

theorem GoesOn.append {a t : Text} (h : x.GoesOn p (a ++ t)) : x.GoesOn (p + byteLength a) t := by
  obtain ⟨read, htext, rfl⟩ := h
  refine ⟨read ++ a, by rw [htext, List.append_assoc], ?_⟩
  rw [byteLength_append, Nat.add_assoc]

theorem GoesOn.ends {a t : Text} (h : x.GoesOn p (a ++ t)) (ha : Solid a) :
    x.Ends (p + byteLength a) := by
  obtain ⟨read, htext, rfl⟩ := h
  refine ⟨read ++ a, t, by rw [htext, List.append_assoc], ?_, ha.append read⟩
  rw [byteLength_append, Nat.add_assoc]

/-- What is left behind something without a blank at its end, and where it starts. -/
theorem GoesOn.eats {t rest : Text} (h : x.GoesOn p t) (hrest : Eats t rest) :
    x.GoesOn (p + (byteLength t - byteLength rest)) rest ∧
      x.Ends (p + (byteLength t - byteLength rest)) := by
  obtain ⟨read, rfl, hread⟩ := hrest
  rw [byteLength_append, Nat.add_sub_cancel]
  exact ⟨h.append, h.ends hread⟩

theorem Ends.mark (h : x.Ends p) : x.Mark p := by
  obtain ⟨read, t, htext, hp, -⟩ := h
  exact ⟨t, read, htext, hp⟩

theorem Begins.mark (h : x.Begins p) : x.Mark p := by
  obtain ⟨c, t, ht, -⟩ := h
  exact ht.mark

/-- Two marks are the ends of a span of the excerpt. -/
theorem Mark.placed {q : Nat} (hp : x.Mark p) (hq : x.Mark q) (hle : p ≤ q) :
    ∃ body, StandsAt x.text x.pos ⟨p, q⟩ body := by
  obtain ⟨t, read, htext, rfl⟩ := hp
  obtain ⟨t', read', htext', rfl⟩ := hq
  -- Both marks cut one text, and the second cut is no further left than the first.
  obtain ⟨body, rfl, rfl⟩ := append_eq_append_of_byteLength_le (htext.symm.trans htext') (by omega)
  refine ⟨body, read, t', by rw [htext, List.append_assoc], rfl, ?_⟩
  rw [byteLength_append, Nat.add_assoc]

/-- The scanner finds lexemes of the excerpt that it is given the rest of. -/
theorem stands_of_scan {goal : Goal} {newline : Bool} {t : Text} {l : Lexeme}
    (ht : x.GoesOn p t) (h : scan goal newline p t = some l) : x.Stands l ∧ p ≤ l.start := by
  obtain ⟨gap, read, rfl, hstart, hstop, hbegins, hends, hslash⟩ := scan_eq_some h
  have hon : x.GoesOn l.start (read ++ l.after) := hstart ▸ ht.append
  refine ⟨⟨hon.mark, hstop ▸ hon.append, by omega, ?_, ?_, ?_⟩, by omega⟩
  · intro htoken
    obtain ⟨c, rest, rfl, hc⟩ := hbegins htoken
    refine ⟨⟨c, rest ++ l.after, hon, hc⟩, ?_⟩
    have := byteLength_pos_of_ne_nil (List.cons_ne_nil c rest)
    omega
  · intro htoken hmalformed
    rw [hstop]
    exact hon.ends (hends htoken hmalformed)
  · intro htoken
    rw [hslash htoken] at hon
    exact hon.append (a := ['/'])

attribute [grind →] Took.ready

/-- How the offsets of a state lie. -/
@[grind →]
theorem Ready.order (h : x.Ready s) :
    s.lastStop ≤ s.current.start ∧ s.current.start ≤ s.current.stop :=
  ⟨h.before, h.current.le⟩

/-- How the offsets of two states lie, of which one is reached from the other. -/
@[grind →]
theorem Took.order (h : x.Took s s') :
    s.current.start < s.current.stop ∧ s.current.stop ≤ s'.lastStop ∧
      s'.lastStop ≤ s'.current.start :=
  ⟨h.lt, h.far, h.ready.before⟩

theorem Took.trans (h : x.Took s s') (h' : x.Took s' s'') : x.Took s s'' := by
  refine ⟨h'.ready, h.begins, h.lt, ?_, h'.ends⟩
  grind

/-! ## The step over a token -/

/-- Reading goes on from any offset of the excerpt. -/
theorem resumeAt_gives {t : Text} {Q : Unit → ReaderState → Prop} (ht : x.GoesOn p t)
    (h : ∀ s', x.Ready s' → s'.lastStop = p → Q () s') : Gives s (resumeAt p t) Q := by
  intro a s' hs'
  obtain ⟨l, hl, heq⟩ := Option.map_eq_some_iff.1 hs'
  cases heq
  obtain ⟨hstands, hle⟩ := stands_of_scan ht hl
  exact h _ ⟨ht.mark, hle, hstands⟩ rfl

theorem advance_gives (hs : x.Ready s) (heof : s.current.token ≠ .eof) :
    Gives s advance fun _ s' => x.Took s s' := by
  simp only [advance, gives_bind, gives_lexeme]
  refine .ite (fun _ => .fail) fun hmalformed => ?_
  refine resumeAt_gives hs.current.after fun s' hs' hlast => ?_
  -- Behind a malformed token nothing is read, so the one that is left has no blank at its end.
  have hends := hs.current.ends heof (by simpa using hmalformed)
  obtain ⟨hbegins, hlt⟩ := hs.current.begins heof
  exact ⟨hs', hbegins, hlt, by omega, by rw [hlast]; exact hends⟩

end Excerpt

end TemplateCompiler.Script
