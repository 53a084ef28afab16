import Mathlib.Data.List.Perm.Subperm
import TemplateCompiler.Proofs.Template.Pointing
import TemplateCompiler.Proofs.Template.Recording

/-!
# The reader makes progress

Every call of a reader ends where it started or behind that, whether it succeeds or not, and never
behind the end of the source or inside of a character. Some readers may read nothing, such as that
of a bare value that is empty, so this alone does not end the reading. But each round in which
children are read starts at a larger offset than the round before it, and it does so across all
calls, also those of elements and blocks in each other. The one round that reads nothing is that at
the end of the source, and inside of an element or block it makes the call fail.

So the bounds on which the readers recurse are never reached: any larger bound gives the same.

## What this module delivers

* `Cursor.Reaches`: a cursor that reading leads to.
* `Watch.Quiet`, `Watch.Advances`: watched readers that make progress, without and with rounds.
* `watchChildren_advances`, `watchIf_advances`: the readers of nodes make progress.
* `watchChildren_bound`, `watchIf_bound`: the bound does not matter.
* `readTemplate_makes_progress`: whole templates.
-/

set_option autoImplicit false

namespace TemplateCompiler

open Script Text

variable {g : Grammar} {α β : Type}

/-! ## Cursors -/

namespace Cursor

/-- Reading leads from one cursor to another. -/
def Reaches (c c' : Cursor) : Prop :=
  ∃ read, c.Leads read c'

variable {a b c : Cursor}

theorem Reaches.refl (c : Cursor) : c.Reaches c :=
  ⟨[], .refl c⟩

theorem Leads.reaches {read : Text} (h : a.Leads read b) : a.Reaches b :=
  ⟨read, h⟩

theorem Reaches.trans (h : a.Reaches b) (h' : b.Reaches c) : a.Reaches c := by
  obtain ⟨read, hread⟩ := h
  obtain ⟨more, hmore⟩ := h'
  exact ⟨read ++ more, hread.trans hmore⟩

theorem Reaches.pos_le (h : a.Reaches b) : a.pos ≤ b.pos := by
  obtain ⟨read, hread⟩ := h
  exact hread.pos_le

theorem Reaches.length_le (h : a.Reaches b) : b.rest.length ≤ a.rest.length := by
  obtain ⟨read, hread⟩ := h
  have hlen := hread.length_eq
  omega

/-- A larger offset leaves a shorter text. -/
theorem Reaches.length_lt (h : a.Reaches b) (hlt : a.pos < b.pos) :
    b.rest.length < a.rest.length := by
  obtain ⟨read, hread⟩ := h
  have hlen := hread.length_eq
  cases read with
  | nil =>
    have hpos : b.pos = a.pos := hread.2
    omega
  | cons x read =>
    rw [List.length_cons] at hlen
    omega

theorem skipBlanks_reaches (c : Cursor) : c.Reaches c.skipBlanks :=
  c.skipBlanks_leads

end Cursor

open Cursor (Reaches)

/-- A call between two cursors that reading leads to. -/
def ReaderCall.From (c : Cursor) (call : ReaderCall) : Prop :=
  ∃ a b, c.Reaches a ∧ a.Reaches b ∧ call.entry = a.pos ∧ call.exit = b.pos

theorem ReaderCall.From.mono {c c' : Cursor} {call : ReaderCall} (h : call.From c')
    (hc : c.Reaches c') : call.From c := by
  obtain ⟨a, b, ha, hab, hentry, hexit⟩ := h
  exact ⟨a, b, hc.trans ha, hab, hentry, hexit⟩

/-- The offsets at which the calls for children started. -/
def childEntries (calls : List ReaderCall) : List Nat :=
  (calls.filter (·.kind = .children)).map ReaderCall.entry

theorem childEntries_append (calls calls' : List ReaderCall) :
    childEntries (calls ++ calls') = childEntries calls ++ childEntries calls' := by
  rw [childEntries, List.filter_append, List.map_append, childEntries, childEntries]

namespace Watch

variable {w : Watch α} {f : α → Cursor → Watch β} {c c' : Cursor}

theorem childEntries_call {kind : ReaderKind} (hkind : kind ≠ .children) (entry : Nat)
    (w : Watch α) : childEntries (w.call kind entry).calls = childEntries w.calls := by
  have hnone : childEntries [⟨kind, entry, w.cursor.pos⟩] = [] := by simp [childEntries, hkind]
  exact (childEntries_append _ _).trans (by rw [hnone, List.append_nil])

/-- The calls of one reader behind the other. -/
theorem from_append {calls calls' : List ReaderCall} (h : ∀ call ∈ calls, call.From c)
    (h' : ∀ call ∈ calls', call.From c') (hc : c.Reaches c') :
    ∀ call ∈ calls ++ calls', call.From c := by
  intro call hcall
  rcases List.mem_append.1 hcall with hcall | hcall
  · exact h call hcall
  · exact (h' call hcall).mono hc

theorem from_call (kind : ReaderKind) (h : ∀ call ∈ w.calls, call.From c)
    (hreaches : c.Reaches w.cursor) : ∀ call ∈ (w.call kind c.pos).calls, call.From c := by
  refine List.forall_mem_append.2 ⟨h, List.forall_mem_singleton.2 ?_⟩
  exact ⟨c, w.cursor, .refl c, hreaches, rfl, rfl⟩

/-! ## Readers without rounds -/

/-- A watched reader that goes forward, calls included, has no rounds and reads no children. -/
structure Quiet (c : Cursor) (w : Watch α) : Prop where
  reaches : c.Reaches w.cursor
  calls : ∀ call ∈ w.calls, call.From c
  rounds : w.rounds = []
  childless : childEntries w.calls = []

theorem quiet_lift {x : Except TemplateError α} (h : c.Reaches c') : (lift x c').Quiet c :=
  ⟨h, nofun, rfl, rfl⟩

theorem quiet_ofRead {x : Except TemplateError (α × Cursor)} {failed : Cursor}
    (hok : ∀ a after, x = .ok (a, after) → c.Reaches after) (herror : c.Reaches failed) :
    (ofRead x failed).Quiet c := by
  cases x with
  | error e => exact quiet_lift herror
  | ok p => exact quiet_lift (hok p.1 p.2 rfl)

theorem Quiet.mono (h : w.Quiet c') (hc : c.Reaches c') : w.Quiet c :=
  ⟨hc.trans h.reaches, fun call hcall => (h.calls call hcall).mono hc, h.rounds, h.childless⟩

theorem Quiet.bind (hw : w.Quiet c)
    (hf : ∀ a, w.outcome = .ok a → (f a w.cursor).Quiet w.cursor) : (w.bind f).Quiet c := by
  cases ha : w.outcome with
  | error e =>
    rw [bind_of_error f ha]
    exact ⟨hw.reaches, hw.calls, hw.rounds, hw.childless⟩
  | ok a =>
    rw [bind_of_ok f ha]
    have hnext := hf a ha
    refine ⟨hw.reaches.trans hnext.reaches, from_append hw.calls hnext.calls hw.reaches, ?_, ?_⟩
    · show w.rounds ++ (f a w.cursor).rounds = []
      rw [hw.rounds, hnext.rounds]
      rfl
    · rw [childEntries_append, hw.childless, hnext.childless]
      rfl

theorem Quiet.map (hw : w.Quiet c) (f : α → β) : (w.map f).Quiet c :=
  hw.bind fun _ _ => quiet_lift (.refl _)

theorem Quiet.call (hw : w.Quiet c) (kind : ReaderKind) (hkind : kind ≠ .children) :
    (w.call kind c.pos).Quiet c := by
  refine ⟨hw.reaches, from_call kind hw.calls hw.reaches, hw.rounds, ?_⟩
  rw [childEntries_call hkind]
  exact hw.childless

/-! ## Readers with rounds -/

/-- A watched reader that goes forward, calls included, in rounds at increasing offsets. Each call
for children in it starts with a round of its own. If it succeeds, and its result is `done`, it ends
behind all its rounds, so that more of them may follow. -/
structure Advances (done : α → Prop) (c : Cursor) (w : Watch α) : Prop where
  reaches : c.Reaches w.cursor
  calls : ∀ call ∈ w.calls, call.From c
  increasing : w.rounds.Pairwise (· < ·)
  rounded : (childEntries w.calls).Subperm w.rounds
  entered : ∀ p ∈ w.rounds, c.pos ≤ p
  passed : ∀ a, w.outcome = .ok a → done a → ∀ p ∈ w.rounds, p < w.cursor.pos

variable {done : α → Prop} {done' : β → Prop}

theorem Quiet.advances (h : w.Quiet c) : w.Advances done c := by
  refine ⟨h.reaches, h.calls, ?_, ?_, ?_, ?_⟩
  · rw [h.rounds]
    exact List.Pairwise.nil
  · rw [h.childless]
    exact List.nil_subperm
  · rw [h.rounds]
    exact nofun
  · intro _ _ _
    rw [h.rounds]
    exact nofun

/-- One reader behind the other. The second one has rounds only if the first one is done, and if it
is not, then neither is the whole. -/
theorem Advances.bind (hw : w.Advances done c)
    (hf : ∀ a, w.outcome = .ok a → (f a w.cursor).Advances done' w.cursor)
    (hdone : ∀ a, w.outcome = .ok a → done a ∨
      (f a w.cursor).rounds = [] ∧ ∀ b, (f a w.cursor).outcome = .ok b → ¬ done' b) :
    (w.bind f).Advances done' c := by
  cases ha : w.outcome with
  | error e =>
    rw [bind_of_error f ha]
    exact ⟨hw.reaches, hw.calls, hw.increasing, hw.rounded, hw.entered, nofun⟩
  | ok a =>
    rw [bind_of_ok f ha]
    have hnext := hf a ha
    have hpos := hnext.reaches.pos_le
    refine ⟨hw.reaches.trans hnext.reaches, from_append hw.calls hnext.calls hw.reaches, ?_, ?_, ?_,
      ?_⟩
    · -- The rounds of the first reader end before those of the second one start.
      refine List.pairwise_append.2 ⟨hw.increasing, hnext.increasing, ?_⟩
      intro p hp q hq
      rcases hdone a ha with hdone | ⟨hnone, -⟩
      · exact Nat.lt_of_lt_of_le (hw.passed a ha hdone p hp) (hnext.entered q hq)
      · rw [hnone] at hq
        cases hq
    · rw [childEntries_append]
      exact hw.rounded.append hnext.rounded
    · intro p hp
      rcases List.mem_append.1 hp with hp | hp
      · exact hw.entered p hp
      · exact Nat.le_trans hw.reaches.pos_le (hnext.entered p hp)
    · intro b hb hdoneb p hp
      rcases hdone a ha with hdone | ⟨-, hnot⟩
      · rcases List.mem_append.1 hp with hp | hp
        · exact Nat.lt_of_lt_of_le (hw.passed a ha hdone p hp) hpos
        · exact hnext.passed b hb hdoneb p hp
      · exact absurd hdoneb (hnot b hb)

theorem Advances.map (hw : w.Advances done c) {f : α → β} (hf : ∀ a, done' (f a) → done a) :
    (w.map f).Advances done' c := by
  refine hw.bind (fun _ _ => (quiet_lift (.refl _)).advances) ?_
  intro a ha
  by_cases hdone : done a
  · exact .inl hdone
  · refine .inr ⟨rfl, ?_⟩
    intro b hb
    cases hb
    exact fun h => hdone (hf a h)

theorem Advances.call (hw : w.Advances done c) (kind : ReaderKind) (hkind : kind ≠ .children) :
    (w.call kind c.pos).Advances done c := by
  refine ⟨hw.reaches, from_call kind hw.calls hw.reaches, hw.increasing, ?_, hw.entered, hw.passed⟩
  rw [childEntries_call hkind]
  exact hw.rounded

theorem Advances.of_call {kind : ReaderKind} {entry : Nat}
    (h : (w.call kind entry).Advances done c) : w.Advances done c := by
  refine ⟨h.reaches, ?_, h.increasing, ?_, h.entered, h.passed⟩
  · intro call hcall
    exact h.calls call (List.mem_append_left _ hcall)
  · have hrounded := h.rounded
    rw [Watch.call, childEntries_append] at hrounded
    exact (List.sublist_append_left _ _).subperm.trans hrounded

theorem Advances.callIf (hw : w.Advances done c) (b : Bool) {kind : ReaderKind}
    (hkind : kind ≠ .children) : (w.callIf b kind c.pos).Advances done c := by
  cases b with
  | false => exact hw
  | true => exact hw.call kind hkind

/-- A call for children starts with a round, and that before everything in it. -/
theorem Advances.callRound (hw : w.Advances done c) (hrounds : ∀ p ∈ w.rounds, c.pos < p)
    (hlt : ∀ a, w.outcome = .ok a → done a → c.pos < w.cursor.pos) :
    ((w.round c.pos).call .children c.pos).Advances done c := by
  refine ⟨hw.reaches, from_call .children hw.calls hw.reaches,
    List.pairwise_cons.2 ⟨hrounds, hw.increasing⟩, ?_, ?_, ?_⟩
  · rw [Watch.call, childEntries_append]
    exact (List.perm_append_singleton _ _).subperm.trans ((List.subperm_cons _).2 hw.rounded)
  · intro p hp
    rcases List.mem_cons.1 hp with rfl | hp
    · exact Nat.le_refl _
    · exact hw.entered p hp
  · intro a ha hdone p hp
    rcases List.mem_cons.1 hp with rfl | hp
    · exact hlt a ha hdone
    · exact hw.passed a ha hdone p hp

end Watch

open Watch

/-! ## Tags and pieces -/

theorem watchParts_quiet (quote : Option Char) (start n : Nat) (c : Cursor) :
    (watchParts g quote start n c).Quiet c := by
  induction n generalizing c with
  | zero => exact quiet_lift (.refl c)
  | succ n ih =>
    unfold watchParts
    split
    · exact quiet_lift (.refl c)
    · rename_i x t hrest
      split
      · exact quiet_lift (.refl c)
      · split
        · rename_i hbraces
          obtain ⟨u, hopen⟩ := startsWith_braces_iff.1 hbraces
          refine (quiet_ofRead ?_ (.refl c)).bind fun content _ => ?_
          · intro content after htake
            exact (takeMustache_eq_ok hopen htake).leads.reaches
          · exact (quiet_lift (.refl _)).bind fun e _ => (ih _).map _
        · have hx : c.Leads [x] ⟨c.pos + x.utf8Size, t⟩ := Cursor.skip_leads hrest
          exact ((ih _).mono hx.reaches).map _

/-- A quoted value that is read ends behind its quote. -/
theorem watchValue_quiet (c : Cursor) : (watchValue g c).Quiet c := by
  unfold watchValue
  split
  · rename_i q t hopen
    split
    · rename_i hquote
      have hq : q.utf8Size = 1 := utf8Size_quote (by simpa using hquote)
      have hstart := (Cursor.leads_char hopen hq).reaches
      refine ((watchParts_quiet (some q) c.pos _ _).mono hstart).bind fun parts hparts => ?_
      have hresult := result_eq_ok_iff.2 ⟨hparts, rfl⟩
      rw [watchParts_result] at hresult
      rcases (attributeParts_reads (Nat.lt_succ_self t.length) hresult).ends with hends | ⟨-, hnone⟩
      · apply quiet_lift
        generalize Watch.cursor _ = stop at hends
        obtain ⟨pos, rest⟩ := stop
        cases rest with
        | nil => cases hends
        | cons x u =>
          have hx : x = q := by simpa [endsValue] using hends
          subst hx
          exact (Cursor.leads_char rfl hq).reaches
      · cases hnone
    · exact watchParts_quiet ..
  · exact quiet_lift (.refl c)

theorem watchRest_quiet (c : Cursor) : (watchRest g c).Quiet c := by
  unfold watchRest
  dsimp only
  split
  · rename_i t hequals
    have hstart : c.Reaches (Cursor.skipBlanks ⟨c.skipBlanks.pos + 1, t⟩) :=
      (c.skipBlanks_reaches.trans (Cursor.leads_char hequals rfl).reaches).trans
        (Cursor.skipBlanks_reaches _)
    exact (((watchValue_quiet _).call .attributeValue nofun).mono hstart).map _
  · exact quiet_lift c.skipBlanks_reaches

theorem watchAttributes_quiet (n : Nat) (c : Cursor) : (watchAttributes g n c).Quiet c := by
  induction n generalizing c with
  | zero => exact quiet_lift (.refl c)
  | succ n ih =>
    unfold watchAttributes
    dsimp only
    split
    · exact quiet_lift c.skipBlanks_reaches
    · split
      · exact quiet_lift c.skipBlanks_reaches
      · have hname := c.skipBlanks_reaches.trans
          (c.skipBlanks.span_leads isAttributeNameChar).reaches
        exact ((watchRest_quiet _).mono hname).bind fun value _ => (ih _).map _

theorem endTag_reaches {start : Nat} {name : Text} {attrs : List Attribute} {stop : Cursor}
    {tag : OpeningTag} (h : endTag start name attrs stop = .ok tag) : stop.Reaches tag.after := by
  unfold endTag at h
  split at h
  · rename_i hend
    cases h
    exact (Cursor.leads_chars hend rfl rfl).reaches
  · rename_i hend
    cases h
    exact (Cursor.leads_char hend rfl).reaches
  · cases h

theorem watchOpeningTag_quiet {c : Cursor} {t : Text} (hopen : c.rest = '<' :: t) :
    (watchOpeningTag g c).Quiet c := by
  have hbracket : c.Reaches ⟨c.pos + 1, c.rest.drop 1⟩ := by
    rw [hopen]
    exact (Cursor.leads_char hopen rfl).reaches
  have hname := hbracket.trans
    (Cursor.span_leads ⟨c.pos + 1, c.rest.drop 1⟩ isTagNameChar).reaches
  unfold watchOpeningTag
  dsimp only
  split
  · exact quiet_lift hname
  · refine (((watchAttributes_quiet _ _).call .attributeList nofun).mono hname).bind
      fun attrs _ => quiet_ofRead ?_ (.refl _)
    intro tag after hread
    obtain ⟨tag', htag, heq⟩ := bind_eq_ok_iff.1 hread
    cases heq
    exact endTag_reaches htag

theorem failedPiece_reaches (c : Cursor) : c.Reaches (failedPiece c) := by
  unfold failedPiece
  split
  · rename_i hopen
    split
    · rename_i htake
      exact (takeMustache_eq_ok hopen htake).leads.reaches
    · exact .refl c
  · rename_i t hopen
    have hstart : c.Reaches ⟨c.pos + 2, c.rest.drop 2⟩ := by
      rw [hopen]
      exact (Cursor.leads_chars hopen rfl rfl).reaches
    exact (hstart.trans (Cursor.span_leads _ isTagNameChar).reaches).trans
      (Cursor.skipBlanks_reaches _)
  · exact .refl c

theorem watchPiece_quiet (c : Cursor) : (watchPiece g c).Quiet c := by
  unfold watchPiece
  split
  · rename_i hopens
    unfold opensElement at hopens
    split at hopens
    · rename_i hopen
      exact (watchOpeningTag_quiet hopen).map _
    · cases hopens
  · refine quiet_ofRead ?_ (failedPiece_reaches c)
    intro piece after hpiece
    obtain ⟨read, hread, -⟩ := nextPiece_leads hpiece
    exact hread.reaches

/-- Every piece but the end of the source takes up some of it. -/
theorem watchPiece_moves {c : Cursor} {p : Piece} (h : (watchPiece g c).outcome = .ok p) :
    p = .stop .endOfSource ∨ c.pos < (watchPiece g c).cursor.pos := by
  have hresult := result_eq_ok_iff.2 ⟨h, rfl⟩
  rw [watchPiece_result] at hresult
  obtain ⟨read, hread, hend | hne⟩ := nextPiece_leads hresult
  · exact .inl hend
  · exact .inr (hread.pos_lt hne)

theorem watchRaw_quiet (name : Text) (start : Nat) (selfClosing : Bool) (found : Found)
    (c : Cursor) : (watchRaw g name start selfClosing found c).Quiet c := by
  apply quiet_ofRead
  · intro found' after hblock
    exact rawBlock_leads hblock
  · split
    · rename_i hcontent
      obtain ⟨closing, hlead⟩ := rawContent_leads hcontent
      exact hlead.reaches
    · exact .refl c

/-! ## Nodes -/

/-- Children that do not end with the source. -/
def Children.Closed (r : Children) : Prop :=
  r.stop ≠ .endOfSource

/-- Children that end with the source are never closed as they should be. -/
theorem expectClose_endOfSource {name : Text} {start : Nat} {r : Children} (h : ¬ r.Closed) :
    ∀ u, expectClose name start r ≠ .ok u := by
  have hstop : r.stop = .endOfSource := not_not.1 h
  intro u hu
  rw [expectClose_eq_ok hu] at hstop
  cases hstop

theorem expectClosingTag_endOfSource {name : Text} {start : Nat} {r : Children}
    (h : ¬ r.Closed) : ∀ u, expectClosingTag name start r ≠ .ok u := by
  have hstop : r.stop = .endOfSource := not_not.1 h
  intro u hu
  rw [expectClosingTag_eq_ok hu] at hstop
  cases hstop

/-- Children are read, and then their end is checked. Where the check fails no more rounds follow.
-/
theorem Watch.Advances.closing {w : Watch Children} {c : Cursor}
    {check : Children → Except TemplateError Unit} {f : Children → Cursor → Unit → α}
    (hw : w.Advances Children.Closed c)
    (hcheck : ∀ r, ¬ r.Closed → ∀ u, check r ≠ .ok u) :
    (w.bind fun r after => (Watch.lift (check r) after).map (f r after)).Advances
      (fun _ => True) c := by
  refine hw.bind (fun _ _ => ((quiet_lift (.refl _)).map _).advances) ?_
  intro r _
  by_cases hclosed : r.Closed
  · exact .inl hclosed
  · refine .inr ⟨((quiet_lift (.refl _)).map _).rounds, ?_⟩
    intro b hb
    obtain ⟨u, hu, -⟩ := ok_of_bind hb
    exact absurd hu (hcheck r hclosed u)

/-- A round that goes forward: what is in it is behind its start, and it reads something unless it
is at the end of the source. -/
structure Watch.Moves (c : Cursor) (w : Watch RoundResult) : Prop where
  advances : w.Advances (fun _ => True) c
  beyond : ∀ p ∈ w.rounds, c.pos < p
  moved : ∀ r, w.outcome = .ok r → r = .stop .endOfSource ∨ c.pos < w.cursor.pos

theorem Watch.Moves.callIf {c : Cursor} {w : Watch RoundResult} {b : Bool} {kind : ReaderKind}
    (h : w.Moves c) (hkind : kind ≠ .children) : (w.callIf b kind c.pos).Moves c := by
  refine ⟨h.advances.callIf b hkind, ?_, ?_⟩
  · cases b <;> exact h.beyond
  · cases b <;> exact h.moved

/-- A round and what follows it. Behind the end of the source nothing follows. -/
theorem Watch.Moves.continued {c : Cursor} {w : Watch RoundResult}
    {f : RoundResult → Cursor → Watch Children} (h : w.Moves c)
    (hf : ∀ r after, (f r after).Advances Children.Closed after)
    (hend : ∀ after, ∃ r, f (.stop .endOfSource) after = .lift (.ok r) after ∧ ¬ r.Closed) :
    (((w.bind f).round c.pos).call .children c.pos).Advances Children.Closed c := by
  apply Advances.callRound (h.advances.bind (fun r _ => hf r _) fun _ _ => .inl trivial)
  · intro q hq
    cases hr : w.outcome with
    | error e =>
      rw [bind_of_error f hr] at hq
      exact h.beyond q hq
    | ok r =>
      rw [bind_of_ok f hr] at hq
      rcases List.mem_append.1 hq with hq | hq
      · exact h.beyond q hq
      · rcases h.moved r hr with rfl | hlt
        · obtain ⟨r, hlift, -⟩ := hend w.cursor
          rw [hlift] at hq
          cases hq
        · exact Nat.lt_of_lt_of_le hlt ((hf r _).entered q hq)
  · intro a ha hclosed
    obtain ⟨r, hr, ha⟩ := ok_of_bind ha
    rw [bind_of_ok f hr]
    rcases h.moved r hr with rfl | hlt
    · -- Children that end with the source are not closed, so nothing is to be shown for them.
      obtain ⟨r, hlift, hnot⟩ := hend w.cursor
      rw [hlift] at ha
      cases ha
      exact absurd hclosed hnot
    · exact Nat.lt_of_lt_of_le hlt (hf r _).reaches.pos_le

section Rounds

variable {readChildren : Nat → Found → Cursor → Watch Children}
  {readIf : Nat → Expr → Nat → Found → Cursor → Watch (Node × Found)}
  (hchildren : ∀ depth found c,
    ((readChildren depth found c).call .children c.pos).Advances Children.Closed c)
  (hif : ∀ depth test start found c, (readIf depth test start found c).Advances (fun _ => True) c)
include hchildren hif

theorem watchNode_advances (depth : Nat) (found : Found) (start : Nat) (piece : Piece)
    (c : Cursor) :
    (watchNode g readChildren readIf depth found start piece c).Advances (fun _ => True) c := by
  unfold watchNode
  cases piece with
  | stop | text | tag => exact (quiet_lift (.refl c)).advances
  | opensIf test =>
    have hblock := (hif depth test start found c).call .ifBlock nofun
    exact hblock.map fun _ _ => trivial
  | opensEach iterable item index =>
    have hbody := hchildren (depth + 1) found c
    exact (hbody.closing fun r hr => expectClose_endOfSource hr).call .eachBlock nofun
  | opens tag =>
    dsimp only
    split
    · split
      · exact ((watchRaw_quiet _ _ _ _ c).map _).advances
      · exact (quiet_lift (.refl c)).advances
    · split
      · exact (quiet_lift (.refl c)).advances
      · have hbody := hchildren (depth + 1) found c
        exact hbody.closing fun r hr => expectClosingTag_endOfSource hr

theorem watchRound_moves (depth : Nat) (found : Found) (c : Cursor) :
    (watchRound g readChildren readIf depth found c).Moves c := by
  refine Watch.Moves.callIf ?_ nofun
  have hpiece : (watchPiece g c).Quiet c := watchPiece_quiet c
  have hnode := watchNode_advances hchildren hif (g := g) depth found c.pos
  have hadvances := hpiece.advances.bind (fun p _ => hnode p _) fun _ _ => .inl trivial
  refine ⟨hadvances, ?_, ?_⟩
  · intro q hq
    cases hp : (watchPiece g c).outcome with
    | error e =>
      rw [bind_of_error _ hp, hpiece.rounds] at hq
      cases hq
    | ok p =>
      rw [bind_of_ok _ hp, hpiece.rounds] at hq
      rcases watchPiece_moves hp with rfl | hlt
      · cases hq
      · exact Nat.lt_of_lt_of_le hlt ((hnode p _).entered q hq)
  · intro r hr
    obtain ⟨p, hp, hr⟩ := ok_of_bind hr
    rw [bind_of_ok _ hp]
    rcases watchPiece_moves hp with rfl | hlt
    · cases hr
      exact .inl rfl
    · exact .inr (Nat.lt_of_lt_of_le hlt (hnode p _).reaches.pos_le)

end Rounds

theorem mem_rounds_watchChildren (n depth : Nat) (found : Found) (c : Cursor) :
    c.pos ∈ (watchChildren g n depth found c).rounds := by
  cases n <;> exact List.mem_cons_self

mutual

/-- Reading children goes forward, in rounds at increasing offsets. -/
theorem watchChildren_advances (g : Grammar) : (n depth : Nat) → (found : Found) → (c : Cursor) →
    ((watchChildren g n depth found c).call .children c.pos).Advances Children.Closed c
  | 0, _, _, c => by
    refine (quiet_lift (.refl c)).advances.callRound nofun ?_
    intro r hr hclosed
    cases hr
    exact absurd rfl hclosed
  | n + 1, depth, found, c => by
    have hround : (watchRound g (watchChildren g n) (watchIf g n) depth found c).Moves c :=
      watchRound_moves (watchChildren_advances g n) (watchIf_advances g n) depth found c
    rw [watchChildren]
    apply hround.continued
    · intro r after
      rcases r with s | ⟨node | node, found'⟩
      · exact (quiet_lift (.refl after)).advances
      · exact (watchChildren_advances g n depth found' after).of_call
      · exact (watchChildren_advances g n depth found' after).of_call.map fun _ h => h
    · intro after
      exact ⟨_, rfl, fun h => h rfl⟩

/-- Reading a conditional block goes forward, in rounds at increasing offsets. -/
theorem watchIf_advances (g : Grammar) : (n depth : Nat) → (test : Expr) → (start : Nat) →
    (found : Found) → (c : Cursor) →
    (watchIf g n depth test start found c).Advances (fun _ => True) c
  | 0, _, _, _, _, c => (quiet_lift (.refl c)).advances
  | n + 1, depth, test, start, found, c => by
    have hbody := watchChildren_advances g n (depth + 1) found c
    rw [watchIf]
    refine hbody.bind (fun body _ => ?_) (fun body _ => ?_)
    · split
      · have hother := watchChildren_advances g n (depth + 1) body.found
          (watchChildren g n (depth + 1) found c).cursor
        exact hother.closing fun r hr => expectClose_endOfSource hr
      · rename_i test' _
        have hnested := (watchIf_advances g n depth test' body.stopStart body.found
          (watchChildren g n (depth + 1) found c).cursor).call .ifBlock nofun
        exact hnested.bind (fun _ _ => (quiet_lift (.refl _)).advances) fun _ _ => .inl trivial
      · exact ((quiet_lift (.refl _)).map _).advances
    · by_cases hclosed : body.Closed
      · exact .inl hclosed
      · have hstop : body.stop = .endOfSource := not_not.1 hclosed
        simp only [hstop]
        refine .inr ⟨((quiet_lift (.refl _)).map _).rounds, ?_⟩
        intro b hb
        obtain ⟨u, hu, -⟩ := ok_of_bind hb
        exact absurd hu (expectClose_endOfSource hclosed u)

end

/-! ## Bounds -/

theorem Watch.bind_congr {w : Watch α} {f f' : α → Cursor → Watch β}
    (h : ∀ a, w.outcome = .ok a → f a w.cursor = f' a w.cursor) : w.bind f = w.bind f' := by
  cases ha : w.outcome with
  | error e => rw [bind_of_error f ha, bind_of_error f' ha]
  | ok a => rw [bind_of_ok f ha, bind_of_ok f' ha, h a ha]

theorem watchParts_bound (quote : Option Char) (start : Nat) {n m : Nat} {c : Cursor}
    (hn : c.rest.length < n) (hm : c.rest.length < m) :
    watchParts g quote start n c = watchParts g quote start m c := by
  induction n generalizing m c with
  | zero => exact absurd hn (Nat.not_lt_zero _)
  | succ n ih =>
    obtain ⟨m, rfl⟩ : ∃ k, m = k + 1 := ⟨m - 1, by omega⟩
    obtain ⟨pos, rest⟩ := c
    cases rest with
    | nil => rfl
    | cons x t =>
      rw [watchParts, watchParts]
      dsimp only
      split
      · rfl
      split
      · rename_i hbraces
        obtain ⟨u, hopen⟩ := startsWith_braces_iff.1 hbraces
        refine bind_congr fun content htake => bind_congr fun e _ => ?_
        have hresult := result_eq_ok_iff.2 ⟨htake, rfl⟩
        rw [result_ofRead] at hresult
        have hlen := (takeMustache_eq_ok hopen hresult).four_le
        dsimp only [lift] at hn hm hlen ⊢
        exact congrArg (Watch.map _) (ih (by omega) (by omega))
      · rw [List.length_cons] at hn hm
        exact congrArg (Watch.map _) (ih (by dsimp only; omega) (by dsimp only; omega))

/-- An attribute has a name, so the bound lasts for the attributes behind it. -/
theorem watchAttributes_bound {n m : Nat} {c : Cursor} (hn : c.rest.length < n)
    (hm : c.rest.length < m) : watchAttributes g n c = watchAttributes g m c := by
  induction n generalizing m c with
  | zero => exact absurd hn (Nat.not_lt_zero _)
  | succ n ih =>
    obtain ⟨m, rfl⟩ : ∃ k, m = k + 1 := ⟨m - 1, by omega⟩
    rw [watchAttributes, watchAttributes]
    dsimp only
    split
    · rfl
    split
    · rfl
    · rename_i hempty
      refine bind_congr fun value _ => congrArg (Watch.map _) ?_
      have hblanks := c.skipBlanks_reaches.length_le
      have hname := (c.skipBlanks.span_leads isAttributeNameChar).length_eq
      have hne := List.length_pos_iff.2 (List.isEmpty_eq_false_iff.1 (Bool.not_eq_true _ ▸ hempty))
      have hrest : (watchRest g (c.skipBlanks.span isAttributeNameChar).2).cursor.rest.length ≤
          (c.skipBlanks.span isAttributeNameChar).2.rest.length :=
        (watchRest_quiet _).reaches.length_le
      exact ih (by omega) (by omega)

theorem watchNode_congr {readChildren readChildren' : Nat → Found → Cursor → Watch Children}
    {readIf readIf' : Nat → Expr → Nat → Found → Cursor → Watch (Node × Found)} {depth : Nat}
    {found : Found} {start : Nat} {piece : Piece} {c : Cursor}
    (hchildren : piece ≠ .stop .endOfSource →
      readChildren (depth + 1) found c = readChildren' (depth + 1) found c)
    (hif : ∀ test, piece = .opensIf test →
      readIf depth test start found c = readIf' depth test start found c) :
    watchNode g readChildren readIf depth found start piece c =
      watchNode g readChildren' readIf' depth found start piece c := by
  cases piece with
  | stop | text | tag => rfl
  | opensIf test => rw [watchNode, watchNode, hif test rfl]
  | opensEach | opens => rw [watchNode, watchNode, hchildren (by simp)]

mutual

/-- A bound that exceeds the text gives what any other such bound gives, whether the reading
succeeds or not. -/
theorem watchChildren_bound : (n m depth : Nat) → (found : Found) → (c : Cursor) →
    c.rest.length < n → c.rest.length < m →
    watchChildren g n depth found c = watchChildren g m depth found c
  | 0, _, _, _, _, hn, _ => absurd hn (Nat.not_lt_zero _)
  | _ + 1, 0, _, _, _, _, hm => absurd hm (Nat.not_lt_zero _)
  | n + 1, m + 1, depth, found, c, hn, hm => by
    have hround : watchRound g (watchChildren g n) (watchIf g n) depth found c =
        watchRound g (watchChildren g m) (watchIf g m) depth found c := by
      unfold watchRound
      refine congrArg (Watch.callIf _ _ _) (bind_congr fun piece hpiece => ?_)
      have hresult := result_eq_ok_iff.2 ⟨hpiece, rfl⟩
      rw [watchPiece_result] at hresult
      apply watchNode_congr
      · intro hne
        have hlt := nextPiece_length_lt hresult hne
        exact watchChildren_bound n m _ _ _ (by omega) (by omega)
      · rintro test rfl
        have hlt := nextPiece_opensIf_length hresult
        exact watchIf_bound n m _ _ _ _ _ (by omega) (by omega)
    have hmoves : (watchRound g (watchChildren g m) (watchIf g m) depth found c).Moves c :=
      watchRound_moves (watchChildren_advances g m) (watchIf_advances g m) depth found c
    rw [watchChildren, watchChildren, hround]
    refine congrArg (Watch.round _) (bind_congr fun r hr => ?_)
    rcases hmoves.moved r hr with rfl | hlt
    · rfl
    · have hlen := hmoves.advances.reaches.length_lt hlt
      rcases r with s | ⟨node | node, found'⟩
      · rfl
      · exact watchChildren_bound n m _ _ _ (by omega) (by omega)
      · exact congrArg (Watch.map _) (watchChildren_bound n m _ _ _ (by omega) (by omega))

theorem watchIf_bound : (n m depth : Nat) → (test : Expr) → (start : Nat) → (found : Found) →
    (c : Cursor) → c.rest.length + 1 < n → c.rest.length + 1 < m →
    watchIf g n depth test start found c = watchIf g m depth test start found c
  | 0, _, _, _, _, _, _, hn, _ => absurd hn (Nat.not_lt_zero _)
  | _ + 1, 0, _, _, _, _, _, _, hm => absurd hm (Nat.not_lt_zero _)
  | n + 1, m + 1, depth, test, start, found, c, hn, hm => by
    rw [watchIf, watchIf, watchChildren_bound n m (depth + 1) found c (by omega) (by omega)]
    refine bind_congr fun body hbody => ?_
    have hadvances := (watchChildren_advances g m (depth + 1) found c).of_call
    have hle := hadvances.reaches.length_le
    split
    · have hother := watchChildren_bound n m (depth + 1) body.found
        (watchChildren g m (depth + 1) found c).cursor (by omega) (by omega)
      exact congrArg (fun w => Watch.bind (Watch.call _ _ w) _) hother
    · rename_i test' hstop
      -- A further condition takes up some of the source.
      have hclosed : body.Closed := by
        intro h
        rw [h] at hstop
        cases hstop
      have hlt := hadvances.reaches.length_lt
        (hadvances.passed body hbody hclosed _ (mem_rounds_watchChildren ..))
      have hnested := watchIf_bound n m depth test' body.stopStart body.found
        (watchChildren g m (depth + 1) found c).cursor (by omega) (by omega)
      exact congrArg (fun w => Watch.bind (Watch.call _ _ w) _) hnested
    · rfl

end

/-! ## Without the record -/

theorem children_bound {n m depth : Nat} {found : Found} {c : Cursor} (hn : c.rest.length < n)
    (hm : c.rest.length < m) : children g n depth found c = children g m depth found c := by
  have hresult := congrArg Watch.outcome (watchChildren_bound (g := g) n m depth found c hn hm)
  rw [outcome_eq (watchChildren_result ..), outcome_eq (watchChildren_result ..)] at hresult
  simpa using hresult

theorem attributes_bound {n m : Nat} {c : Cursor} (hn : c.rest.length < n)
    (hm : c.rest.length < m) : attributes g n c = attributes g m c := by
  rw [← watchAttributes_result, ← watchAttributes_result, watchAttributes_bound hn hm]

theorem attributeParts_bound {quote : Option Char} {start n m : Nat} {c : Cursor}
    (hn : c.rest.length < n) (hm : c.rest.length < m) :
    attributeParts g quote start n c = attributeParts g quote start m c := by
  rw [← watchParts_result, ← watchParts_result, watchParts_bound quote start hn hm]

/-! ## Whole templates -/

theorem watchTemplate_advances (g : Grammar) (source : Text) :
    (watchTemplate g source).Advances (fun _ => False) ⟨0, source⟩ := by
  have htop := watchChildren_advances g (source.length + 2) 0 ⟨none, none⟩ ⟨0, source⟩
  refine htop.bind (fun top _ => (quiet_lift (.refl _)).advances) ?_
  intro top _
  exact .inr ⟨rfl, fun _ _ h => h⟩

/-- The calls that start in a source end in it. -/
theorem ReaderCall.From.ends {source : Text} {call : ReaderCall} (h : call.From ⟨0, source⟩) :
    call.entry ≤ call.exit ∧ call.exit ≤ byteLength source ∧
      isBoundary source call.exit = true := by
  obtain ⟨a, b, ha, hab, hentry, hexit⟩ := h
  obtain ⟨read, hread⟩ := ha.trans hab
  have hend : b.At source := (Cursor.at_start source).of_leads hread
  rw [hentry, hexit]
  exact ⟨hab.pos_le, hend.within.pos_le, hend.within.isBoundary_pos⟩

/-- Reading a template makes progress, on every source. All calls go forward and end in the source,
at a boundary. The rounds in which children are read start at increasing offsets, in whatever call
they are, and each call for children starts with one of its own. The record of calls and rounds is
that of the reader, and has all that is read. So the bounds of the readers are never reached: any
two that exceed the text give the same, whether the reading succeeds or not. -/
theorem readTemplate_makes_progress (g : Grammar) (source : Text) :
    (watchTemplate g source).outcome = readTemplate g source ∧
      (∀ call ∈ (watchTemplate g source).calls, call.entry ≤ call.exit ∧
        call.exit ≤ byteLength source ∧ isBoundary source call.exit = true) ∧
      (watchTemplate g source).rounds.Pairwise (· < ·) ∧
      (childEntries (watchTemplate g source).calls).Subperm (watchTemplate g source).rounds ∧
      (∀ t, readTemplate g source = .ok t → (watchTemplate g source).Records t.nodes) ∧
      (∀ n m depth found c, c.rest.length < n → c.rest.length < m →
        children g n depth found c = children g m depth found c) ∧
      (∀ n m c, c.rest.length < n → c.rest.length < m → attributes g n c = attributes g m c) ∧
      (∀ quote start n m c, c.rest.length < n → c.rest.length < m →
        attributeParts g quote start n c = attributeParts g quote start m c) := by
  have hadvances := watchTemplate_advances g source
  have houtcome := watchTemplate_outcome g source
  refine ⟨houtcome, ?_, hadvances.increasing, hadvances.rounded, ?_, ?_, ?_, ?_⟩
  · intro call hcall
    exact (hadvances.calls call hcall).ends
  · intro t ht
    exact watchTemplate_records (houtcome.trans ht)
  · intro n m depth found c hn hm
    exact children_bound hn hm
  · intro n m c hn hm
    exact attributes_bound hn hm
  · intro quote start n m c hn hm
    exact attributeParts_bound hn hm

/-- An element and a chain of conditions that are not closed, with characters of two bytes and a
value that is empty. -/
def unclosedChain : Text :=
  "<p a=ü\x7b\x7bx\x7d\x7d b=>ß\x7b\x7b#if y\x7d\x7d\x7b\x7belse if z\x7d\x7d<br>".toList

theorem readTemplate_makes_progress_unclosedChain :
    (watchTemplate .standard unclosedChain).calls = [⟨.attributeValue, 5, 12⟩,
      ⟨.attributeValue, 15, 15⟩, ⟨.attributeList, 2, 15⟩, ⟨.children, 27, 40⟩,
      ⟨.attributeList, 43, 43⟩, ⟨.element, 40, 44⟩, ⟨.children, 40, 44⟩, ⟨.ifBlock, 40, 44⟩,
      ⟨.ifBlock, 27, 44⟩, ⟨.children, 16, 44⟩, ⟨.element, 0, 44⟩, ⟨.children, 0, 44⟩] ∧
    (watchTemplate .standard unclosedChain).rounds = [0, 16, 18, 27, 40, 44] ∧
    (∀ call ∈ (watchTemplate .standard unclosedChain).calls,
      call.entry ≤ call.exit ∧ call.exit ≤ 44 ∧ isBoundary unclosedChain call.exit = true) ∧
    (watchTemplate .standard unclosedChain).rounds.Pairwise (· < ·) ∧
    (childEntries (watchTemplate .standard unclosedChain).calls).Subperm
      (watchTemplate .standard unclosedChain).rounds ∧
    unclosedChain.length = 42 ∧
    children .standard 43 0 ⟨none, none⟩ ⟨0, unclosedChain⟩ =
      children .standard 100 0 ⟨none, none⟩ ⟨0, unclosedChain⟩ ∧
    attributes .standard 43 ⟨0, unclosedChain⟩ = attributes .standard 100 ⟨0, unclosedChain⟩ ∧
    attributeParts .standard none 0 43 ⟨0, unclosedChain⟩ =
      attributeParts .standard none 0 100 ⟨0, unclosedChain⟩ := by
  obtain ⟨-, hcalls, hrounds, hrounded, -, hchildren, hattributes, hparts⟩ :=
    readTemplate_makes_progress .standard unclosedChain
  have hlength : unclosedChain.length = 42 := by decide +kernel
  exact ⟨by decide +kernel, by decide +kernel, hcalls, hrounds, hrounded, hlength,
    hchildren 43 100 _ _ _ (by simp [hlength]) (by simp [hlength]),
    hattributes 43 100 _ (by simp [hlength]) (by simp [hlength]),
    hparts _ _ 43 100 _ (by simp [hlength]) (by simp [hlength])⟩

end TemplateCompiler
