import TemplateCompiler.Proofs.Edit.Commutation

/-!
# Calls that are refused

A buffer is edited in place: a call checks its range, changes the buffer, and may be refused on the way.
What it did to the buffer until then would stay. Here the calls are written out in that manner, and they
turn out to check everything before they change anything, so that a refused call can be left out of a
session. What a session leaves behind is therefore the outcome of the accepted calls alone, and the
ranges they replaced hold no offset in common.

## What this module delivers

* `EditCall`, `EditCall.ofEdit_run`: calls that change a buffer in place do what recording an edit does.
* `EditBuffer.attempts`, `acceptedEdits`, `recordEdits_acceptedEdits`: sessions of calls, refused ones
  among them.
* `Overwrite.Holds`, `Recorded.meetsOverwrite_iff`: one look at the last range before an offset is
  enough.
* `attempts_keep_ranges_disjoint`: the replaced ranges after any session, and what is refused then.
-/

set_option autoImplicit false

namespace TemplateCompiler

open Text

/-! ## Calls in place -/

/-- A call that changes a buffer in place. A refused call leaves the buffer as far changed as it was
when it was refused. -/
abbrev EditCall := EStateM EditFault EditBuffer Unit

namespace EditCall

/-- Goes on only if a condition holds. -/
def require (p : Prop) [Decidable p] (fault : EditFault) : EditCall :=
  if p then pure () else throw fault

/-- Inserts a text at an offset, as a part of the chunk that starts there. -/
def insertRight (offset : Nat) (text : Text) : EditCall := do
  require (offset ≤ (← get).length) .outOfRange
  modify fun b => { b with right := b.right.add offset text }

/-- Inserts a text at an offset, as a part of the chunk that ends there. -/
def insertLeft (offset : Nat) (text : Text) : EditCall := do
  require (offset ≤ (← get).length) .outOfRange
  modify fun b => { b with left := b.left.add offset text }

/-- Replaces a range. Replacing an empty range is a right insertion. -/
def overwrite (start stop : Nat) (text : Text) : EditCall := do
  require (start ≤ stop ∧ stop ≤ (← get).length) .outOfRange
  if start = stop then insertRight start text
  else
    require (¬ (← get).meetsOverwrite start stop) .overlap
    modify fun b => { b with overwrites := Overwrite.insert ⟨start, stop, text⟩ b.overwrites }

/-- The call that records an edit. -/
def ofEdit : Edit → EditCall
  | .insertRight offset text => insertRight offset text
  | .insertLeft offset text => insertLeft offset text
  | .overwrite start stop text => overwrite start stop text
  | .remove start stop => overwrite start stop []

/-- The result of a call that answers with a new buffer, or refuses and keeps the one it was given. -/
def keeping (b : EditBuffer) : Except EditFault EditBuffer → EStateM.Result EditFault EditBuffer Unit
  | .ok b' => .ok () b'
  | .error fault => .error fault b

variable {b b' : EditBuffer}

/-- A call that starts with a condition is refused at once or goes on with the buffer unchanged. -/
theorem require_bind_run {p : EditBuffer → Prop} [DecidablePred p] {fault : EditFault}
    {rest : EditCall} :
    (do require (p (← get)) fault; rest : EditCall).run b =
      if p b then rest.run b else .error fault b := by
  -- Reading the buffer changes nothing, so the condition is one about the buffer at the start.
  have hrun : (do require (p (← get)) fault; rest : EditCall).run b =
      (do require (p b) fault; rest : EditCall).run b := rfl
  rw [hrun, require]
  split <;> rfl

theorem insertRight_run (offset : Nat) (text : Text) :
    (insertRight offset text).run b = keeping b (b.insertRight offset text) := by
  rw [insertRight, require_bind_run, EditBuffer.insertRight]
  split <;> rfl

theorem insertLeft_run (offset : Nat) (text : Text) :
    (insertLeft offset text).run b = keeping b (b.insertLeft offset text) := by
  rw [insertLeft, require_bind_run, EditBuffer.insertLeft]
  split <;> rfl

theorem overwrite_run (start stop : Nat) (text : Text) :
    (overwrite start stop text).run b = keeping b (b.overwrite start stop text) := by
  rw [overwrite, require_bind_run, EditBuffer.overwrite]
  split
  · split
    · exact insertRight_run start text
    · rw [require_bind_run]
      by_cases hmeets : b.meetsOverwrite start stop = true
      · rw [if_neg (not_not_intro hmeets), if_pos hmeets]
        rfl
      · rw [if_pos hmeets, if_neg hmeets]
        rfl
  · rfl

/-- A call in place does what recording the edit does, and a refused one keeps the buffer. -/
theorem ofEdit_run (e : Edit) : (ofEdit e).run b = keeping b (b.recordEdit e) := by
  cases e with
  | insertRight offset text => exact insertRight_run offset text
  | insertLeft offset text => exact insertLeft_run offset text
  | overwrite start stop text => exact overwrite_run start stop text
  | remove start stop => exact overwrite_run start stop []

theorem eq_of_keeping_eq_error {r : Except EditFault EditBuffer} {fault : EditFault}
    (h : keeping b r = .error fault b') : b' = b := by
  cases r with
  | ok => cases h
  | error => cases h; rfl

/-- A call is refused exactly if the edit cannot be recorded. -/
theorem exists_keeping_eq_error_iff {r : Except EditFault EditBuffer} :
    (∃ fault b', keeping b r = .error fault b') ↔ ¬ ∃ b', r = .ok b' := by
  cases r with
  | ok b' =>
    constructor
    · rintro ⟨_, _, h⟩
      cases h
    · exact fun h => absurd ⟨b', rfl⟩ h
  | error fault =>
    constructor
    · rintro - ⟨_, h⟩
      cases h
    · exact fun _ => ⟨fault, b, rfl⟩

end EditCall

/-! ## Sessions -/

namespace EditBuffer

/-- The buffer that a call leaves behind, refused or not. -/
def attempt (b : EditBuffer) (e : Edit) : EditBuffer :=
  match (EditCall.ofEdit e).run b with
  | .ok _ b' | .error _ b' => b'

/-- The buffer that a session of calls leaves behind. -/
def attempts (b : EditBuffer) (edits : List Edit) : EditBuffer :=
  edits.foldl attempt b

/-- The calls of a session that are accepted. -/
def acceptedEdits (b : EditBuffer) : List Edit → List Edit
  | [] => []
  | e :: edits =>
    match b.recordEdit e with
    | .ok b' => e :: acceptedEdits b' edits
    | .error _ => acceptedEdits b edits

theorem attempt_of_ok {b b' : EditBuffer} {e : Edit} (h : b.recordEdit e = .ok b') :
    b.attempt e = b' := by
  rw [attempt, EditCall.ofEdit_run, h]
  rfl

theorem attempt_of_error {b : EditBuffer} {e : Edit} {fault : EditFault}
    (h : b.recordEdit e = .error fault) : b.attempt e = b := by
  rw [attempt, EditCall.ofEdit_run, h]
  rfl

/-- A session leaves behind what its accepted calls lead to. -/
theorem recordEdits_acceptedEdits (edits : List Edit) (b : EditBuffer) :
    b.recordEdits (b.acceptedEdits edits) = .ok (b.attempts edits) := by
  induction edits generalizing b with
  | nil => rfl
  | cons e edits ih =>
    rw [acceptedEdits, attempts, List.foldl_cons]
    cases h : b.recordEdit e with
    | ok b' =>
      rw [attempt_of_ok h, recordEdits, List.foldlM_cons, h]
      exact ih b'
    | error fault =>
      -- The refused call is in neither list, and the session goes on with the same buffer.
      rw [attempt_of_error h]
      exact ih b

end EditBuffer

/-! ## Replaced ranges -/

/-- A range holds an offset. -/
def Overwrite.Holds (o : Overwrite) (p : Nat) : Prop := o.start ≤ p ∧ p < o.stop

instance (o : Overwrite) (p : Nat) : Decidable (o.Holds p) :=
  inferInstanceAs (Decidable (o.start ≤ p ∧ p < o.stop))

/-- Ranges that are not empty hold an offset in common exactly if neither ends before the other. -/
theorem Overwrite.not_disjoint_iff {o p : Overwrite} (ho : o.start < o.stop)
    (hp : p.start < p.stop) : ¬ o.Disjoint p ↔ ∃ q, o.Holds q ∧ p.Holds q := by
  constructor
  · intro h
    obtain ⟨hop, hpo⟩ := not_or.1 h
    -- The first offset that both can hold is where the later one starts.
    refine ⟨max o.start p.start, ⟨?_, ?_⟩, ?_, ?_⟩
    all_goals omega
  · rintro ⟨q, hoq, hpq⟩ (h | h)
    · exact Nat.not_lt.2 (Nat.le_trans h hpq.1) hoq.2
    · exact Nat.not_lt.2 (Nat.le_trans h hoq.1) hpq.2

namespace Recorded

variable {source : Text} {edits : List Edit} {b : EditBuffer}

theorem stop_le (h : Recorded source edits b)
    (hrange : ∀ e ∈ edits, e.InRange (byteLength source)) :
    ∀ o ∈ b.overwrites, o.stop ≤ byteLength source := by
  intro o ho
  obtain ⟨e, he, hreplaced⟩ := List.mem_filterMap.1 ((h.overwrites o).1 ho)
  have hinside := hrange e he
  cases e with
  | insertRight | insertLeft => cases hreplaced
  | overwrite start stop text | remove start stop =>
    rw [Edit.replacement?] at hreplaced
    split at hreplaced
    · cases hreplaced
    · cases hreplaced
      exact hinside.2

theorem pairwise_holds (h : Recorded source edits b) :
    b.overwrites.Pairwise fun o p => ∀ q, ¬ (o.Holds q ∧ p.Holds q) := by
  refine h.apart.imp ?_
  rintro o p hle q ⟨hoq, hpq⟩
  exact Nat.not_lt.2 (Nat.le_trans hle hpq.1) hoq.2

/-- The last range that starts before the end of another one reaches furthest of those that do, so it
alone decides whether they meet. -/
theorem meetsOverwrite_iff (h : Recorded source edits b) (start stop : Nat) :
    b.meetsOverwrite start stop = true ↔ ∃ o ∈ b.overwrites, o.start < stop ∧ start < o.stop := by
  constructor
  · intro hmeets
    rw [EditBuffer.meetsOverwrite] at hmeets
    split at hmeets
    · rename_i o hlast
      obtain ⟨hmem, hlt⟩ := Overwrite.lastBefore?_mem hlast
      exact ⟨o, hmem, hlt, of_decide_eq_true hmeets⟩
    · cases hmeets
  · rintro ⟨o, ho, hlt, hmeets⟩
    obtain ⟨last, hlast, hle⟩ := Overwrite.lastBefore?_spec h.apart h.orderly.proper stop o ho hlt
    rw [EditBuffer.meetsOverwrite, hlast]
    exact decide_eq_true (Nat.lt_of_lt_of_le hmeets hle)

/-- A range that is not empty is refused exactly if it holds an offset that was replaced before. -/
theorem overwrite_refused_iff (h : Recorded source edits b) {start stop : Nat} (text : Text)
    (hproper : start < stop) (hstop : stop ≤ byteLength source) :
    (¬ ∃ b', b.overwrite start stop text = .ok b') ↔
      ∃ o ∈ b.overwrites, ∃ p, o.Holds p ∧ start ≤ p ∧ p < stop := by
  have hrange : start ≤ stop ∧ stop ≤ b.length :=
    ⟨Nat.le_of_lt hproper, by rw [EditBuffer.length, h.source]; exact hstop⟩
  have hmeets : ∀ o ∈ b.overwrites, ¬ o.Disjoint ⟨start, stop, text⟩ ↔
      ∃ p, o.Holds p ∧ start ≤ p ∧ p < stop :=
    fun o ho => Overwrite.not_disjoint_iff (h.orderly.proper o ho) hproper
  rw [EditBuffer.overwrite_accepted_iff h.orderly h.apart]
  simp only [hrange, Nat.ne_of_lt hproper, and_self, ne_eq, not_false_eq_true, forall_const,
    true_and, not_forall, exists_prop]
  exact exists_congr fun o => and_congr_right (hmeets o)

end Recorded

/-- After any session of calls, refused ones among them: the replaced ranges are those of the accepted
calls, none is empty, all are inside of the source and no two hold an offset in common. A further
range is refused exactly if it holds an offset of one of them, for which the last one that starts
before its end is all that needs a look. And whichever call is refused, the buffer is what it was. -/
theorem attempts_keep_ranges_disjoint (source : Text) (edits : List Edit) (b : EditBuffer)
    (hb : (EditBuffer.ofText source).attempts edits = b) :
    (∀ o, o ∈ b.overwrites ↔
      o ∈ replacements ((EditBuffer.ofText source).acceptedEdits edits)) ∧
    (∀ o ∈ b.overwrites, o.start < o.stop ∧ o.stop ≤ byteLength source) ∧
    (b.overwrites.Pairwise fun o p => ∀ q, ¬ (o.Holds q ∧ p.Holds q)) ∧
    (∀ start stop text, start < stop → stop ≤ byteLength source →
      ((∃ fault b', (EditCall.overwrite start stop text).run b = .error fault b') ↔
        ∃ o ∈ b.overwrites, ∃ p, o.Holds p ∧ start ≤ p ∧ p < stop)) ∧
    (∀ start stop, b.meetsOverwrite start stop = true ↔
      ∃ o ∈ b.overwrites, o.start < stop ∧ start < o.stop) ∧
    ∀ e fault b', (EditCall.ofEdit e).run b = .error fault b' → b' = b := by
  -- All that is known of histories without a refusal holds of the accepted calls.
  have haccepted := EditBuffer.recordEdits_acceptedEdits edits (.ofText source)
  rw [hb] at haccepted
  have hrecorded := recorded_of_recordEdits haccepted
  have hrange := (recordEdits_accepted_iff.1 ⟨b, haccepted⟩).1
  refine ⟨hrecorded.overwrites, ?_, hrecorded.pairwise_holds, ?_, hrecorded.meetsOverwrite_iff, ?_⟩
  · exact fun o ho => ⟨hrecorded.orderly.proper o ho, hrecorded.stop_le hrange o ho⟩
  · intro start stop text hproper hstop
    rw [EditCall.overwrite_run, EditCall.exists_keeping_eq_error_iff,
      hrecorded.overwrite_refused_iff text hproper hstop]
  · intro e fault b' hrefused
    rw [EditCall.ofEdit_run] at hrefused
    exact EditCall.eq_of_keeping_eq_error hrefused

/-- Calls whose ranges touch, share an end, nest, are empty and lie outside: the first, the second, the
fifth and the last one are accepted. -/
def mixedSession : List Edit :=
  [.overwrite 2 4 ['x'], .remove 4 6, .overwrite 3 5 ['y'], .remove 2 4, .overwrite 3 3 ['z'],
    .overwrite 1 7 [], .overwrite 7 6 [], .insertLeft 9 ['w'], .remove 6 8]

theorem attempts_keep_ranges_disjoint_mixedSession :
    let b := (EditBuffer.ofText "abcdefgh".toList).attempts mixedSession
    b.overwrites = [⟨2, 4, ['x']⟩, ⟨4, 6, []⟩, ⟨6, 8, []⟩] ∧
    (b.overwrites.Pairwise fun o p => ∀ q, ¬ (o.Holds q ∧ p.Holds q)) ∧
    (∃ fault b', (EditCall.overwrite 0 3 []).run b = .error fault b') ∧
    ¬ (∃ fault b', (EditCall.overwrite 0 2 []).run b = .error fault b') ∧
    b.meetsOverwrite 5 8 = true ∧
    ∃ fault b', (EditCall.ofEdit (.remove 3 5)).run b = .error fault b' ∧ b' = b := by
  have hb : (EditBuffer.ofText "abcdefgh".toList).attempts mixedSession =
      ⟨"abcdefgh".toList, [], [(3, ['z'])], [⟨2, 4, ['x']⟩, ⟨4, 6, []⟩, ⟨6, 8, []⟩]⟩ := by
    decide
  have hsession := attempts_keep_ranges_disjoint "abcdefgh".toList mixedSession _ hb
  obtain ⟨-, -, hdisjoint, hrefused, hlast, hkept⟩ := hsession
  dsimp only
  rw [hb]
  refine ⟨rfl, hdisjoint, ?_, ?_, (hlast 5 8).2 ⟨⟨6, 8, []⟩, by decide⟩, ?_⟩
  · exact (hrefused 0 3 [] (by decide) (by decide)).2 ⟨_, List.mem_cons_self, 2, by decide⟩
  · rw [hrefused 0 2 [] (by decide) (by decide)]
    rintro ⟨o, ho, p, hp, -, hlt⟩
    have hstart : ∀ o ∈ [(⟨2, 4, ['x']⟩ : Overwrite), ⟨4, 6, []⟩, ⟨6, 8, []⟩], 2 ≤ o.start := by
      decide
    exact Nat.not_lt.2 (Nat.le_trans (hstart o ho) hp.1) hlt
  · obtain ⟨fault, b', hrun⟩ :=
      (hrefused 3 5 [] (by decide) (by decide)).2 ⟨_, List.mem_cons_self, 3, by decide⟩
    exact ⟨fault, b', hrun, hkept (.remove 3 5) fault b' hrun⟩

end TemplateCompiler
