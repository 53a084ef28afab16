import Mathlib.Data.List.DropRight
import TemplateCompiler.Proofs.Text.Cut
import TemplateCompiler.Text.Position

/-!
# Counting lines

The position behind a text can be counted from scratch: its line feeds, and the bytes behind the last
one. Both ways of keeping positions agree with the count. The one that grows with a text does so
character by character; the one that looks an offset up finds the line because the table of line starts
increases and has the starts up to the offset in front of the others.

## What this module delivers

* `Position.counted`: the position behind a text, counted from scratch.
* `advance_counted`: a position that is kept up to date.
* `search_answers`: what looking a number up answers.
* `positionAt_lineStarts`: a position that is looked up.
-/

set_option autoImplicit false

namespace TemplateCompiler

open Text

/-! ## Counting -/

/-- The position behind a text: its line feeds, and the bytes behind the last of them. -/
def Position.counted (t : Text) : Position :=
  ⟨t.count '\n', byteLength (t.rtakeWhile (· != '\n'))⟩

theorem Position.counted_concat (t : Text) (c : Char) :
    counted (t ++ [c]) = (counted t).next c := by
  by_cases hc : c = '\n'
  · subst hc
    simp [counted, next, List.rtakeWhile_concat_neg]
  · have hline : (t ++ [c]).rtakeWhile (· != '\n') = t.rtakeWhile (· != '\n') ++ [c] :=
      List.rtakeWhile_concat_pos _ _ _ (by simpa using hc)
    simp [counted, next, hline, hc]

/-- A position that is kept up to date is the one that is counted. -/
theorem Position.advance_counted (s t : Text) : (counted s).advance t = counted (s ++ t) := by
  induction t generalizing s with
  | nil => rw [advance_nil, List.append_nil]
  | cons c t ih =>
    have hstep : (counted s).advance (c :: t) = ((counted s).next c).advance t := rfl
    rw [hstep, ← counted_concat, ih, List.append_assoc]
    rfl

/-! ## Where lines start -/

theorem lineStartsFrom_cons (offset : Nat) (c : Char) (t : Text) :
    lineStartsFrom offset (c :: t) =
      if c == '\n' then (offset + c.utf8Size) :: lineStartsFrom (offset + c.utf8Size) t
      else lineStartsFrom (offset + c.utf8Size) t := rfl

theorem lineStartsFrom_append (offset : Nat) (s t : Text) :
    lineStartsFrom offset (s ++ t) =
      lineStartsFrom offset s ++ lineStartsFrom (offset + byteLength s) t := by
  induction s generalizing offset with
  | nil => rfl
  | cons c s ih =>
    have hoffset : offset + byteLength (c :: s) = offset + c.utf8Size + byteLength s := by
      rw [byteLength_cons, Nat.add_assoc]
    rw [List.cons_append, lineStartsFrom_cons, lineStartsFrom_cons, ih, hoffset]
    split <;> rfl

theorem length_lineStartsFrom (offset : Nat) (t : Text) :
    (lineStartsFrom offset t).length = t.count '\n' := by
  induction t generalizing offset with
  | nil => rfl
  | cons c t ih =>
    rw [lineStartsFrom_cons, List.count_cons]
    split
    · rw [List.length_cons, ih]
    · exact ih _

/-- A line starts behind its line feed, so behind the start of the text and not behind its end. -/
theorem mem_lineStartsFrom {offset k : Nat} {t : Text} (h : k ∈ lineStartsFrom offset t) :
    offset < k ∧ k ≤ offset + byteLength t := by
  induction t generalizing offset with
  | nil => cases h
  | cons c t ih =>
    have hc := Char.utf8Size_pos c
    rw [lineStartsFrom_cons] at h
    rw [byteLength_cons]
    split at h
    · rcases List.mem_cons.1 h with rfl | h
      · omega
      · have := ih h
        omega
    · have := ih h
      omega

theorem pairwise_lineStartsFrom (offset : Nat) (t : Text) :
    (lineStartsFrom offset t).Pairwise (· < ·) := by
  induction t generalizing offset with
  | nil => exact List.Pairwise.nil
  | cons c t ih =>
    rw [lineStartsFrom_cons]
    split
    · exact List.pairwise_cons.2 ⟨fun k hk => (mem_lineStartsFrom hk).1, ih _⟩
    · exact ih _

/-- The last line of a text starts as many bytes before its end as follow the last line feed. -/
theorem getLast_lineStartsFrom (offset : Nat) (t : Text) :
    (offset :: lineStartsFrom offset t).getLast (List.cons_ne_nil _ _) +
      byteLength (t.rtakeWhile (· != '\n')) = offset + byteLength t := by
  induction t using List.reverseRecOn with
  | nil => rfl
  | append_singleton t c ih =>
    by_cases hc : c = '\n'
    · subst hc
      have hfeed : lineStartsFrom (offset + byteLength t) ['\n'] = [offset + byteLength t + 1] := rfl
      have hempty : (t ++ ['\n']).rtakeWhile (· != '\n') = [] :=
        List.rtakeWhile_concat_neg _ _ _ (by simp)
      have hsize : byteLength ['\n'] = 1 := rfl
      simp [lineStartsFrom_append, hfeed, hempty, hsize, Nat.add_assoc]
    · have hnone : lineStartsFrom (offset + byteLength t) [c] = [] := by
        rw [lineStartsFrom_cons, if_neg (by simpa using hc)]
        rfl
      have hline : (t ++ [c]).rtakeWhile (· != '\n') = t.rtakeWhile (· != '\n') ++ [c] :=
        List.rtakeWhile_concat_pos _ _ _ (by simpa using hc)
      simp only [lineStartsFrom_append, hnone, List.append_nil, hline, byteLength_append]
      omega

/-! ## Looking up -/

/-- What looking a number up in a table answers. -/
def SearchAnswers (table : Array Nat) (x : Nat) : Except Nat Nat → Prop
  | .ok i => table[i]? = some x
  | .error i => i ≤ table.size ∧ (∀ j y, table[j]? = some y → j < i → y < x) ∧
      ∀ j y, table[j]? = some y → i ≤ j → x < y

theorem lt_of_getElem? {table : Array Nat} (hsorted : table.toList.Pairwise (· < ·)) {i j y z : Nat}
    (hy : table[i]? = some y) (hz : table[j]? = some z) (hij : i < j) : y < z := by
  obtain ⟨hi, rfl⟩ := Array.getElem?_eq_some_iff.1 hy
  obtain ⟨hj, rfl⟩ := Array.getElem?_eq_some_iff.1 hz
  exact List.pairwise_iff_getElem.1 hsorted i j hi hj hij

/-- Halving keeps the entries on both sides apart from what is looked for. -/
theorem searchFrom_answers {table : Array Nat} {x : Nat} (hsorted : table.toList.Pairwise (· < ·))
    {steps lo hi : Nat} (hlo : lo ≤ hi) (hsteps : hi ≤ lo + steps) (hhi : hi ≤ table.size)
    (hbelow : ∀ j y, table[j]? = some y → j < lo → y < x)
    (habove : ∀ j y, table[j]? = some y → hi ≤ j → x < y) :
    SearchAnswers table x (searchFrom table x steps lo hi) := by
  induction steps generalizing lo hi with
  | zero => exact ⟨by omega, hbelow, fun j y hy hle => habove j y hy (by omega)⟩
  | succ steps ih =>
    rw [searchFrom]
    split
    · rename_i hlohi
      have hmid : (lo + hi) / 2 < table.size := by omega
      obtain ⟨y, hy⟩ : ∃ y, table[(lo + hi) / 2]? = some y :=
        ⟨_, Array.getElem?_eq_some_iff.2 ⟨hmid, rfl⟩⟩
      have hget : table.getD ((lo + hi) / 2) 0 = y := by
        rw [Array.getD_eq_getD_getElem?, hy, Option.getD_some]
      dsimp only
      rw [hget]
      split
      · rename_i heq
        exact heq ▸ hy
      · split
        · rename_i hyx
          -- The table is sorted, so what stands up to the middle is smaller too.
          refine ih (by omega) (by omega) hhi ?_ habove
          intro j z hz hj
          rcases Nat.lt_or_eq_of_le (Nat.le_of_lt_succ hj) with hj | rfl
          · exact Nat.lt_trans (lt_of_getElem? hsorted hz hy hj) hyx
          · rw [hy] at hz
            cases hz
            exact hyx
        · have hxy : x < y := by omega
          -- And here what stands from the middle on is larger.
          refine ih (by omega) (by omega) (by omega) hbelow ?_
          intro j z hz hj
          rcases Nat.lt_or_eq_of_le hj with hj | rfl
          · exact Nat.lt_trans hxy (lt_of_getElem? hsorted hy hz hj)
          · rw [hy] at hz
            cases hz
            exact hxy
    · exact ⟨by omega, hbelow, fun j y hy hle => habove j y hy (by omega)⟩

theorem search_answers {table : Array Nat} (x : Nat) (hsorted : table.toList.Pairwise (· < ·)) :
    SearchAnswers table x (search table x) := by
  refine searchFrom_answers hsorted (Nat.zero_le _) (Nat.le_add_left ..) (Nat.le_refl _) nofun ?_
  intro j y hy hle
  obtain ⟨hj, -⟩ := Array.getElem?_eq_some_iff.1 hy
  exact absurd hj (Nat.not_lt.2 hle)

/-- The line that is looked up starts at the offset or before it, and the next one behind it. -/
theorem lineAt_eq {starts : Array Nat} {offset n start : Nat}
    (hsorted : starts.toList.Pairwise (· < ·)) (hline : starts[n]? = some start)
    (hle : start ≤ offset) (hnext : ∀ j y, starts[j]? = some y → n < j → offset < y) :
    lineAt starts offset = n := by
  have hanswer := search_answers offset hsorted
  rw [lineAt]
  cases hsearch : search starts offset with
  | ok i =>
    rw [hsearch] at hanswer
    rcases Nat.lt_trichotomy i n with hlt | heq | hgt
    · have := lt_of_getElem? hsorted hanswer hline hlt
      omega
    · exact heq
    · have := hnext i _ hanswer hgt
      omega
  | error i =>
    rw [hsearch] at hanswer
    obtain ⟨hsize, hbelow, habove⟩ := hanswer
    have hlt : n < i := by
      rcases Nat.lt_or_ge n i with h | h
      · exact h
      · have := habove _ _ hline h
        omega
    have hge : i ≤ n + 1 := by
      cases hy : starts[n + 1]? with
      | none =>
        have := Array.getElem?_eq_none_iff.1 hy
        omega
      | some y =>
        rcases Nat.lt_or_ge (n + 1) i with h | h
        · have := hbelow _ _ hy h
          have := hnext _ _ hy (Nat.lt_succ_self n)
          omega
        · exact h
    show i - 1 = n
    omega

/-- A position that is looked up is the one that is counted. -/
theorem positionAt_lineStarts (before after : Text) :
    positionAt (lineStarts (before ++ after)) (byteLength before) = Position.counted before := by
  -- The starts up to the offset, the last of which starts its line, and those behind it.
  have htable : (lineStarts (before ++ after)).toList =
      (0 :: lineStartsFrom 0 before) ++ lineStartsFrom (byteLength before) after := by
    simp only [lineStarts, lineStartsFrom_append, Nat.zero_add, List.cons_append]
  have hsorted : (lineStarts (before ++ after)).toList.Pairwise (· < ·) :=
    List.pairwise_cons.2 ⟨fun k hk => (mem_lineStartsFrom hk).1, pairwise_lineStartsFrom _ _⟩
  have hlength : (0 :: lineStartsFrom 0 before).length = before.count '\n' + 1 := by
    rw [List.length_cons, length_lineStartsFrom]
  obtain ⟨start, hstart⟩ :
      ∃ start, (0 :: lineStartsFrom 0 before).getLast (List.cons_ne_nil _ _) = start := ⟨_, rfl⟩
  have hbytes := getLast_lineStartsFrom 0 before
  rw [hstart, Nat.zero_add] at hbytes
  have hline : (lineStarts (before ++ after))[before.count '\n']? = some start := by
    rw [← Array.getElem?_toList, htable, List.getElem?_append_left (by omega), ← hstart,
      List.getLast_eq_getElem, ← List.getElem?_eq_getElem]
    simp [length_lineStartsFrom]
  have hnext : ∀ j y, (lineStarts (before ++ after))[j]? = some y → before.count '\n' < j →
      byteLength before < y := by
    intro j y hy hj
    rw [← Array.getElem?_toList, htable, List.getElem?_append_right (by omega)] at hy
    exact (mem_lineStartsFrom (List.mem_of_getElem? hy)).1
  have hlineAt := lineAt_eq hsorted hline (by omega) hnext
  rw [positionAt, hlineAt, Array.getD_eq_getD_getElem?, hline, Option.getD_some, Position.counted,
    ← hbytes, Nat.add_sub_cancel_left]

end TemplateCompiler
