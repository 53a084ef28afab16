import TemplateCompiler.Proofs.Text.Cut
import TemplateCompiler.Text.Utf8

/-!
# Texts and their bytes

The bytes of a text tell the text, and cutting a text at byte offsets cuts its bytes there.

## What this module delivers

* `length_encode`: a text has as many bytes as its length in bytes says.
* `decode?_encode`, `encode_injective`: bytes tell the text they are the bytes of.
* `encode_slice?`: the bytes of a part of a text.
-/

set_option autoImplicit false

namespace TemplateCompiler.Text

/-! ## Counting bytes -/

theorem length_encodeChar (c : Char) : (encodeChar c).length = c.utf8Size := by
  have hn : c.toNat = c.val.toNat := rfl
  unfold encodeChar Char.utf8Size
  simp only [hn, UInt32.le_iff_toNat_le, UInt32.toNat_ofNatLT]
  repeat' split
  all_goals grind

@[simp] theorem encode_nil : encode [] = [] := rfl

@[simp] theorem encode_cons (c : Char) (t : Text) : encode (c :: t) = encodeChar c ++ encode t := rfl

@[simp] theorem encode_append (s t : Text) : encode (s ++ t) = encode s ++ encode t :=
  List.flatMap_append

@[simp] theorem length_encode (t : Text) : (encode t).length = byteLength t := by
  induction t with
  | nil => rfl
  | cons c t ih => rw [encode_cons, List.length_append, length_encodeChar, ih, byteLength_cons]

/-! ## Reading bytes back -/

theorem charFrom?_toNat {least : Nat} (c : Char) (h : least ≤ c.toNat) :
    charFrom? least c.toNat = some c := by
  have hvalid : c.toNat.isValidChar := c.valid
  rw [charFrom?, if_pos h, dif_pos hvalid]
  rfl

theorem continuationBits?_continuation (n : Nat) :
    continuationBits? (continuation n) = some (n % 64) := by
  have hnat : (continuation n).toNat = 0x80 + n % 64 := by
    rw [continuation, UInt8.toNat_ofNat']
    omega
  rw [continuationBits?, if_pos (by omega), hnat, Nat.add_sub_cancel_left]

theorem toNat_lt_maximum (c : Char) : c.toNat < 0x110000 := by
  have hvalid : c.toNat.isValidChar := c.valid
  simp only [Nat.isValidChar] at hvalid
  omega

/-- The bytes of a character are read back, whatever follows them. -/
theorem decode?_encodeChar (c : Char) (rest : List UInt8) :
    decode? (encodeChar c ++ rest) = (decode? rest).map (c :: ·) := by
  have hmax := toNat_lt_maximum c
  -- The first byte tells the number of bytes, and with the others the number of the character.
  have hfirst : ∀ n, n < 256 → (UInt8.ofNat n).toNat = n := by
    intro n hn
    rw [UInt8.toNat_ofNat', Nat.mod_eq_of_lt hn]
  have hread : ∀ (least n : Nat), n = c.toNat → least ≤ c.toNat →
      ((charFrom? least n).bind fun c => (decode? rest).bind fun t => pure (c :: t)) =
        (decode? rest).map (c :: ·) := by
    intro least n hn hle
    rw [hn, charFrom?_toNat c hle, Option.bind_some, Option.map_eq_bind]
    rfl
  unfold encodeChar
  simp only
  split
  · rename_i h1
    rw [List.cons_append, List.nil_append, decode?.eq_def]
    simp only [hfirst c.toNat (by omega), h1, if_true]
    exact hread 0 _ rfl (Nat.zero_le _)
  · rename_i h1
    split
    · rename_i h2
      rw [List.cons_append, List.cons_append, List.nil_append, decode?, hfirst _ (by omega),
        if_neg (by omega), if_neg (by omega), if_pos (by omega)]
      simp only [continuationBits?_continuation, Option.bind_eq_bind, Option.bind_some]
      exact hread 0x80 _ (by omega) (by omega)
    · rename_i h2
      split
      · rename_i h3
        rw [List.cons_append, List.cons_append, List.cons_append, List.nil_append, decode?,
          hfirst _ (by omega), if_neg (by omega), if_neg (by omega), if_neg (by omega),
          if_pos (by omega)]
        simp only [continuationBits?_continuation, Option.bind_eq_bind, Option.bind_some]
        exact hread 0x800 _ (by omega) (by omega)
      · rename_i h3
        rw [List.cons_append, List.cons_append, List.cons_append, List.cons_append,
          List.nil_append, decode?, hfirst _ (by omega), if_neg (by omega), if_neg (by omega),
          if_neg (by omega), if_neg (by omega)]
        dsimp only
        rw [continuationBits?_continuation, Option.bind_eq_bind, Option.bind_some,
          continuationBits?_continuation, Option.bind_eq_bind, Option.bind_some,
          continuationBits?_continuation, Option.bind_eq_bind, Option.bind_some]
        exact hread 0x10000 _ (by omega) (by omega)

/-- The bytes of a text tell the text. -/
theorem decode?_encode (t : Text) : decode? (encode t) = some t := by
  induction t with
  | nil => rfl
  | cons c t ih => rw [encode_cons, decode?_encodeChar, ih, Option.map_some]

theorem encode_injective {s t : Text} (h : encode s = encode t) : s = t := by
  have hdecode := decode?_encode s
  rw [h, decode?_encode] at hdecode
  exact (Option.some.inj hdecode).symm

/-! ## Cutting bytes -/

/-- The bytes of what stands between two offsets. -/
theorem encode_slice? {start stop : Nat} {t m : Text} (h : slice? start stop t = some m) :
    encode m = ((encode t).drop start).take (stop - start) := by
  obtain ⟨a, b, rfl, rfl, rfl⟩ := slice?_eq_some_iff.1 h
  rw [encode_append, encode_append, List.append_assoc, ← length_encode a, List.drop_left,
    Nat.add_sub_cancel_left, ← length_encode m, List.take_left]

end TemplateCompiler.Text
