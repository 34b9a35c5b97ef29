import ChatgptSystem.Core.Text
import Mathlib.Logic.Function.Basic

/-!
# UTF-8

What `Text.decode` makes of encoded text.

* `decodeFrom_char` — the step of the decoder on a byte, on natural numbers;
* `decode_encode` — decoding inverts encoding;
* `encode_injective` — no two texts have the same bytes.
-/

namespace Text

theorem start_ofNat {n : ℕ} (h : n < 256) : start (UInt8.ofNat n) =
    if n < 0x80 then .inl (Char.ofNat n)
    else if n < 0xC2 then .inl '\uFFFD'
    else if n < 0xE0 then .inr ⟨1, 0x80, 0xBF, n - 0xC0⟩
    else if n = 0xE0 then .inr ⟨2, 0xA0, 0xBF, 0⟩
    else if n = 0xED then .inr ⟨2, 0x80, 0x9F, 0xD⟩
    else if n < 0xF0 then .inr ⟨2, 0x80, 0xBF, n - 0xE0⟩
    else if n = 0xF0 then .inr ⟨3, 0x90, 0xBF, 0⟩
    else if n < 0xF4 then .inr ⟨3, 0x80, 0xBF, n - 0xF0⟩
    else if n = 0xF4 then .inr ⟨3, 0x80, 0x8F, 4⟩
    else .inl '\uFFFD' := by
  have hn : (UInt8.ofNat n).toNat = n := UInt8.toNat_ofNat_of_lt' h
  have hlt : ∀ b : UInt8, UInt8.ofNat n < b ↔ n < b.toNat := fun b => by
    rw [UInt8.lt_iff_toNat_lt, hn]
  have heq : ∀ b : UInt8, UInt8.ofNat n = b ↔ n = b.toNat := fun b => by
    rw [← UInt8.toNat_inj, hn]
  simp only [start, hlt, heq, hn, UInt8.reduceToNat]

theorem decodeFrom_continue {p : Partial} {n : ℕ} {rest : Bytes} (h : n < 256)
    (hlow : p.low.toNat ≤ n) (hhigh : n ≤ p.high.toNat) :
    decodeFrom (some p) (UInt8.ofNat n :: rest) =
      if p.missing = 1 then Char.ofNat (p.bits * 64 + (n - 0x80)) :: decodeFrom none rest
      else decodeFrom (some ⟨p.missing - 1, 0x80, 0xBF, p.bits * 64 + (n - 0x80)⟩) rest := by
  have hn : (UInt8.ofNat n).toNat = n := UInt8.toNat_ofNat_of_lt' h
  rw [decodeFrom, if_pos ⟨UInt8.le_iff_toNat_le.mpr (hn.symm ▸ hlow),
    UInt8.le_iff_toNat_le.mpr (hn.symm ▸ hhigh)⟩, hn]

theorem decodeFrom_two {low high : UInt8} {bits n m : ℕ} {rest : Bytes} (hn : n < 64) (hm : m < 64)
    (hlow : low.toNat ≤ n + 128) (hhigh : n + 128 ≤ high.toNat) :
    decodeFrom (some ⟨2, low, high, bits⟩) (UInt8.ofNat (n + 128) :: UInt8.ofNat (m + 128) :: rest) =
      Char.ofNat ((bits * 64 + n) * 64 + m) :: decodeFrom none rest := by
  rw [decodeFrom_continue (by omega) hlow hhigh, if_neg (by simp)]
  dsimp only
  rw [decodeFrom_continue (by omega) (by simp) (by simp; omega), if_pos rfl, Nat.add_sub_cancel,
    Nat.add_sub_cancel]

theorem decodeFrom_three {low high : UInt8} {bits l n m : ℕ} {rest : Bytes} (hl : l < 64)
    (hn : n < 64) (hm : m < 64) (hlow : low.toNat ≤ l + 128) (hhigh : l + 128 ≤ high.toNat) :
    decodeFrom (some ⟨3, low, high, bits⟩)
        (UInt8.ofNat (l + 128) :: UInt8.ofNat (n + 128) :: UInt8.ofNat (m + 128) :: rest) =
      Char.ofNat (((bits * 64 + l) * 64 + n) * 64 + m) :: decodeFrom none rest := by
  rw [decodeFrom_continue (by omega) hlow hhigh, if_neg (by simp)]
  show decodeFrom (some ⟨2, _, _, _⟩) _ = _
  rw [decodeFrom_two hn hm (by simp) (by simp; omega), Nat.add_sub_cancel]

theorem decodeFrom_char (c : Char) (rest : Bytes) :
    decodeFrom none (String.utf8EncodeChar c ++ rest) = c :: decodeFrom none rest := by
  have hvalid : c.toNat < 0xD800 ∨ (0xDFFF < c.toNat ∧ c.toNat < 0x110000) := c.valid
  have hchar : Char.ofNat c.toNat = c := Char.ofNat_toNat c
  have hval : c.val.toNat = c.toNat := rfl
  unfold String.utf8EncodeChar
  simp only [hval]
  generalize c.toNat = v at hvalid hchar ⊢
  split
  next h =>
    rw [List.singleton_append, decodeFrom, start_ofNat (by omega), if_pos (by omega)]
    simp only [hchar]
  split
  next h =>
    rw [List.cons_append, decodeFrom, start_ofNat (by omega), if_neg (by omega), if_neg (by omega),
      if_pos (by omega)]
    dsimp only
    rw [List.singleton_append, decodeFrom_continue (by omega) (by simp) (by simp; omega), if_pos rfl]
    have hbits : (v / 64 % 32 + 192 - 192) * 64 + (v % 64 + 128 - 128) = v := by omega
    rw [hbits, hchar]
  split
  next h =>
    rw [List.cons_append, decodeFrom, start_ofNat (by omega), if_neg (by omega), if_neg (by omega),
      if_neg (by omega)]
    -- the first byte bounds the second one where the character would be too small or a surrogate
    by_cases hsmall : v / 4096 % 16 + 224 = 0xE0
    · rw [if_pos hsmall]
      dsimp only
      rw [List.cons_append, List.singleton_append, decodeFrom_two (by omega) (by omega)
        (by simp; omega) (by simp; omega)]
      have hbits : (0 * 64 + v / 64 % 64) * 64 + v % 64 = v := by omega
      rw [hbits, hchar]
    rw [if_neg hsmall]
    by_cases hsurrogate : v / 4096 % 16 + 224 = 0xED
    · rw [if_pos hsurrogate]
      dsimp only
      rw [List.cons_append, List.singleton_append, decodeFrom_two (by omega) (by omega)
        (by simp) (by simp; omega)]
      have hbits : (13 * 64 + v / 64 % 64) * 64 + v % 64 = v := by omega
      rw [hbits, hchar]
    rw [if_neg hsurrogate, if_pos (by omega)]
    dsimp only
    rw [List.cons_append, List.singleton_append, decodeFrom_two (by omega) (by omega) (by simp)
      (by simp; omega)]
    have hbits : ((v / 4096 % 16 + 224 - 224) * 64 + v / 64 % 64) * 64 + v % 64 = v := by omega
    rw [hbits, hchar]
  next h =>
    rw [List.cons_append, decodeFrom, start_ofNat (by omega), if_neg (by omega), if_neg (by omega),
      if_neg (by omega), if_neg (by omega), if_neg (by omega), if_neg (by omega)]
    by_cases hsmall : v / 262144 % 8 + 240 = 0xF0
    · rw [if_pos hsmall]
      dsimp only
      rw [List.cons_append, List.cons_append, List.singleton_append, decodeFrom_three (by omega)
        (by omega) (by omega) (by simp; omega) (by simp; omega)]
      have hbits : ((0 * 64 + v / 4096 % 64) * 64 + v / 64 % 64) * 64 + v % 64 = v := by omega
      rw [hbits, hchar]
    rw [if_neg hsmall]
    by_cases hlarge : v / 262144 % 8 + 240 = 0xF4
    · rw [if_neg (by omega), if_pos hlarge]
      dsimp only
      rw [List.cons_append, List.cons_append, List.singleton_append, decodeFrom_three (by omega)
        (by omega) (by omega) (by simp) (by simp; omega)]
      have hbits : ((4 * 64 + v / 4096 % 64) * 64 + v / 64 % 64) * 64 + v % 64 = v := by omega
      rw [hbits, hchar]
    rw [if_pos (by omega)]
    dsimp only
    rw [List.cons_append, List.cons_append, List.singleton_append, decodeFrom_three (by omega)
      (by omega) (by omega) (by simp) (by simp; omega)]
    have hbits : (((v / 262144 % 8 + 240 - 240) * 64 + v / 4096 % 64) * 64 + v / 64 % 64) * 64 +
        v % 64 = v := by omega
    rw [hbits, hchar]

theorem decodeFrom_encode (text : List Char) (rest : Bytes) :
    decodeFrom none (encode text ++ rest) = text ++ decodeFrom none rest := by
  induction text with
  | nil => rfl
  | cons c text ih =>
    rw [encode, List.flatMap_cons, List.append_assoc, decodeFrom_char, List.cons_append]
    exact congrArg _ ih

theorem decode_encode (text : List Char) : decode (encode text) = text := by
  have h := decodeFrom_encode text []
  rwa [List.append_nil, decodeFrom, List.append_nil] at h

theorem encode_injective : Function.Injective encode :=
  Function.LeftInverse.injective decode_encode

end Text
