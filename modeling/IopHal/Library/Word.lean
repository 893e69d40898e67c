import Mathlib

/-!
# Bijections on machine words

Hash functions mix a word with a product by an odd number, a sum with its own shift to the left, and an exclusive or with
its own shift to the right.  None of them loses anything, for words of any width.
-/

namespace Word

variable {w : ℕ}

private theorem eq_of_mul_mod {c : ℕ} (hc : (2 ^ w).Coprime c) {x y : BitVec w}
    (h : x.toNat * c % 2 ^ w = y.toNat * c % 2 ^ w) : x = y := by
  have hmod : x.toNat ≡ y.toNat [MOD 2 ^ w] := Nat.ModEq.cancel_right_of_coprime hc h
  apply BitVec.eq_of_toNat_eq
  rwa [Nat.ModEq, Nat.mod_eq_of_lt x.isLt, Nat.mod_eq_of_lt y.isLt] at hmod

theorem mul_injective {c : BitVec w} (hc : c.toNat % 2 = 1) : Function.Injective fun x : BitVec w => x * c := by
  intro x y h
  have hcoprime : (2 ^ w).Coprime c.toNat := ((Nat.odd_iff.2 hc).coprime_two_left).pow_left w
  apply eq_of_mul_mod hcoprime
  simpa only [BitVec.toNat_mul] using congrArg BitVec.toNat h

/-- The sum with a shift to the left is a product by an odd number. -/
theorem toNat_add_shiftLeft (x : BitVec w) (k : ℕ) : (x + x <<< k).toNat = x.toNat * (1 + 2 ^ k) % 2 ^ w := by
  rw [BitVec.toNat_add, BitVec.toNat_shiftLeft, Nat.shiftLeft_eq, Nat.add_mod_mod, Nat.mul_add, Nat.mul_one]

theorem add_shiftLeft_injective {k : ℕ} (hk : k ≠ 0) : Function.Injective fun x : BitVec w => x + x <<< k := by
  intro x y h
  have hodd : Odd (1 + 2 ^ k) := odd_one.add_even (Nat.even_pow.2 ⟨even_two, hk⟩)
  apply eq_of_mul_mod (hodd.coprime_two_left.pow_left w)
  rw [← toNat_add_shiftLeft, ← toNat_add_shiftLeft]
  exact congrArg BitVec.toNat h

/-- Only zero is its own shift to the right. -/
theorem eq_zero_of_ushiftRight {k : ℕ} (hk : k ≠ 0) {x : BitVec w} (h : x >>> k = x) : x = 0 := by
  have hdiv : x.toNat / 2 ^ k = x.toNat := by
    rw [← Nat.shiftRight_eq_div_pow, ← BitVec.toNat_ushiftRight, h]
  rcases Nat.div_eq_self.1 hdiv with hzero | hone
  · exact BitVec.eq_of_toNat_eq hzero
  · exact absurd hone (Nat.one_lt_two_pow hk).ne'

theorem xor_ushiftRight_injective {k : ℕ} (hk : k ≠ 0) : Function.Injective fun x : BitVec w => x ^^^ x >>> k := by
  intro x y h
  have h : x ^^^ x >>> k = y ^^^ y >>> k := h
  -- the difference of the two is its own shift
  have hshift : (x ^^^ y) >>> k = x ^^^ y := by
    rw [BitVec.ushiftRight_xor_distrib]
    calc x >>> k ^^^ y >>> k = x ^^^ (x ^^^ x >>> k) ^^^ y >>> k := by
          rw [← BitVec.xor_assoc, BitVec.xor_self, BitVec.zero_xor]
      _ = x ^^^ (y ^^^ y >>> k) ^^^ y >>> k := by rw [h]
      _ = x ^^^ y := by rw [BitVec.xor_assoc, BitVec.xor_assoc, BitVec.xor_self, BitVec.xor_zero]
  have hzero : x ^^^ y = 0 := eq_zero_of_ushiftRight hk hshift
  calc x = x ^^^ y ^^^ y := by rw [BitVec.xor_assoc, BitVec.xor_self, BitVec.xor_zero]
    _ = 0 ^^^ y := by rw [hzero]
    _ = y := BitVec.zero_xor

/-! ### The lower part of a number -/

/-- A small number changes the lower part only. -/
theorem xor_low {k x s : ℕ} (hs : s < 2 ^ k) : x ^^^ s = x / 2 ^ k * 2 ^ k + (x % 2 ^ k ^^^ s) := by
  have hsplit := Nat.div_add_mod' (x ^^^ s) (2 ^ k)
  rw [Nat.xor_div_two_pow, Nat.xor_mod_two_pow, Nat.div_eq_of_lt hs, Nat.mod_eq_of_lt hs, Nat.xor_zero] at hsplit
  exact hsplit.symm

/-- All ones above the lower part leave the upper part. -/
theorem and_upper {w k x : ℕ} (hk : k ≤ w) (hx : x < 2 ^ w) : x &&& (2 ^ w - 2 ^ k) = x / 2 ^ k * 2 ^ k := by
  have hpow : 2 ^ w = 2 ^ (w - k) * 2 ^ k := by rw [← Nat.pow_add, Nat.sub_add_cancel hk]
  have hones : 2 ^ w - 2 ^ k = (2 ^ (w - k) - 1) * 2 ^ k := by rw [hpow, Nat.sub_mul, Nat.one_mul]
  have hupper : x / 2 ^ k < 2 ^ (w - k) := by
    rw [Nat.div_lt_iff_lt_mul (Nat.two_pow_pos k), ← hpow]
    exact hx
  have hsplit := Nat.div_add_mod' (x &&& (2 ^ w - 2 ^ k)) (2 ^ k)
  rw [Nat.and_div_two_pow, Nat.and_mod_two_pow, hones, Nat.mul_div_cancel _ (Nat.two_pow_pos k), Nat.mul_mod_left,
    Nat.and_two_pow_sub_one_eq_mod, Nat.mod_eq_of_lt hupper, Nat.and_zero, Nat.add_zero] at hsplit
  rw [hones, ← hsplit]

theorem xor_ones {n a : ℕ} (ha : a < 2 ^ n) : a ^^^ (2 ^ n - 1) = 2 ^ n - 1 - a := by
  have hnot : BitVec.ofNat n a ^^^ BitVec.allOnes n = ~~~BitVec.ofNat n a := BitVec.xor_allOnes
  have htoNat := congrArg BitVec.toNat hnot
  rwa [BitVec.toNat_xor, BitVec.toNat_not, BitVec.toNat_allOnes, BitVec.toNat_ofNat, Nat.mod_eq_of_lt ha] at htoNat

/-- A number whose upper part is all ones changes the lower part as well, and turns the upper part over. -/
theorem xor_high {w k x s : ℕ} (hk : k ≤ w) (hx : x < 2 ^ w) (hs : s < 2 ^ k) :
    x ^^^ (2 ^ w - 2 ^ k + s) = 2 ^ w - 2 ^ k - x / 2 ^ k * 2 ^ k + (x % 2 ^ k ^^^ s) := by
  have hpow : 2 ^ w = 2 ^ (w - k) * 2 ^ k := by rw [← Nat.pow_add, Nat.sub_add_cancel hk]
  have hones : 2 ^ w - 2 ^ k + s = (2 ^ (w - k) - 1) * 2 ^ k + s := by rw [hpow, Nat.sub_mul, Nat.one_mul]
  have hdiv : ((2 ^ (w - k) - 1) * 2 ^ k + s) / 2 ^ k = 2 ^ (w - k) - 1 := by
    rw [Nat.mul_comm, Nat.mul_add_div (Nat.two_pow_pos k), Nat.div_eq_of_lt hs, Nat.add_zero]
  have hmod : ((2 ^ (w - k) - 1) * 2 ^ k + s) % 2 ^ k = s := by
    rw [Nat.mul_comm, Nat.mul_add_mod, Nat.mod_eq_of_lt hs]
  have hupper : x / 2 ^ k < 2 ^ (w - k) := by
    rw [Nat.div_lt_iff_lt_mul (Nat.two_pow_pos k), ← hpow]
    exact hx
  have hsplit := Nat.div_add_mod' (x ^^^ ((2 ^ (w - k) - 1) * 2 ^ k + s)) (2 ^ k)
  rw [Nat.xor_div_two_pow, Nat.xor_mod_two_pow, hdiv, hmod, xor_ones hupper] at hsplit
  rw [hones, ← hsplit, hpow, Nat.sub_mul, Nat.sub_mul, Nat.one_mul]

end Word
