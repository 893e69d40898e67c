import Mathlib

/-!
# Numbers as bytes

`little` writes the lowest bytes of a number, the lowest one first, and `big` writes them the other way round.
`value_little` reads them back.
-/

namespace Endian

/-- The lowest bytes of a number, the lowest one first. -/
def little : ℕ → ℕ → List UInt8
  | 0, _ => []
  | count + 1, n => UInt8.ofNat n :: little count (n / 256)

/-- The lowest bytes of a number, the lowest one last. -/
def big (count n : ℕ) : List UInt8 := (little count n).reverse

/-- The number whose lowest byte comes first. -/
def value : List UInt8 → ℕ
  | [] => 0
  | b :: bytes => b.toNat + 256 * value bytes

@[simp] theorem length_little (count n : ℕ) : (little count n).length = count := by
  induction count generalizing n with
  | zero => rfl
  | succ count ih => rw [little, List.length_cons, ih]

@[simp] theorem length_big (count n : ℕ) : (big count n).length = count := by
  rw [big, List.length_reverse, length_little]

theorem value_little {count n : ℕ} (h : n < 256 ^ count) : value (little count n) = n := by
  induction count generalizing n with
  | zero =>
    have hzero : n = 0 := by simpa using h
    rw [hzero, little, value]
  | succ count ih =>
    have hdiv : n / 256 < 256 ^ count := by
      rw [Nat.div_lt_iff_lt_mul (by decide), ← Nat.pow_succ]
      exact h
    rw [little, value, ih hdiv, UInt8.toNat_ofNat']
    exact Nat.mod_add_div n 256

theorem value_big {count n : ℕ} (h : n < 256 ^ count) : value (big count n).reverse = n := by
  rw [big, List.reverse_reverse, value_little h]

/-- Only the lowest bytes matter. -/
theorem little_mod (count n : ℕ) : little count (n % 256 ^ count) = little count n := by
  induction count generalizing n with
  | zero => rfl
  | succ count ih =>
    have hbyte : UInt8.ofNat (n % 256 ^ (count + 1)) = UInt8.ofNat n := by
      apply UInt8.toNat_inj.1
      rw [UInt8.toNat_ofNat', UInt8.toNat_ofNat', Nat.pow_succ]
      exact Nat.mod_mod_of_dvd n (Nat.dvd_mul_left _ _)
    have hdiv : n % 256 ^ (count + 1) / 256 = n / 256 % 256 ^ count := by
      rw [Nat.pow_succ, Nat.mul_comm, Nat.mod_mul_right_div_self]
    rw [little, little, hbyte, hdiv, ih]

/-- Two numbers, one behind the other, are one number of both widths. -/
theorem little_append {count lower : ℕ} (h : lower < 256 ^ count) (others upper : ℕ) :
    little count lower ++ little others upper = little (count + others) (lower + 256 ^ count * upper) := by
  induction count generalizing lower with
  | zero =>
    have hzero : lower = 0 := by simpa using h
    simp [little, hzero]
  | succ count ih =>
    have hdiv : lower / 256 < 256 ^ count := by
      rw [Nat.div_lt_iff_lt_mul (by decide), ← Nat.pow_succ]
      exact h
    have hpow : 256 ^ (count + 1) * upper = 256 * (256 ^ count * upper) := by
      rw [Nat.pow_succ, Nat.mul_comm (256 ^ count), Nat.mul_assoc]
    have hbyte : UInt8.ofNat (lower + 256 ^ (count + 1) * upper) = UInt8.ofNat lower := by
      apply UInt8.toNat_inj.1
      rw [UInt8.toNat_ofNat', UInt8.toNat_ofNat', hpow, Nat.add_mul_mod_self_left]
    have hbehind : (lower + 256 ^ (count + 1) * upper) / 256 = lower / 256 + 256 ^ count * upper := by
      rw [hpow, Nat.add_mul_div_left _ _ (by decide)]
    rw [Nat.add_right_comm, little, little, List.cons_append, ih hdiv, hbyte, hbehind]

end Endian
