import IopHal.Hash

/-!
# `hashString` on the targets

A `char` above 127 is negative where `char` is signed, and turns the upper part of the hash over.  The lowest byte of the
hash is the same everywhere, and what the upper part becomes is linear in it, up to what the lowest bytes carry over
(`upper_hashStep`).  `sameOnTargets_iff` says for which texts it comes to the same in the end.
-/

namespace IopHal

/-- The hash with the bytes taken as numbers from 0 to 255. -/
def fnvHash (txt : Bytes) : UInt64 :=
  hashMix (txt.foldl (fun hash byte => (hash ^^^ UInt64.ofNat byte.toNat) * 16777619) 2166136261)

/-- The hash of a text does not depend on the target. -/
def SameOnTargets (txt : Bytes) : Prop :=
  hashString .signed txt = hashString .unsigned txt ∧ hashString .unsigned txt = fnvHash txt

theorem charWord_unsigned (byte : UInt8) : charWord .unsigned byte = UInt64.ofNat byte.toNat := by
  apply UInt64.toNat_inj.1
  have hvalue : CharSign.unsigned.value byte = byte.toNat := rfl
  have hlt := byte.toNat_lt
  rw [toNat_charWord, hvalue, UInt64.toNat_ofNat']
  omega

theorem hashString_unsigned (txt : Bytes) : hashString .unsigned txt = fnvHash txt := by
  have hstep : hashStep .unsigned = fun hash byte => (hash ^^^ UInt64.ofNat byte.toNat) * 16777619 := by
    funext hash byte
    rw [hashStep, charWord_unsigned]
  rw [hashString, hstep]
  rfl

/-! ### The condition -/

/-- The bytes of a text that are negative where `char` is signed. -/
def highBytes (txt : Bytes) : Nat := txt.countP fun c => 128 ≤ c

/-- The lowest byte of the product of 16777619 and a number with this lowest byte. -/
def lowProduct (low : UInt8) : UInt8 := low * 147

/-- What the product carries over from the lowest byte to the upper part, counted from 128. -/
def carry (low : UInt8) : Int := ((low.toNat : Int) - 128) * 16777619 - ((lowProduct low).toNat - 128)

/-- What is carried over at the bytes of a text that have an odd number of negative ones behind them, each as often as it is
multiplied later.  The lowest byte of the hash in front of the text is given. -/
def drift (low : UInt8) : Bytes → Int
  | [] => 0
  | c :: txt =>
    (if highBytes txt % 2 = 1 then 16777619 ^ txt.length * carry (low ^^^ c) else 0) + drift (lowProduct (low ^^^ c)) txt

/-- An even number of bytes is negative, and what is carried over cancels. -/
structure Cancels (txt : Bytes) : Prop where
  even : highBytes txt % 2 = 0
  balanced : (2 ^ 63 : Int) ∣ drift 0xC5 txt

instance (txt : Bytes) : Decidable (Cancels txt) :=
  decidable_of_iff (highBytes txt % 2 = 0 ∧ (2 ^ 63 : Int) ∣ drift 0xC5 txt) ⟨fun h => ⟨h.1, h.2⟩, fun h => ⟨h.1, h.2⟩⟩

/-! ### One step -/

/-- The upper part of a hash, with 128 for its lowest byte. -/
def upper (hash : UInt64) : Int := (hash.toNat / 2 ^ 8 * 2 ^ 8 : Nat) + 128

/-- What a byte does to the upper part. -/
def CharSign.turn : CharSign → UInt8 → Int
  | signed, c => if 128 ≤ c then -1 else 1
  | unsigned, _ => 1

theorem toNat_eq_upper (hash : UInt64) : (hash.toNat : Int) = upper hash - 128 + hash.toUInt8.toNat := by
  rw [upper, UInt64.toNat_toUInt8]
  omega

/-- A hash is known by its lowest byte and its upper part. -/
theorem eq_iff_upper {x y : UInt64} (hlow : x.toUInt8 = y.toUInt8) : x = y ↔ upper x ≡ upper y [ZMOD 2 ^ 64] := by
  constructor
  · rintro rfl
    rfl
  · intro h
    have hx := toNat_eq_upper x
    have hy := toNat_eq_upper y
    have hxlt := x.toNat_lt
    have hylt := y.toNat_lt
    rw [hlow] at hx
    apply UInt64.toNat_inj.1
    rw [Int.ModEq, upper, upper] at h
    rw [upper] at hx hy
    omega

theorem toNat_charWord_of_turn (sign : CharSign) (c : UInt8) :
    (charWord sign c).toNat = if sign.turn c = 1 then c.toNat else 2 ^ 64 - 2 ^ 8 + c.toNat := by
  have hlt := c.toNat_lt
  rw [toNat_charWord]
  cases sign with
  | unsigned =>
    have hvalue : CharSign.unsigned.value c = c.toNat := rfl
    have hturn : CharSign.unsigned.turn c = 1 := rfl
    rw [if_pos hturn]
    omega
  | signed =>
    have hvalue : CharSign.signed.value c = Int.bmod c.toNat (2 ^ 8) := rfl
    rw [Int.bmod_def] at hvalue
    simp only [CharSign.turn, UInt8.le_iff_toNat_le, UInt8.reduceToNat]
    split <;> split <;> omega

theorem turn_eq (sign : CharSign) (c : UInt8) : sign.turn c = 1 ∨ sign.turn c = -1 := by
  cases sign with
  | unsigned => exact Or.inl rfl
  | signed => by_cases h : 128 ≤ c <;> simp [CharSign.turn, h]

theorem toNat_xor_charWord (sign : CharSign) (hash : UInt64) (c : UInt8) :
    (hash ^^^ charWord sign c).toNat =
      (if sign.turn c = 1 then hash.toNat / 2 ^ 8 * 2 ^ 8 else 2 ^ 64 - 2 ^ 8 - hash.toNat / 2 ^ 8 * 2 ^ 8) +
        (hash.toUInt8 ^^^ c).toNat := by
  rw [UInt64.toNat_xor, toNat_charWord_of_turn, UInt8.toNat_xor, UInt64.toNat_toUInt8]
  split
  · exact Word.xor_low c.toNat_lt
  · exact Word.xor_high (by decide) hash.toNat_lt c.toNat_lt

theorem toUInt8_xor_charWord (sign : CharSign) (hash : UInt64) (c : UInt8) :
    (hash ^^^ charWord sign c).toUInt8 = hash.toUInt8 ^^^ c := by
  have hlt := (hash.toUInt8 ^^^ c).toNat_lt
  have hhash := hash.toNat_lt
  apply UInt8.toNat_inj.1
  rw [UInt64.toNat_toUInt8, toNat_xor_charWord]
  split <;> omega

/-- A negative byte turns the upper part over. -/
theorem upper_xor_charWord (sign : CharSign) (hash : UInt64) (c : UInt8) :
    upper (hash ^^^ charWord sign c) ≡ sign.turn c * upper hash [ZMOD 2 ^ 64] := by
  have hlt := (hash.toUInt8 ^^^ c).toNat_lt
  have hhash := hash.toNat_lt
  rw [Int.ModEq, upper, upper, toNat_xor_charWord]
  rcases turn_eq sign c with h | h
  · rw [h, if_pos rfl]
    omega
  · rw [h, if_neg (by decide)]
    omega

theorem toUInt8_mul (hash : UInt64) : (hash * 16777619).toUInt8 = lowProduct hash.toUInt8 := by
  apply UInt8.toNat_inj.1
  rw [UInt64.toNat_toUInt8, UInt64.toNat_mul, lowProduct, UInt8.toNat_mul, UInt64.toNat_toUInt8]
  simp only [UInt64.reduceToNat, UInt8.reduceToNat]
  omega

theorem upper_mul (hash : UInt64) : upper (hash * 16777619) ≡ 16777619 * upper hash + carry hash.toUInt8 [ZMOD 2 ^ 64] := by
  have hlow := toUInt8_mul hash
  have hproduct := toNat_eq_upper (hash * 16777619)
  have hhash := toNat_eq_upper hash
  rw [hlow, UInt64.toNat_mul] at hproduct
  simp only [UInt64.reduceToNat] at hproduct
  rw [Int.ModEq, carry]
  omega

/-- The lowest byte goes its own way, the same for every target. -/
theorem toUInt8_hashStep (sign : CharSign) (hash : UInt64) (c : UInt8) :
    (hashStep sign hash c).toUInt8 = lowProduct (hash.toUInt8 ^^^ c) := by
  rw [hashStep, toUInt8_mul, toUInt8_xor_charWord]

/-- The upper part is turned over or not, and multiplied. -/
theorem upper_hashStep (sign : CharSign) (hash : UInt64) (c : UInt8) :
    upper (hashStep sign hash c) ≡ 16777619 * (sign.turn c * upper hash) + carry (hash.toUInt8 ^^^ c) [ZMOD 2 ^ 64] := by
  have hmul := upper_mul (hash ^^^ charWord sign c)
  rw [toUInt8_xor_charWord] at hmul
  exact hmul.trans (((upper_xor_charWord sign hash c).mul_left _).add_right _)

/-! ### A whole text -/

/-- What a text does to the upper part where `char` is signed. -/
def turns (txt : Bytes) : Int := if highBytes txt % 2 = 1 then -1 else 1

theorem turns_cons (c : UInt8) (txt : Bytes) : turns (c :: txt) = turns txt * CharSign.signed.turn c := by
  have hcons : highBytes (c :: txt) = highBytes txt + if 128 ≤ c then 1 else 0 := by
    simp [highBytes, List.countP_cons]
  unfold turns CharSign.turn
  rw [hcons]
  by_cases hhigh : 128 ≤ c <;> by_cases hodd : highBytes txt % 2 = 1 <;> simp only [hhigh, hodd, if_true, if_false] <;>
    split <;> omega

theorem drift_cons (low c : UInt8) (txt : Bytes) :
    2 * drift low (c :: txt) =
      16777619 ^ txt.length * carry (low ^^^ c) * (1 - turns txt) + 2 * drift (lowProduct (low ^^^ c)) txt := by
  rw [drift, turns]
  split <;> ring

/-- The two runs of the loop keep the same lowest byte, and their upper parts differ by what is carried over. -/
theorem upper_foldl_sub {x y : UInt64} (hlow : x.toUInt8 = y.toUInt8) (txt : Bytes) :
    (txt.foldl (hashStep .signed) x).toUInt8 = (txt.foldl (hashStep .unsigned) y).toUInt8 ∧
      upper (txt.foldl (hashStep .signed) x) - upper (txt.foldl (hashStep .unsigned) y) ≡
        16777619 ^ txt.length * (turns txt * upper x - upper y) - 2 * drift x.toUInt8 txt [ZMOD 2 ^ 64] := by
  induction txt generalizing x y with
  | nil => simp [turns, highBytes, drift, hlow]
  | cons c txt ih =>
    have hstep : (hashStep .signed x c).toUInt8 = (hashStep .unsigned y c).toUInt8 := by
      rw [toUInt8_hashStep, toUInt8_hashStep, hlow]
    obtain ⟨hsame, hrest⟩ := ih hstep
    refine ⟨hsame, hrest.trans ?_⟩
    have hx := upper_hashStep .signed x c
    have hy := upper_hashStep .unsigned y c
    rw [← hlow] at hy
    have hboth := ((hx.mul_left (turns txt)).sub hy).mul_left (16777619 ^ txt.length)
    refine (hboth.sub_right _).trans ?_
    have hturn : CharSign.unsigned.turn c = 1 := rfl
    rw [drift_cons, toUInt8_hashStep, turns_cons, hturn, List.length_cons, pow_succ]
    refine congrArg (fun difference : Int => difference % 2 ^ 64) ?_
    ring

theorem carry_dvd (low : UInt8) : (2 ^ 8 : Int) ∣ carry low := by
  have hlow : (lowProduct low).toNat = low.toNat * 147 % 2 ^ 8 := UInt8.toNat_mul low 147
  rw [carry, hlow]
  omega

theorem drift_dvd (low : UInt8) (txt : Bytes) : (2 ^ 8 : Int) ∣ drift low txt := by
  induction txt generalizing low with
  | nil => exact dvd_zero _
  | cons c txt ih =>
    rw [drift]
    split
    · exact dvd_add (Dvd.dvd.mul_left (carry_dvd _) _) (ih _)
    · rw [zero_add]
      exact ih _

/-- An odd number of negative bytes leaves the upper part the other way round, which nothing makes up for. -/
theorem not_dvd_of_odd (low : UInt8) (txt : Bytes) (start : UInt64) :
    ¬ (2 ^ 63 : Int) ∣ 16777619 ^ txt.length * upper start + drift low txt := by
  intro h
  have hsmall : (2 ^ 8 : Int) ∣ 2 ^ 63 := by decide
  have hsum : (2 ^ 8 : Int) ∣ 16777619 ^ txt.length * upper start := (Int.dvd_add_left (drift_dvd low txt)).1 (hsmall.trans h)
  have hodd : IsCoprime (2 ^ 8 : Int) (16777619 ^ txt.length) := by
    apply IsCoprime.pow
    norm_num
  have hupper := hodd.dvd_of_dvd_mul_left hsum
  rw [upper] at hupper
  omega

/-- The texts whose hash is the same on all targets: an even number of their bytes is above 127, and what is carried over at
the bytes with an odd number of such bytes behind them cancels. -/
theorem sameOnTargets_iff (txt : Bytes) : SameOnTargets txt ↔ Cancels txt := by
  have hstates : SameOnTargets txt ↔
      txt.foldl (hashStep .signed) 2166136261 = txt.foldl (hashStep .unsigned) 2166136261 :=
    ⟨fun h => hashMix_injective h.1, fun h => ⟨congrArg hashMix h, hashString_unsigned txt⟩⟩
  have hlow : (2166136261 : UInt64).toUInt8 = 0xC5 := rfl
  have hrun := upper_foldl_sub (Eq.refl (2166136261 : UInt64).toUInt8) txt
  rw [hlow] at hrun
  obtain ⟨hsame, hupper⟩ := hrun
  rw [hstates, eq_iff_upper hsame]
  generalize upper (txt.foldl (hashStep .signed) 2166136261) = signed at hupper ⊢
  generalize upper (txt.foldl (hashStep .unsigned) 2166136261) = unsigned at hupper ⊢
  by_cases hodd : highBytes txt % 2 = 1
  · have hnot := not_dvd_of_odd 0xC5 txt 2166136261
    have hturns : turns txt = -1 := if_pos hodd
    have hdifference : 16777619 ^ txt.length * (turns txt * upper 2166136261 - upper 2166136261) - 2 * drift 0xC5 txt =
        -2 * (16777619 ^ txt.length * upper 2166136261 + drift 0xC5 txt) := by
      rw [hturns]
      ring
    rw [hdifference] at hupper
    apply iff_of_false
    · intro h
      rw [Int.ModEq] at hupper h
      omega
    · intro h
      have heven := h.even
      omega
  · have hturns : turns txt = 1 := if_neg hodd
    have hdifference : 16777619 ^ txt.length * (turns txt * upper 2166136261 - upper 2166136261) - 2 * drift 0xC5 txt =
        -2 * drift 0xC5 txt := by
      rw [hturns]
      ring
    rw [hdifference] at hupper
    constructor
    · intro h
      rw [Int.ModEq] at hupper h
      exact ⟨by omega, by omega⟩
    · intro h
      have hbalanced := h.balanced
      rw [Int.ModEq] at hupper ⊢
      omega

/-- Two negative bytes in a row may make up for each other. -/
example : Cancels [97, 172, 144] := by decide

/-- One byte above 127. -/
theorem not_sameOnTargets_high : hashString .signed [0x80] ≠ hashString .unsigned [0x80] ∧ ¬ SameOnTargets [0x80] := by
  have hne : hashString .signed [0x80] ≠ hashString .unsigned [0x80] := by decide
  exact ⟨hne, fun h => hne h.1⟩

end IopHal
