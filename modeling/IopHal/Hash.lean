import IopHal.Text
import IopHal.Library.Word

/-!
# `hashString`

The hash of a string: a fold of its bytes in the manner of FNV, and five steps that mix the result, all on 64-bit words.
Each step can be undone, so that one changed byte changes the hash (`hashString_eq_iff`).
-/

namespace IopHal

/-- `(uint64_t)byte`.  A negative `char` is extended with ones. -/
def charWord (sign : CharSign) (byte : UInt8) : UInt64 := UInt64.ofInt (sign.value byte)

/-- One round of the loop. -/
def hashStep (sign : CharSign) (hash : UInt64) (byte : UInt8) : UInt64 := (hash ^^^ charWord sign byte) * 16777619

/-- What is done with the hash behind the loop. -/
def hashMix (hash : UInt64) : UInt64 :=
  let hash := hash + hash <<< 13
  let hash := hash ^^^ hash >>> 7
  let hash := hash + hash <<< 3
  let hash := hash ^^^ hash >>> 17
  hash + hash <<< 5

def hashString (sign : CharSign) (txt : Bytes) : UInt64 := hashMix (txt.foldl (hashStep sign) 2166136261)

/-! ### Nothing is lost -/

theorem toNat_charWord (sign : CharSign) (byte : UInt8) :
    (charWord sign byte).toNat = (sign.value byte % 2 ^ 64).toNat := by
  unfold charWord UInt64.ofInt
  rw [UInt64.toNat_ofNat']
  omega

/-- The byte is the lowest one of its word. -/
theorem charWord_injective (sign : CharSign) : Function.Injective (charWord sign) := by
  have hlow : ∀ c, (charWord sign c).toUInt8 = c := by
    intro c
    apply UInt8.toNat_inj.1
    have hlt : c.toNat < 256 := c.toNat_lt
    rw [UInt64.toNat_toUInt8, toNat_charWord]
    cases sign with
    | signed =>
      have hvalue : CharSign.signed.value c = Int.bmod c.toNat (2 ^ 8) := rfl
      rw [Int.bmod_def] at hvalue
      omega
    | unsigned =>
      have hvalue : CharSign.unsigned.value c = c.toNat := rfl
      omega
  exact Function.LeftInverse.injective hlow

/-- A step on words is a step on their bits. -/
theorem injective_of_toBitVec {f : UInt64 → UInt64} {g : BitVec 64 → BitVec 64}
    (hf : ∀ x, (f x).toBitVec = g x.toBitVec) (hg : Function.Injective g) : Function.Injective f := by
  intro x y h
  apply UInt64.toBitVec_inj.1
  apply hg
  rw [← hf, ← hf, h]

theorem mul_prime_injective : Function.Injective fun x : UInt64 => x * 16777619 :=
  injective_of_toBitVec (fun _ => rfl) (Word.mul_injective (c := 16777619) (by decide))

theorem hashMix_injective : Function.Injective hashMix := by
  have hfirst : Function.Injective fun x : UInt64 => x + x <<< 13 :=
    injective_of_toBitVec (fun _ => rfl) (Word.add_shiftLeft_injective (k := 13) (by decide))
  have hsecond : Function.Injective fun x : UInt64 => x ^^^ x >>> 7 :=
    injective_of_toBitVec (fun _ => rfl) (Word.xor_ushiftRight_injective (k := 7) (by decide))
  have hthird : Function.Injective fun x : UInt64 => x + x <<< 3 :=
    injective_of_toBitVec (fun _ => rfl) (Word.add_shiftLeft_injective (k := 3) (by decide))
  have hfourth : Function.Injective fun x : UInt64 => x ^^^ x >>> 17 :=
    injective_of_toBitVec (fun _ => rfl) (Word.xor_ushiftRight_injective (k := 17) (by decide))
  have hfifth : Function.Injective fun x : UInt64 => x + x <<< 5 :=
    injective_of_toBitVec (fun _ => rfl) (Word.add_shiftLeft_injective (k := 5) (by decide))
  exact hfifth.comp (hfourth.comp (hthird.comp (hsecond.comp hfirst)))

section hashStep

variable (sign : CharSign)

/-- Two states of the loop stay different whatever byte comes next. -/
theorem hashStep_injective (byte : UInt8) : Function.Injective fun hash => hashStep sign hash byte := by
  intro x y h
  have hxor : x ^^^ charWord sign byte = y ^^^ charWord sign byte := mul_prime_injective h
  exact (UInt64.xor_left_inj _).1 hxor

/-- Two bytes lead the loop to different states. -/
theorem hashStep_byte_injective (hash : UInt64) : Function.Injective (hashStep sign hash) := by
  intro a b h
  have hxor : hash ^^^ charWord sign a = hash ^^^ charWord sign b := mul_prime_injective h
  exact charWord_injective sign ((UInt64.xor_right_inj _).1 hxor)

theorem foldl_hashStep_injective (txt : Bytes) : Function.Injective fun hash => txt.foldl (hashStep sign) hash := by
  induction txt with
  | nil => exact Function.injective_id
  | cons c txt ih => exact ih.comp (hashStep_injective sign c)

/-- Strings that differ in a single byte have different hashes. -/
theorem hashString_eq_iff (u v : Bytes) (a b : UInt8) :
    hashString sign (u ++ [a] ++ v) = hashString sign (u ++ [b] ++ v) ↔ a = b := by
  constructor
  · intro h
    have hloop := hashMix_injective h
    rw [List.foldl_append, List.foldl_append, List.foldl_append, List.foldl_append] at hloop
    have hbyte := foldl_hashStep_injective sign v hloop
    exact hashStep_byte_injective sign _ hbyte
  · rintro rfl
    rfl

end hashStep

end IopHal
