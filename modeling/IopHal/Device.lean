import IopHal.Bytes
import IopHal.Library.Hex
import IopHal.Library.Patch

/-!
# `Device` on Linux

* `deepSleep` hands a number of seconds to `sleep_for`, as a signed number of 64 bits.  `sleeps_iff` says which numbers it
  sleeps for; `Thread::halt` uses one of the others.
* `firmwareMD5` and `macAddress` print bytes into arrays, each print with a terminator that the next one overwrites.
  The last terminator of both is behind the array (`identity_overruns`).
-/

namespace IopHal

/-! ### Sleep -/

def UINTMAX_MAX : UInt64 := 0xFFFFFFFFFFFFFFFF

namespace Device

/-- The duration that `sleep_for` is asked for.  `std::chrono::seconds` counts with a signed number. -/
def deepSleep (seconds : UInt64) : Int64 :=
  let seconds := if seconds = 0 then UINTMAX_MAX else seconds
  seconds.toInt64

end Device

inductive ThreadCall
  | sleepFor (duration : Int64)
  | abort

def Thread.halt : List ThreadCall := [.sleepFor (Device.deepSleep 0), .abort]

/-- How long a thread has slept when it aborts.  A duration that is not positive is over at once. -/
def sleptBeforeAbort : List ThreadCall → Int
  | [] => 0
  | .abort :: _ => 0
  | .sleepFor duration :: calls => max duration.toInt 0 + sleptBeforeAbort calls

namespace Device

/-- `deepSleep` asks for as long a time as it can of what is wanted, and zero is forever, so that `Thread::halt` does not
come to its `abort` at once. -/
structure Sleeps (seconds : UInt64) : Prop where
  nonneg : 0 ≤ (deepSleep seconds).toInt
  long : min (seconds.toNat : Int) (2 ^ 63 - 1) ≤ (deepSleep seconds).toInt
  forever : seconds = 0 → (deepSleep seconds).toInt = 2 ^ 63 - 1
  halts : seconds = 0 → 0 < sleptBeforeAbort Thread.halt

/-- The largest unsigned number is minus one, and the upper half of them is negative. -/
theorem toInt_deepSleep (seconds : UInt64) :
    (deepSleep seconds).toInt =
      if seconds = 0 then -1 else if seconds.toNat < 2 ^ 63 then (seconds.toNat : Int) else seconds.toNat - 2 ^ 64 := by
  unfold deepSleep
  split
  · rfl
  · have hsigned : seconds.toInt64.toInt =
        if 2 * seconds.toNat < 2 ^ 64 then (seconds.toNat : Int) else seconds.toNat - (2 ^ 64 : Nat) :=
      BitVec.toInt_eq_toNat_cond _
    show seconds.toInt64.toInt = _
    rw [hsigned]
    split <;> split <;> omega

theorem sleeps_iff (seconds : UInt64) : Sleeps seconds ↔ 0 < seconds.toNat ∧ seconds.toNat < 2 ^ 63 := by
  have hzero : seconds = 0 ↔ seconds.toNat = 0 := by
    rw [← UInt64.toNat_inj]
    rfl
  have hduration := toInt_deepSleep seconds
  constructor
  · intro h
    have hnonneg := h.nonneg
    rw [hduration] at hnonneg
    split at hnonneg
    · omega
    · rename_i hne
      rw [hzero] at hne
      have hlt := seconds.toNat_lt
      split at hnonneg <;> omega
  · rintro ⟨hpos, hlt⟩
    have hne : seconds ≠ 0 := by
      rw [Ne, hzero]
      omega
    rw [if_neg hne, if_pos hlt] at hduration
    refine ⟨?_, ?_, fun h => absurd h hne, fun h => absurd h hne⟩
    · omega
    · rw [hduration]
      exact min_le_left _ _

/-- Zero asks for minus one second. -/
theorem not_sleeps_zero : deepSleep 0 = -1 ∧ sleptBeforeAbort Thread.halt = 0 ∧ ¬ Sleeps 0 := by
  refine ⟨rfl, rfl, fun h => ?_⟩
  exact absurd h.nonneg (by decide)

end Device

/-! ### Identity strings -/

/-- `sprintf`: where it writes, and the text with its terminator. -/
def sprintf (start : Nat) (text : Bytes) : Nat × Bytes := (start, text ++ [NUL])

/-- `%02X` -/
def hex (b : UInt8) : Bytes := Hex.byte b

namespace Device

/-- The elements of an `MD5Hash`. -/
def md5Size : Nat := 32

/-- The elements of a `MacAddress`. -/
def macSize : Nat := 17

/-- The loop of `firmwareMD5` from `i` on: what is written, in its order. -/
def md5Loop (i : Nat) : Bytes → List (Nat × Bytes)
  | [] => []
  | b :: buff => sprintf (i * 2) (hex b) :: md5Loop (i + 1) buff

def md5Writes (buff : Vector UInt8 16) : List (Nat × Bytes) := md5Loop 0 buff.toList

/-- The loop of `macAddress` from `i` on. -/
def macLoop (i : Nat) : Bytes → List (Nat × Bytes)
  | [] => []
  | b :: bin =>
    sprintf (i * 3) (hex b) :: ((if i < 5 then [sprintf (i * 3 + 2) (ascii ":")] else []) ++ macLoop (i + 1) bin)

def macWrites (bin : Vector UInt8 6) : List (Nat × Bytes) := macLoop 0 bin.toList

/-- The memory from the start of an array on, behind the writes. -/
def written (mem : Bytes) (writes : List (Nat × Bytes)) : Bytes := Patch.replay mem writes.reverse

/-- Every write stays inside of an array of this size. -/
def Fits (size : Nat) (writes : List (Nat × Bytes)) : Prop := ∀ write ∈ writes, write.1 + write.2.length ≤ size

/-- The texts that `macAddress` prints, from the byte `i` on. -/
def macTexts (i : Nat) : Bytes → List Bytes
  | [] => []
  | b :: bin => hex b :: ((if i < 5 then [ascii ":"] else []) ++ macTexts (i + 1) bin)

theorem length_hex (b : UInt8) : (hex b).length = 2 := Hex.length_byte b

/-- Each print begins where the one before it has put its terminator. -/
theorem md5Loop_eq (i : Nat) (buff : Bytes) : md5Loop i buff = Patch.chain NUL (i * 2) (buff.map hex) := by
  induction buff generalizing i with
  | nil => rfl
  | cons b buff ih =>
    rw [md5Loop, ih, List.map_cons, Patch.chain, length_hex, sprintf, Nat.succ_mul]

theorem macLoop_eq {i : Nat} {bin : Bytes} (h : i + bin.length ≤ 6) :
    macLoop i bin = Patch.chain NUL (i * 3) (macTexts i bin) := by
  induction bin generalizing i with
  | nil => rfl
  | cons b bin ih =>
    rw [List.length_cons] at h
    rw [macLoop, macTexts, ih (by omega), Patch.chain, length_hex, sprintf]
    by_cases hlast : i < 5
    · have hnext : (i + 1) * 3 = i * 3 + 2 + (ascii ":").length := by
        rw [Nat.succ_mul]
        rfl
      rw [if_pos hlast, if_pos hlast, List.singleton_append, List.singleton_append, Patch.chain, sprintf, hnext]
    · have hnil : bin = [] := List.eq_nil_of_length_eq_zero (by omega)
      rw [if_neg hlast, if_neg hlast, hnil]
      rfl

/-- The text of an address, from the byte `i` on. -/
theorem flatten_macTexts {i : Nat} {bin : Bytes} (h : i + bin.length = 6) :
    (macTexts i bin).flatten = Hex.text (ascii ":") bin := by
  induction bin generalizing i with
  | nil => rfl
  | cons b bin ih =>
    rw [List.length_cons] at h
    cases bin with
    | nil =>
      have hlast : ¬ i < 5 := by
        rw [List.length_nil] at h
        omega
      rw [macTexts, if_neg hlast]
      simp [macTexts, Hex.text, hex]
    | cons c bin =>
      have hmore : i < 5 := by
        rw [List.length_cons] at h
        omega
      rw [macTexts, if_pos hmore, List.flatten_cons, List.singleton_append, List.flatten_cons, ih (by omega), Hex.text, hex]

/-- `%02X` of every byte, next to each other. -/
def md5Text (buff : Vector UInt8 16) : Bytes := Hex.text [] buff.toList

/-- `%02X` of every byte, with colons between them. -/
def macText (bin : Vector UInt8 6) : Bytes := Hex.text (ascii ":") bin.toList

/-- What an array holds when some bytes have been printed: their text, which that of no other bytes is. -/
structure Printed {n : Nat} (size : Nat) (writes : Vector UInt8 n → List (Nat × Bytes)) (text : Vector UInt8 n → Bytes)
    (bytes : Vector UInt8 n) : Prop where
  contents : ∀ mem, size < mem.length → (written mem (writes bytes)).take size = text bytes
  distinct : ∀ other mem, size < mem.length → (written mem (writes other)).take size = (written mem (writes bytes)).take size →
    other = bytes

/-- The bytes are printed, and every write is inside of the array. -/
structure PrintedInside {n : Nat} (size : Nat) (writes : Vector UInt8 n → List (Nat × Bytes))
    (text : Vector UInt8 n → Bytes) (bytes : Vector UInt8 n) : Prop extends Printed size writes text bytes where
  fits : Fits size (writes bytes)

/-- Texts that are printed one behind the other fill an array of their length, and the last terminator is behind it. -/
theorem printed_chain {n size : Nat} {writes : Vector UInt8 n → List (Nat × Bytes)} {text : Vector UInt8 n → Bytes}
    (texts : Vector UInt8 n → List Bytes) (hwrites : ∀ bytes, writes bytes = Patch.chain NUL 0 (texts bytes))
    (htext : ∀ bytes, (texts bytes).flatten = text bytes) (hne : ∀ bytes, texts bytes ≠ [])
    (hsize : ∀ bytes, (text bytes).length = size) (hinjective : Function.Injective text) (bytes : Vector UInt8 n) :
    ¬ PrintedInside size writes text bytes ∧ Printed size writes text bytes ∧ Fits (size + 1) (writes bytes) := by
  obtain ⟨hall, write, hmem, hend⟩ := Patch.chain_end NUL 0 (hne bytes)
  rw [htext, hsize, Nat.zero_add] at hall hend
  have hcontents : ∀ bytes mem, (written mem (writes bytes)).take size = text bytes := by
    intro bytes mem
    rw [written, hwrites, Patch.replay_chain NUL (hne bytes) (Nat.zero_le _), List.take_zero, List.nil_append, htext,
      ← hsize bytes, List.take_left]
  refine ⟨fun h => ?_, ⟨fun mem _ => hcontents bytes mem, fun other mem _ hsame => ?_⟩, ?_⟩
  · have hfits := h.fits write
    rw [hwrites] at hfits
    have := hfits hmem
    omega
  · rw [hcontents, hcontents] at hsame
    exact hinjective hsame
  · rw [Fits, hwrites]
    exact hall

/-- Every digest and every address is printed with all of its digits, and no two with the same.  The last terminator of every
one of them is written behind the array, and nothing else is. -/
theorem identity_overruns (digest : Vector UInt8 16) (address : Vector UInt8 6) :
    (¬ PrintedInside md5Size md5Writes md5Text digest ∧ Printed md5Size md5Writes md5Text digest ∧
        Fits (md5Size + 1) (md5Writes digest)) ∧
      ¬ PrintedInside macSize macWrites macText address ∧ Printed macSize macWrites macText address ∧
        Fits (macSize + 1) (macWrites address) := by
  constructor
  · apply printed_chain fun buff => buff.toList.map hex
    · exact fun buff => md5Loop_eq 0 buff.toList
    · exact fun buff => (Hex.text_nil buff.toList).symm
    · intro buff h
      have hlength := congrArg List.length h
      simp at hlength
    · intro buff
      rw [md5Text, Hex.length_text, Vector.length_toList]
      rfl
    · intro buff buff' h
      exact Vector.toList_inj.1 (Hex.text_injective (by simp) h)
  · apply printed_chain fun bin => macTexts 0 bin.toList
    · exact fun bin => macLoop_eq (by simp)
    · exact fun bin => flatten_macTexts (by simp)
    · intro bin h
      have htext : (macTexts 0 bin.toList).flatten = macText bin := flatten_macTexts (by simp)
      have hlength := congrArg List.length htext
      rw [h, macText, Hex.length_text, Vector.length_toList] at hlength
      contradiction
    · intro bin
      rw [macText, Hex.length_text, Vector.length_toList]
      rfl
    · intro bin bin' h
      exact Vector.toList_inj.1 (Hex.text_injective (by simp) h)

/-- The last byte of a digest is printed to the places 30, 31 and 32. -/
theorem zeros_overrun :
    (30, ascii "00" ++ [NUL]) ∈ md5Writes (.replicate 16 0) ∧
      ¬ PrintedInside md5Size md5Writes md5Text (.replicate 16 0) := by
  have hmem : (30, ascii "00" ++ [NUL]) ∈ md5Writes (.replicate 16 0) := by decide
  refine ⟨hmem, fun h => ?_⟩
  exact absurd (h.fits _ hmem) (by decide)

end Device

end IopHal
