import IopHal.Bytes
import IopHal.Library.Slices
import IopHal.Library.Word

/-!
# `Device::firmwareMD5` on ESP

The sketch is read from the flash in blocks and added to a digest.  The buffer is as large as the memory allows, and a block
is read with a length rounded up to words.  What the memory and the flash answer is given (`Esp`).  `firmwareMD5_spec`
follows both loops for every sketch: there is a buffer or a panic, and with a buffer the blocks are the sketch.

The result is kept between calls; here is the first one.
-/

namespace IopHal

open Slices

/-- What the device and its libraries answer. -/
structure Esp where
  sketchSize : UInt32
  /-- `new (std::nothrow) uint8_t[bufSize]` returns a buffer -/
  allocates : UInt32 → Bool
  /-- `ESP.flashRead`: what it puts at the start of the buffer, if it succeeds -/
  flashRead : UInt32 → UInt32 → Option Bytes
  /-- `MD5Builder::getChars`, by what was added -/
  getChars : List Bytes → Bytes

namespace Esp

/-- One pass of the loop that reads: its variables, and what is added to the digest. -/
structure Pass where
  offset : UInt32
  lengthLeft : UInt32
  readBytes : UInt32
  alignedSize : UInt32
  chunk : Bytes

/-- What a call has done and what it returns. -/
structure Hashed where
  passes : List Pass
  md5 : Bytes

variable (e : Esp)

/-- The loop that looks for a buffer: whether there is one, and `bufSize` behind the loop. -/
def findBuffer (buf : Bool) (bufSize : UInt32) : Bool × UInt32 :=
  if buf = false ∧ 1 < bufSize then findBuffer (e.allocates (bufSize / 2)) (bufSize / 2) else (buf, bufSize)
termination_by bufSize.toNat
decreasing_by
  rename_i h
  have hlarge : 1 < bufSize.toNat := UInt32.lt_iff_toNat_lt.1 h.2
  have hhalf : (bufSize / 2).toNat = bufSize.toNat / 2 := UInt32.toNat_div bufSize 2
  omega

/-- `readBytes` -/
def readSize (bufSize lengthLeft : UInt32) : UInt32 := if lengthLeft < bufSize then lengthLeft else bufSize

theorem toNat_readSize (bufSize lengthLeft : UInt32) :
    (readSize bufSize lengthLeft).toNat = min lengthLeft.toNat bufSize.toNat := by
  unfold readSize
  simp only [UInt32.lt_iff_toNat_lt]
  split <;> omega

/-- `(readBytes + 3) & ~3` -/
def align (readBytes : UInt32) : UInt32 := (readBytes + 3) &&& ~~~3

theorem toNat_align {readBytes : UInt32} (h : readBytes.toNat + 3 < 2 ^ 32) :
    (align readBytes).toNat = (readBytes.toNat + 3) / 4 * 4 := by
  have hsum : (readBytes + 3).toNat = readBytes.toNat + 3 := by
    rw [UInt32.toNat_add]
    exact Nat.mod_eq_of_lt h
  have hmask : (~~~3 : UInt32).toNat = 2 ^ 32 - 2 ^ 2 := rfl
  rw [align, UInt32.toNat_and, hmask, hsum]
  exact Word.and_upper (by decide) h

/-- The loop that reads, with a buffer of `bufSize` bytes. -/
def readLoop (buf : Bool) (bufSize : UInt32) (hbufSize : 128 < bufSize) (offset lengthLeft : UInt32) :
    Outcome (List Pass) :=
  if 0 < lengthLeft then
    let readBytes := readSize bufSize lengthLeft
    let alignedSize := align readBytes
    match e.flashRead offset alignedSize with
    | none => .panicked (ascii "Failed to read from flash to calculate MD5")
    | some data =>
      -- the read would leave the buffer
      if buf = false ∨ bufSize < alignedSize then .undefined
      else
        (readLoop buf bufSize hbufSize (offset + readBytes) (lengthLeft - readBytes)).bind fun later =>
          .returned (⟨offset, lengthLeft, readBytes, alignedSize, data.take readBytes.toNat⟩ :: later)
  else .returned []
termination_by lengthLeft.toNat
decreasing_by
  have hleft : 0 < lengthLeft.toNat := UInt32.lt_iff_toNat_lt.1 ‹0 < lengthLeft›
  have hlarge : 128 < bufSize.toNat := UInt32.lt_iff_toNat_lt.1 hbufSize
  have hread := toNat_readSize bufSize lengthLeft
  have hsub : (lengthLeft - readSize bufSize lengthLeft).toNat = lengthLeft.toNat - (readSize bufSize lengthLeft).toNat :=
    UInt32.toNat_sub_of_le _ _ (UInt32.le_iff_toNat_le.2 (by omega))
  omega

/-- The assertion behind the first loop. -/
def tooLow : Bytes := ascii "Too low on RAM to generate MD5 hash"

def firmwareMD5 : Outcome Hashed :=
  let found := e.findBuffer false 1024
  if hbufSize : 128 < found.2 then
    (e.readLoop found.1 found.2 hbufSize 0 e.sketchSize).bind fun passes =>
      .returned ⟨passes, e.getChars (passes.map Pass.chunk)⟩
  else .panicked tooLow

/-! ### The buffer -/

/-- The loop tries a half of the size after the other. -/
theorem findBuffer_step {bufSize : UInt32} (h : 1 < bufSize) :
    e.findBuffer false bufSize = e.findBuffer (e.allocates (bufSize / 2)) (bufSize / 2) := by
  rw [findBuffer, if_pos ⟨rfl, h⟩]

theorem findBuffer_found (bufSize : UInt32) : e.findBuffer true bufSize = (true, bufSize) := by
  rw [findBuffer, if_neg (by simp)]

/-- The size never grows. -/
theorem findBuffer_le (buf : Bool) (bufSize : UInt32) : (e.findBuffer buf bufSize).2 ≤ bufSize := by
  fun_induction findBuffer e buf bufSize with
  | case1 buf bufSize h ih =>
    refine UInt32.le_trans ih (UInt32.le_iff_toNat_le.2 ?_)
    have hhalf : (bufSize / 2).toNat = bufSize.toNat / 2 := UInt32.toNat_div bufSize 2
    omega
  | case2 buf bufSize h => exact UInt32.le_refl bufSize

/-- The buffer has 512 bytes or 256 if it is to be large enough. -/
theorem findBuffer_spec :
    (e.allocates 512 = true → e.findBuffer false 1024 = (true, 512)) ∧
      (e.allocates 512 = false → e.allocates 256 = true → e.findBuffer false 1024 = (true, 256)) ∧
      (e.allocates 512 = false → e.allocates 256 = false → ¬ 128 < (e.findBuffer false 1024).2) := by
  have hfirst : e.findBuffer false 1024 = e.findBuffer (e.allocates 512) 512 := e.findBuffer_step (by decide)
  have hsecond : e.findBuffer false 512 = e.findBuffer (e.allocates 256) 256 := e.findBuffer_step (by decide)
  have hthird : e.findBuffer false 256 = e.findBuffer (e.allocates 128) 128 := e.findBuffer_step (by decide)
  refine ⟨fun h512 => ?_, fun h512 h256 => ?_, fun h512 h256 => ?_⟩
  · rw [hfirst, h512, findBuffer_found]
  · rw [hfirst, h512, hsecond, h256, findBuffer_found]
  · rw [hfirst, h512, hsecond, h256, hthird, UInt32.not_lt]
    exact e.findBuffer_le _ _

/-! ### The blocks -/

/-- The flash holds these bytes and gives them out in whole words, and the digest is one of what was added. -/
structure Documented (flash : Nat → UInt8) (digest : Bytes → Bytes) : Prop where
  flashRead : ∀ offset size : UInt32, offset.toNat % 4 = 0 → size.toNat % 4 = 0 →
    e.flashRead offset size = some (slice flash offset.toNat size.toNat)
  getChars : ∀ chunks, e.getChars chunks = digest chunks.flatten

/-- A pass reads whole words from a word on, no more than the buffer holds, adds the bytes that are left of them, and none of
its numbers wraps. -/
structure Pass.Proper (flash : Nat → UInt8) (bufSize : UInt32) (p : Pass) : Prop where
  offset : p.offset.toNat % 4 = 0
  length : p.alignedSize.toNat % 4 = 0
  fits : p.alignedSize.toNat ≤ bufSize.toNat
  covers : p.readBytes.toNat ≤ p.alignedSize.toNat
  rounds : (p.readBytes + 3).toNat = p.readBytes.toNat + 3
  advances : (p.offset + p.readBytes).toNat = p.offset.toNat + p.readBytes.toNat
  remains : (p.lengthLeft - p.readBytes).toNat = p.lengthLeft.toNat - p.readBytes.toNat ∧
    p.readBytes.toNat ≤ p.lengthLeft.toNat
  chunk : p.chunk = slice flash p.offset.toNat p.readBytes.toNat

def Pass.range (p : Pass) : Nat × Nat := (p.offset.toNat, p.readBytes.toNat)

section readLoop

variable {e : Esp} {flash : Nat → UInt8} {digest : Bytes → Bytes} {bufSize offset lengthLeft : UInt32}

/-- The pass that the loop makes from `offset` on. -/
def passAt (flash : Nat → UInt8) (bufSize offset lengthLeft : UInt32) : Pass where
  offset := offset
  lengthLeft := lengthLeft
  readBytes := readSize bufSize lengthLeft
  alignedSize := align (readSize bufSize lengthLeft)
  chunk := slice flash offset.toNat (readSize bufSize lengthLeft).toNat

/-- A buffer of whole words, which the sizes of the blocks stay below. -/
theorem proper_passAt (hsmall : bufSize.toNat ≤ 512) (hwords : bufSize.toNat % 4 = 0) (halign : offset.toNat % 4 = 0)
    (hend : offset.toNat + lengthLeft.toNat < 2 ^ 32) : (passAt flash bufSize offset lengthLeft).Proper flash bufSize := by
  have hread := toNat_readSize bufSize lengthLeft
  have haligned : (align (readSize bufSize lengthLeft)).toNat = ((readSize bufSize lengthLeft).toNat + 3) / 4 * 4 :=
    toNat_align (by omega)
  refine ⟨halign, ?_, ?_, ?_, ?_, ?_, ⟨?_, ?_⟩, rfl⟩
  · show (align (readSize bufSize lengthLeft)).toNat % 4 = 0
    omega
  · show (align (readSize bufSize lengthLeft)).toNat ≤ bufSize.toNat
    omega
  · show (readSize bufSize lengthLeft).toNat ≤ (align (readSize bufSize lengthLeft)).toNat
    omega
  · show (readSize bufSize lengthLeft + 3).toNat = (readSize bufSize lengthLeft).toNat + 3
    have hthree : (3 : UInt32).toNat = 3 := rfl
    rw [UInt32.toNat_add, hthree]
    exact Nat.mod_eq_of_lt (by omega)
  · show (offset + readSize bufSize lengthLeft).toNat = offset.toNat + (readSize bufSize lengthLeft).toNat
    rw [UInt32.toNat_add]
    exact Nat.mod_eq_of_lt (by omega)
  · exact UInt32.toNat_sub_of_le _ _ (UInt32.le_iff_toNat_le.2 (hread.le.trans (Nat.min_le_left _ _)))
  · show (readSize bufSize lengthLeft).toNat ≤ lengthLeft.toNat
    omega

/-- What a pass of the loop does: it makes the pass, and goes on behind it. -/
theorem readLoop_step (hdoc : e.Documented flash digest) {hbufSize : 128 < bufSize} (hleft : 0 < lengthLeft)
    (hproper : (passAt flash bufSize offset lengthLeft).Proper flash bufSize) :
    e.readLoop true bufSize hbufSize offset lengthLeft =
      (e.readLoop true bufSize hbufSize (offset + readSize bufSize lengthLeft) (lengthLeft - readSize bufSize lengthLeft)).bind
        fun later => .returned (passAt flash bufSize offset lengthLeft :: later) := by
  have hflash := hdoc.flashRead _ _ hproper.offset hproper.length
  have hfits : ¬ (true = false ∨ bufSize < align (readSize bufSize lengthLeft)) := by
    rw [not_or, UInt32.not_lt]
    exact ⟨by decide, UInt32.le_iff_toNat_le.2 hproper.fits⟩
  rw [readLoop, if_pos hleft]
  have hchunk : (slice flash offset.toNat (align (readSize bufSize lengthLeft)).toNat).take
      (readSize bufSize lengthLeft).toNat = slice flash offset.toNat (readSize bufSize lengthLeft).toNat :=
    take_slice flash offset.toNat hproper.covers
  simp only [passAt] at hflash ⊢
  rw [hflash]
  dsimp only
  rw [if_neg hfits, hchunk]

/-- The passes of the loop lie next to each other, from `offset` to the end of the sketch. -/
theorem readLoop_spec (hdoc : e.Documented flash digest) (hbufSize : 128 < bufSize) (hsmall : bufSize.toNat ≤ 512)
    (hwords : bufSize.toNat % 4 = 0) (halign : 0 < lengthLeft → offset.toNat % 4 = 0)
    (hend : offset.toNat + lengthLeft.toNat < 2 ^ 32) :
    ∃ passes, e.readLoop true bufSize hbufSize offset lengthLeft = .returned passes ∧
      (∀ p ∈ passes, p.Proper flash bufSize) ∧
      Adjoin offset.toNat (passes.map Pass.range) (offset.toNat + lengthLeft.toNat) := by
  induction hn : lengthLeft.toNat using Nat.strong_induction_on generalizing offset lengthLeft with
  | _ n ih =>
    subst hn
    by_cases hleft : 0 < lengthLeft
    · have hproper : (passAt flash bufSize offset lengthLeft).Proper flash bufSize :=
        proper_passAt hsmall hwords (halign hleft) hend
      have hadvances : (offset + readSize bufSize lengthLeft).toNat = offset.toNat + (readSize bufSize lengthLeft).toNat :=
        hproper.advances
      have hremains : (lengthLeft - readSize bufSize lengthLeft).toNat =
          lengthLeft.toNat - (readSize bufSize lengthLeft).toNat := hproper.remains.1
      have hread := toNat_readSize bufSize lengthLeft
      have hlarge : 128 < bufSize.toNat := UInt32.lt_iff_toNat_lt.1 hbufSize
      have hpos : 0 < lengthLeft.toNat := UInt32.lt_iff_toNat_lt.1 hleft
      have hoffset := halign hleft
      have hnext : 0 < lengthLeft - readSize bufSize lengthLeft →
          (offset + readSize bufSize lengthLeft).toNat % 4 = 0 := by
        -- only the last block is shorter than the buffer
        intro hmore
        have hmore : 0 < (lengthLeft - readSize bufSize lengthLeft).toNat := UInt32.lt_iff_toNat_lt.1 hmore
        omega
      obtain ⟨passes, hpasses, hall, hadjoin⟩ :=
        ih (lengthLeft - readSize bufSize lengthLeft).toNat (by omega) hnext (by omega) rfl
      refine ⟨passAt flash bufSize offset lengthLeft :: passes, ?_, ?_, ?_⟩
      · rw [readLoop_step hdoc hleft hproper, hpasses]
        rfl
      · rw [List.forall_mem_cons]
        exact ⟨hproper, hall⟩
      · refine Adjoin.cons ?_
        show Adjoin (offset.toNat + (readSize bufSize lengthLeft).toNat) _ _
        rw [hadvances, hremains] at hadjoin
        have hstop : offset.toNat + (readSize bufSize lengthLeft).toNat +
            (lengthLeft.toNat - (readSize bufSize lengthLeft).toNat) = offset.toNat + lengthLeft.toNat := by omega
        rwa [hstop] at hadjoin
    · have hzero : lengthLeft.toNat = 0 := by
        rw [UInt32.lt_iff_toNat_lt] at hleft
        exact Nat.eq_zero_of_not_pos hleft
      refine ⟨[], ?_, fun p hp => absurd hp List.not_mem_nil, ?_⟩
      · rw [readLoop, if_neg hleft]
      · rw [hzero]
        exact Adjoin.nil _

end readLoop

/-- A call that has a buffer covers the sketch with proper passes, and returns the digest of it. -/
def Covers (flash : Nat → UInt8) (digest : Bytes → Bytes) : Prop :=
  ∃ bufSize passes, e.allocates bufSize = true ∧ (bufSize = 512 ∨ bufSize = 256) ∧
    e.firmwareMD5 = .returned ⟨passes, digest (slice flash 0 e.sketchSize.toNat)⟩ ∧
    (∀ p ∈ passes, p.Proper flash bufSize) ∧
    Adjoin 0 (passes.map Pass.range) e.sketchSize.toNat ∧
    (passes.map Pass.chunk).flatten = slice flash 0 e.sketchSize.toNat

theorem covers_of_buffer {flash : Nat → UInt8} {digest : Bytes → Bytes} (hdoc : e.Documented flash digest)
    {bufSize : UInt32} (hbufSize : bufSize = 512 ∨ bufSize = 256) (hallocates : e.allocates bufSize = true)
    (hfound : e.findBuffer false 1024 = (true, bufSize)) : e.Covers flash digest := by
  have hlarge : 128 < bufSize ∧ bufSize.toNat ≤ 512 ∧ bufSize.toNat % 4 = 0 := by
    rcases hbufSize with rfl | rfl <;> decide
  have hsketch := e.sketchSize.toNat_lt
  have hzero : (0 : UInt32).toNat = 0 := rfl
  have halign : 0 < e.sketchSize → (0 : UInt32).toNat % 4 = 0 := fun _ => rfl
  obtain ⟨passes, hpasses, hall, hadjoin⟩ := readLoop_spec hdoc hlarge.1 hlarge.2.1 hlarge.2.2 halign (by omega)
  rw [hzero, Nat.zero_add] at hadjoin
  have hchunks : (passes.map Pass.chunk).flatten = slice flash 0 e.sketchSize.toNat := by
    have hslices : passes.map Pass.chunk = (passes.map Pass.range).map fun r => slice flash r.1 r.2 := by
      rw [List.map_map]
      exact List.map_congr_left fun p hp => (hall p hp).chunk
    rw [hslices, (hadjoin.flatten_eq flash).2, Nat.sub_zero]
  refine ⟨bufSize, passes, hallocates, hbufSize, ?_, hall, hadjoin, hchunks⟩
  unfold firmwareMD5
  simp only [hfound]
  rw [dif_pos hlarge.1, hpasses, Outcome.bind_returned, hdoc.getChars, hchunks]

/-- Whatever the size of the sketch and whichever buffers can be allocated: the call panics for want of memory exactly if
neither 512 bytes nor 256 can be had, and else it covers the sketch. -/
theorem firmwareMD5_spec {flash : Nat → UInt8} {digest : Bytes → Bytes} (hdoc : e.Documented flash digest) :
    (e.firmwareMD5 = .panicked tooLow ↔ e.allocates 512 = false ∧ e.allocates 256 = false) ∧
      (e.firmwareMD5 = .panicked tooLow ∨ e.Covers flash digest) := by
  obtain ⟨h512, h256, hnone⟩ := e.findBuffer_spec
  have hcovers : e.Covers flash digest → e.firmwareMD5 ≠ .panicked tooLow := by
    rintro ⟨bufSize, passes, -, -, hreturned, -⟩ hpanicked
    rw [hreturned] at hpanicked
    contradiction
  cases hlarge : e.allocates 512 with
  | true =>
    have hcovered := e.covers_of_buffer hdoc (.inl rfl) hlarge (h512 hlarge)
    exact ⟨iff_of_false (hcovers hcovered) (by simp), .inr hcovered⟩
  | false =>
    cases hhalf : e.allocates 256 with
    | true =>
      have hcovered := e.covers_of_buffer hdoc (.inr rfl) hhalf (h256 hlarge hhalf)
      exact ⟨iff_of_false (hcovers hcovered) (by simp), .inr hcovered⟩
    | false =>
      have hpanicked : e.firmwareMD5 = .panicked tooLow := by
        unfold firmwareMD5
        exact dif_neg (hnone hlarge hhalf)
      exact ⟨iff_of_true hpanicked ⟨rfl, rfl⟩, .inl hpanicked⟩

/-- The flash with the three bytes `abc` in it. -/
def abcFlash (address : Nat) : UInt8 := ((ascii "abc")[address]?).getD 0xFF

/-- The MD5 hash of `abc`. -/
def abcMD5 : Bytes := ascii "900150983cd24fb0d6963f7d28e17f72"

/-- A sketch of three bytes, on a device that is short of memory. -/
def abcEsp : Esp where
  sketchSize := 3
  allocates size := size ≤ 256
  flashRead offset size := some (slice abcFlash offset.toNat size.toNat)
  getChars _ := abcMD5

theorem abcEsp_documented : abcEsp.Documented abcFlash fun _ => abcMD5 := ⟨fun _ _ _ _ => rfl, fun _ => rfl⟩

theorem abcEsp_covers : abcEsp.Covers abcFlash fun _ => abcMD5 := by
  obtain ⟨hpanics, hdone⟩ := abcEsp.firmwareMD5_spec abcEsp_documented
  have hhalf : abcEsp.allocates 256 = true := by decide
  refine hdone.resolve_left fun hpanicked => ?_
  have hnone := (hpanics.1 hpanicked).2
  rw [hhalf] at hnone
  contradiction

end Esp

end IopHal
