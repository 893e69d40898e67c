import IopHal.Library.Blocks
import IopHal.Library.Endian
import IopHal.Library.Patch
import IopHal.Library.Word
import IopHal.Md5

/-!
# `MD5_Init`, `MD5_Update` and `MD5_Final`

A context keeps the registers, the beginning of a block that is not full, and the number of bytes in two words of 29 and of
32 bits.  `Absorbed` says what a context stands for, and `update_absorbed` that an update keeps it: whatever stands in the
buffer, whatever the width of an `unsigned long`, and without a read or a write outside of an array.  `digest_updates` is the
whole run: the digest of the standard, however the message is cut into pieces.
-/

namespace IopHal.Md5

/-! ### RFC 1321 -/

namespace Rfc

def initial : Regs := ⟨0x67452301, 0xefcdab89, 0x98badcfe, 0x10325476⟩

/-- A single one, zeros up to a whole block, and the number of bits. -/
def padding (length : Nat) : Bytes :=
  0x80 :: (List.replicate (Blocks.fill 64 (length + 9)) 0 ++ Endian.little 8 (8 * length))

def encode (r : Regs) : Bytes :=
  Endian.little 4 r.a.toNat ++ Endian.little 4 r.b.toNat ++ Endian.little 4 r.c.toNat ++ Endian.little 4 r.d.toNat

/-- The digest of a message. -/
def digest (message : Bytes) : Bytes :=
  encode (Blocks.absorb compress 64 initial (message ++ padding message.length))

example : digest (ascii "message digest") =
    [0xf9, 0x6b, 0x69, 0x7d, 0x7c, 0xb7, 0x93, 0x8d, 0x52, 0x5a, 0x2f, 0x31, 0xaa, 0xf1, 0x61, 0xd0] := by
  decide +kernel

end Rfc

/-! ### The context -/

/-- `ctx->buffer` -/
structure Buffer where
  bytes : Bytes
  full : bytes.length = 64

/-- A write to the buffer. -/
def Buffer.write (buffer : Buffer) (start : Nat) (block : Bytes) : Outcome Buffer :=
  if h : start + block.length ≤ 64 then
    .returned ⟨Patch.patch buffer.bytes start block, (Patch.length_patch (by rw [buffer.full]; exact h)).trans buffer.full⟩
  else .undefined

def Buffer.memcpy (buffer : Buffer) (start : Nat) (data : Bytes) (size : Nat) : Outcome Buffer :=
  if size ≤ data.length then buffer.write start (data.take size) else .undefined

def Buffer.memset (buffer : Buffer) (start : Nat) (value : UInt8) (size : Nat) : Outcome Buffer :=
  buffer.write start (List.replicate size value)

/-- `MD5_CTX` -/
structure Ctx where
  lo : UInt32
  hi : UInt32
  machine : Machine
  buffer : Buffer

/-- The loop of `body` from `ptr` on, with `size` bytes to go. -/
def bodyLoop (t : Target) (ptr : Bytes) (size : Nat) (m : Machine) : Outcome (Machine × Bytes) :=
  -- a block that is not there would be read
  if ptr.length < 64 then .undefined
  else
    let m := m.transform t ptr
    let size := (size + (2 ^ t.longBits - 64)) % 2 ^ t.longBits
    if size ≠ 0 then bodyLoop t (ptr.drop 64) size m else .returned (m, ptr.drop 64)
termination_by ptr.length
decreasing_by
  rw [List.length_drop]
  omega

/-- `body`, which returns where it has stopped. -/
def body (t : Target) (ctx : Ctx) (data : Bytes) (size : Nat) : Outcome (Ctx × Bytes) :=
  (bodyLoop t data size ctx.machine).bind fun done => .returned ({ ctx with machine := done.1 }, done.2)

/-- `MD5_Init`, which leaves the buffer as it is. -/
def init (ctx : Ctx) : Ctx :=
  { ctx with machine := { ctx.machine with regs := ⟨0x67452301, 0xefcdab89, 0x98badcfe, 0x10325476⟩ }, lo := 0, hi := 0 }

/-- The last `memcpy` of `MD5_Update`. -/
def keep (ctx : Ctx) (data : Bytes) (size : Nat) : Outcome Ctx :=
  (ctx.buffer.memcpy 0 data size).bind fun buffer => .returned { ctx with buffer := buffer }

/-- `MD5_Update`, when the buffer has been used up. -/
def updateBlocks (t : Target) (ctx : Ctx) (data : Bytes) (size : Nat) : Outcome Ctx :=
  if 64 ≤ size then
    (body t ctx data (size &&& (2 ^ t.longBits - 64))).bind fun done => keep done.1 done.2 (size &&& 0x3f)
  else keep ctx data size

/-- `MD5_Update` behind the counters, with `used` bytes in the buffer. -/
def updateBuffer (t : Target) (ctx : Ctx) (used : Nat) (data : Bytes) (size : Nat) : Outcome Ctx :=
  if used ≠ 0 then
    let available := 64 - used
    if size < available then
      (ctx.buffer.memcpy used data size).bind fun buffer => .returned { ctx with buffer := buffer }
    else
      (ctx.buffer.memcpy used data available).bind fun buffer =>
        (body t { ctx with buffer := buffer } buffer.bytes 64).bind fun done =>
          updateBlocks t done.1 (data.drop available) (size - available)
  else updateBlocks t ctx data size

/-- The counters that `MD5_Update` leaves behind. -/
def count (t : Target) (ctx : Ctx) (size : Nat) : Ctx :=
  let savedLo := ctx.lo
  let lo := UInt32.ofNat ((savedLo.toNat + size) % 2 ^ t.longBits &&& 0x1fffffff)
  let hi := if lo < savedLo then ctx.hi + 1 else ctx.hi
  { ctx with lo := lo, hi := hi + UInt32.ofNat (size >>> 29) }

/-- `MD5_Update` -/
def update (t : Target) (ctx : Ctx) (data : Bytes) (size : Nat) : Outcome Ctx :=
  updateBuffer t (count t ctx size) (ctx.lo &&& 0x3f).toNat data size

/-- `OUT` -/
def out (src : UInt32) : Bytes := [src.toUInt8, (src >>> 8).toUInt8, (src >>> 16).toUInt8, (src >>> 24).toUInt8]

/-- `memset(ctx, 0, sizeof(*ctx))` -/
def wiped : Ctx := ⟨0, 0, ⟨⟨0, 0, 0, 0⟩, .replicate 16 0⟩, ⟨List.replicate 64 0, by rw [List.length_replicate]⟩⟩

/-- `MD5_Final`, when there is room for the number of bits behind the `used` bytes. -/
def finalLength (t : Target) (ctx : Ctx) (used : Nat) : Outcome (Bytes × Ctx) :=
  let available := 64 - used
  (ctx.buffer.memset used 0 (available - 8)).bind fun buffer =>
    let lo := ctx.lo <<< 3
    (buffer.write 56 (out lo)).bind fun buffer =>
      (buffer.write 60 (out ctx.hi)).bind fun buffer =>
        (body t { ctx with lo := lo, buffer := buffer } buffer.bytes 64).bind fun done =>
          let r := done.1.machine.regs
          .returned (out r.a ++ out r.b ++ out r.c ++ out r.d, wiped)

/-- `MD5_Final`: the digest, and the context behind it. -/
def final (t : Target) (ctx : Ctx) : Outcome (Bytes × Ctx) :=
  let used := (ctx.lo &&& 0x3f).toNat
  (ctx.buffer.write used [0x80]).bind fun buffer =>
    let ctx := { ctx with buffer := buffer }
    let used := used + 1
    let available := 64 - used
    if available < 8 then
      (buffer.memset used 0 available).bind fun buffer =>
        (body t { ctx with buffer := buffer } buffer.bytes 64).bind fun done => finalLength t done.1 0
    else finalLength t ctx used

/-- A number of updates. -/
def updates (t : Target) (ctx : Ctx) : List Bytes → Outcome Ctx
  | [] => .returned ctx
  | piece :: pieces => (update t ctx piece piece.length).bind fun ctx => updates t ctx pieces

/-! ### Blocks -/

theorem word_take (ptr : Bytes) {n : Nat} (hn : n < 16) : word (ptr.take 64) n = word ptr n := by
  have hbyte : ∀ i < 64, byteAt (ptr.take 64) i = byteAt ptr i := by
    intro i hi
    rw [byteAt, byteAt, List.getD_eq_getElem?_getD, List.getD_eq_getElem?_getD, List.getElem?_take_of_lt hi]
  rw [word, word, hbyte _ (by omega), hbyte _ (by omega), hbyte _ (by omega), hbyte _ (by omega)]

theorem rounds_congr {x y : Nat → UInt32} (h : ∀ n < 16, x n = y n) (count : Nat) (r : Regs) :
    Rfc.rounds x count r = Rfc.rounds y count r := by
  have hstep : Rfc.step x = Rfc.step y := by
    funext r i
    rw [Rfc.step, Rfc.step, h _ k_lt]
  rw [Rfc.rounds, Rfc.rounds, hstep]

/-- A block is compressed without what stands behind it. -/
theorem compress_take (r : Regs) (ptr : Bytes) : Rfc.compress r (ptr.take 64) = Rfc.compress r ptr := by
  rw [Rfc.compress, Rfc.compress, rounds_congr fun n hn => word_take ptr hn]

/-- A pass takes one block, and the size is a number of blocks again. -/
theorem bodyLoop_pass {t : Target} {k : Nat} {ptr : Bytes} (m : Machine) (hptr : 64 ≤ ptr.length)
    (hlong : (k + 1) * 64 < 2 ^ t.longBits) :
    bodyLoop t ptr ((k + 1) * 64) m =
      if k * 64 ≠ 0 then bodyLoop t (ptr.drop 64) (k * 64) (m.transform t ptr)
      else .returned (m.transform t ptr, ptr.drop 64) := by
  have hsum : (k + 1) * 64 + (2 ^ t.longBits - 64) = k * 64 + 2 ^ t.longBits := by omega
  have hwrap : ((k + 1) * 64 + (2 ^ t.longBits - 64)) % 2 ^ t.longBits = k * 64 := by
    rw [hsum, Nat.add_mod_right, Nat.mod_eq_of_lt (by omega)]
  rw [bodyLoop, if_neg (by omega)]
  simp only [hwrap]

theorem blocks_transform (t : Target) (ptr : Bytes) (m : Machine) (k : Nat) :
    Blocks.blocks Rfc.compress 64 (k + 1) m.regs ptr =
      Blocks.blocks Rfc.compress 64 k (m.transform t ptr).regs (ptr.drop 64) := by
  rw [transform_eq, Blocks.blocks_succ, compress_take]

/-- The loop takes one block after the other, and stops behind the last one. -/
theorem bodyLoop_eq {t : Target} {k : Nat} {ptr : Bytes} (m : Machine) (hptr : (k + 1) * 64 ≤ ptr.length)
    (hlong : (k + 1) * 64 < 2 ^ t.longBits) :
    ∃ block, bodyLoop t ptr ((k + 1) * 64) m =
      .returned (⟨Blocks.blocks Rfc.compress 64 (k + 1) m.regs ptr, block⟩, ptr.drop ((k + 1) * 64)) := by
  induction k generalizing ptr m with
  | zero =>
    refine ⟨(m.transform t ptr).block, ?_⟩
    rw [bodyLoop_pass m (by omega) hlong, if_neg (by simp), blocks_transform t ptr m 0, Nat.zero_add, Nat.one_mul]
    rfl
  | succ k ih =>
    have hsucc : (k + 1 + 1) * 64 = (k + 1) * 64 + 64 := Nat.succ_mul _ _
    rw [hsucc] at hptr hlong
    have hrest : (k + 1) * 64 ≤ (ptr.drop 64).length := by
      rw [List.length_drop]
      exact Nat.le_sub_of_add_le hptr
    obtain ⟨block, hloop⟩ := ih (m.transform t ptr) hrest (by omega)
    refine ⟨block, ?_⟩
    rw [bodyLoop_pass m (by omega) (by rw [hsucc]; exact hlong), if_pos (by omega), hloop, List.drop_drop,
      Nat.add_comm 64, ← hsucc, blocks_transform t ptr m (k + 1)]

theorem body_eq {t : Target} {k : Nat} {data : Bytes} (ctx : Ctx) (hdata : (k + 1) * 64 ≤ data.length)
    (hlong : (k + 1) * 64 < 2 ^ t.longBits) :
    ∃ block, body t ctx data ((k + 1) * 64) =
      .returned ({ ctx with machine := ⟨Blocks.blocks Rfc.compress 64 (k + 1) ctx.machine.regs data, block⟩ },
        data.drop ((k + 1) * 64)) := by
  obtain ⟨block, hloop⟩ := bodyLoop_eq ctx.machine hdata hlong
  refine ⟨block, ?_⟩
  rw [body, hloop, Outcome.bind_returned]

theorem Target.large (t : Target) : 2 ^ 32 ≤ 2 ^ t.longBits := Nat.pow_le_pow_right (by omega) t.wide

/-- The block of the buffer. -/
theorem body_buffer (t : Target) (ctx : Ctx) (buffer : Buffer) :
    ∃ block, body t { ctx with buffer := buffer } buffer.bytes 64 =
      .returned ({ ctx with machine := ⟨Rfc.compress ctx.machine.regs buffer.bytes, block⟩, buffer := buffer }, []) := by
  have hlong := t.large
  have hone : Blocks.blocks Rfc.compress 64 1 ctx.machine.regs buffer.bytes = Rfc.compress ctx.machine.regs buffer.bytes := by
    rw [Blocks.blocks_succ, compress_take, Blocks.blocks]
  obtain ⟨block, hbody⟩ := body_eq (t := t) (k := 0) { ctx with buffer := buffer } buffer.full.ge (by omega)
  refine ⟨block, hbody.trans ?_⟩
  rw [List.drop_eq_nil_of_le (by rw [buffer.full]), hone]

/-! ### The buffer -/

/-- A write behind the bytes that are known makes more of them known. -/
theorem write_known {buffer : Buffer} {known : Bytes} (block : Bytes) (hknown : buffer.bytes.take known.length = known)
    (hroom : known.length + block.length ≤ 64) :
    ∃ buffer', buffer.write known.length block = .returned buffer' ∧
      buffer'.bytes.take (known ++ block).length = known ++ block := by
  rw [Buffer.write, dif_pos hroom]
  refine ⟨_, rfl, ?_⟩
  show (Patch.patch buffer.bytes known.length block).take _ = _
  rw [Patch.patch, hknown, ← List.append_assoc, List.take_left]

theorem memcpy_known {buffer : Buffer} {known : Bytes} (data : Bytes) (size : Nat) (hknown : buffer.bytes.take known.length = known)
    (hsize : size ≤ data.length) (hroom : known.length + size ≤ 64) :
    ∃ buffer', buffer.memcpy known.length data size = .returned buffer' ∧
      buffer'.bytes.take (known.length + size) = known ++ data.take size := by
  have hlength := List.length_take_of_le hsize
  obtain ⟨buffer', hwrite, htake⟩ := write_known (data.take size) hknown (by rw [hlength]; exact hroom)
  rw [List.length_append, hlength] at htake
  exact ⟨buffer', by rw [Buffer.memcpy, if_pos hsize, hwrite], htake⟩

theorem Buffer.eq_of_take {buffer : Buffer} {bytes : Bytes} (h : buffer.bytes.take 64 = bytes) : buffer.bytes = bytes := by
  rw [← h, List.take_of_length_le buffer.full.le]

/-! ### An update -/

/-- What a context stands for. -/
structure Absorbed (ctx : Ctx) (message : Bytes) : Prop where
  lo : ctx.lo.toNat = message.length % 2 ^ 29
  hi : ctx.hi.toNat = message.length / 2 ^ 29 % 2 ^ 32
  regs : ctx.machine.regs = Blocks.absorb Rfc.compress 64 Rfc.initial message
  buffer : ctx.buffer.bytes.take (message.length % 64) = Blocks.rest 64 message

theorem init_absorbed (ctx : Ctx) : Absorbed (init ctx) [] := ⟨rfl, rfl, rfl, rfl⟩

theorem toNat_and_63 (x : UInt32) : (x &&& 0x3f).toNat = x.toNat % 64 := by
  rw [UInt32.toNat_and]
  exact Nat.and_two_pow_sub_one_eq_mod x.toNat 6

/-- The lower word of the counter. -/
theorem toNat_lo (t : Target) (lo : UInt32) (size : Nat) :
    (UInt32.ofNat ((lo.toNat + size) % 2 ^ t.longBits &&& 0x1fffffff)).toNat = (lo.toNat + size) % 2 ^ 29 := by
  have hmask : (lo.toNat + size) % 2 ^ t.longBits &&& 0x1fffffff = (lo.toNat + size) % 2 ^ t.longBits % 2 ^ 29 :=
    Nat.and_two_pow_sub_one_eq_mod _ 29
  have hdvd : 2 ^ 29 ∣ 2 ^ t.longBits := Nat.pow_dvd_pow 2 (by have := t.wide; omega)
  have hlt : (lo.toNat + size) % 2 ^ 29 < 2 ^ 29 := Nat.mod_lt _ (by omega)
  have hword : 2 ^ 29 < UInt32.size := by decide
  rw [hmask, Nat.mod_mod_of_dvd _ hdvd, UInt32.toNat_ofNat_of_lt' (hlt.trans hword)]

/-- The upper word of the counter, with the carry of the lower one. -/
theorem toNat_hi (t : Target) {lo hi : UInt32} {length : Nat} (size : Nat) (hlo : lo.toNat = length % 2 ^ 29)
    (hhi : hi.toNat = length / 2 ^ 29 % 2 ^ 32) :
    ((if UInt32.ofNat ((lo.toNat + size) % 2 ^ t.longBits &&& 0x1fffffff) < lo then hi + 1 else hi) +
      UInt32.ofNat (size >>> 29)).toNat = (length + size) / 2 ^ 29 % 2 ^ 32 := by
  have hcarry : UInt32.ofNat ((lo.toNat + size) % 2 ^ t.longBits &&& 0x1fffffff) < lo ↔
      (length % 2 ^ 29 + size) % 2 ^ 29 < length % 2 ^ 29 := by
    rw [UInt32.lt_iff_toNat_lt, toNat_lo, hlo]
  have hshift : (UInt32.ofNat (size >>> 29)).toNat = size / 2 ^ 29 % 2 ^ 32 := by
    rw [Nat.shiftRight_eq_div_pow]
    exact UInt32.toNat_ofNat'
  rw [UInt32.toNat_add, hshift]
  split
  · rename_i h
    rw [hcarry] at h
    rw [UInt32.toNat_add, hhi, show (1 : UInt32).toNat = 1 from rfl]
    omega
  · rename_i h
    rw [hcarry] at h
    rw [hhi]
    omega

theorem keep_eq (ctx : Ctx) {data : Bytes} (h : data.length < 64) :
    ∃ buffer, keep ctx data data.length = .returned { ctx with buffer := buffer } ∧
      buffer.bytes.take data.length = data := by
  have hnil : ∀ buffer : Buffer, buffer.bytes.take ([] : Bytes).length = [] := fun _ => rfl
  obtain ⟨buffer, hcopy, hbuffer⟩ := memcpy_known data data.length (hnil ctx.buffer) (le_refl data.length)
    (by rw [List.length_nil]; omega)
  rw [List.take_length, List.nil_append, List.length_nil, Nat.zero_add] at hbuffer
  exact ⟨buffer, by rw [keep, ← List.length_nil (α := UInt8), hcopy, Outcome.bind_returned], hbuffer⟩

/-- With an empty buffer the blocks of the data are compressed where they are, and its rest is kept. -/
theorem updateBlocks_eq {t : Target} (ctx : Ctx) {data : Bytes} (hlong : data.length < 2 ^ t.longBits) :
    ∃ block buffer, updateBlocks t ctx data data.length =
        .returned { ctx with
          machine := ⟨Blocks.absorb Rfc.compress 64 ctx.machine.regs data, block⟩, buffer := buffer } ∧
      buffer.bytes.take (data.length % 64) = Blocks.rest 64 data := by
  unfold updateBlocks
  split
  · rename_i hfull
    have hlarge := t.large
    have hdiv : data.length / 64 = data.length / 64 - 1 + 1 := by omega
    have hblocks : data.length &&& (2 ^ t.longBits - 64) = (data.length / 64 - 1 + 1) * 64 := by
      rw [← hdiv]
      exact Word.and_upper (k := 6) (by have := t.wide; omega) hlong
    have hrest : data.length &&& 0x3f = data.length % 64 := Nat.and_two_pow_sub_one_eq_mod _ 6
    have hall : (data.length / 64 - 1 + 1) * 64 ≤ data.length := by omega
    obtain ⟨block, hbody⟩ := body_eq (t := t) (k := data.length / 64 - 1) ctx hall (by omega)
    have hlength := Blocks.length_rest (n := 64) data
    obtain ⟨buffer, hkeep, hbuffer⟩ := keep_eq
      { ctx with machine := ⟨Blocks.absorb Rfc.compress 64 ctx.machine.regs data, block⟩ } (hlength.trans_lt (by omega))
    rw [hlength] at hkeep hbuffer
    rw [hblocks, hrest, hbody, Outcome.bind_returned, ← hdiv]
    exact ⟨block, buffer, hkeep, hbuffer⟩
  · rename_i hshort
    obtain ⟨buffer, hkeep, hbuffer⟩ := keep_eq ctx (Nat.lt_of_not_le hshort)
    rw [hkeep, Blocks.absorb_of_lt (by omega), Blocks.rest_of_lt (by omega), Nat.mod_eq_of_lt (by omega)]
    exact ⟨ctx.machine.block, buffer, rfl, hbuffer⟩

/-- The data is taken behind the bytes that are kept. -/
theorem updateBuffer_eq {t : Target} (ctx : Ctx) {kept data : Bytes} (hkept : kept.length < 64)
    (hbuffer : ctx.buffer.bytes.take kept.length = kept) (hlong : data.length < 2 ^ t.longBits) :
    ∃ block buffer, updateBuffer t ctx kept.length data data.length =
        .returned { ctx with
          machine := ⟨Blocks.absorb Rfc.compress 64 ctx.machine.regs (kept ++ data), block⟩, buffer := buffer } ∧
      buffer.bytes.take ((kept ++ data).length % 64) = Blocks.rest 64 (kept ++ data) := by
  unfold updateBuffer
  have hlength : (kept ++ data).length = kept.length + data.length := List.length_append
  by_cases hnil : kept = []
  · rw [if_neg (by simp [hnil]), hnil, List.nil_append]
    exact updateBlocks_eq ctx hlong
  rw [if_pos fun h => hnil (List.eq_nil_of_length_eq_zero h)]
  by_cases hsmall : data.length < 64 - kept.length
  · -- the data does not fill the block
    obtain ⟨buffer, hcopy, hknown⟩ := memcpy_known data data.length hbuffer (le_refl data.length) (by omega)
    rw [List.take_length] at hknown
    refine ⟨ctx.machine.block, buffer, ?_, ?_⟩
    · rw [if_pos hsmall, hcopy, Outcome.bind_returned, Blocks.absorb_of_lt (by omega)]
    · rw [Nat.mod_eq_of_lt (by omega), hlength, hknown, Blocks.rest_of_lt (by omega)]
  · -- the data fills the block, and what stands behind is taken where it is
    obtain ⟨buffer, hcopy, hknown⟩ := memcpy_known data (64 - kept.length) hbuffer (by omega) (by omega)
    have hdrop : (data.drop (64 - kept.length)).length = data.length - (64 - kept.length) := List.length_drop
    rw [Nat.add_sub_cancel' hkept.le] at hknown
    have hsplit : kept ++ data = buffer.bytes ++ data.drop (64 - kept.length) := by
      rw [Buffer.eq_of_take hknown, List.append_assoc, List.take_append_drop]
    have htotal : (buffer.bytes ++ data.drop (64 - kept.length)).length % 64 = (data.drop (64 - kept.length)).length % 64 := by
      rw [List.length_append, buffer.full, Nat.add_mod_left]
    obtain ⟨block, hbody⟩ := body_buffer t ctx buffer
    obtain ⟨block', buffer', hblocks, hrest⟩ := updateBlocks_eq
      { ctx with machine := ⟨Rfc.compress ctx.machine.regs buffer.bytes, block⟩, buffer := buffer }
      (hdrop.trans_lt ((Nat.sub_le _ _).trans_lt hlong))
    refine ⟨block', buffer', ?_, ?_⟩
    · rw [if_neg hsmall, hcopy, Outcome.bind_returned, hbody, Outcome.bind_returned, ← hdrop, hblocks, hsplit,
        Blocks.absorb_block (by decide) buffer.full]
    · rw [hsplit, htotal, Blocks.rest_block (by decide) buffer.full]
      exact hrest

theorem Absorbed.used {ctx : Ctx} {message : Bytes} (h : Absorbed ctx message) :
    (ctx.lo &&& 0x3f).toNat = (Blocks.rest 64 message).length := by
  rw [toNat_and_63, h.lo, Nat.mod_mod_of_dvd _ (by decide), Blocks.length_rest]

/-- An update adds its data to the message, without a read or a write outside of an array. -/
theorem update_absorbed {t : Target} {ctx : Ctx} {message data : Bytes} (h : Absorbed ctx message)
    (hlong : data.length < 2 ^ t.longBits) :
    ∃ ctx', update t ctx data data.length = .returned ctx' ∧ Absorbed ctx' (message ++ data) := by
  have hkept := Blocks.length_rest (n := 64) message
  have hlt : message.length % 64 < 64 := Nat.mod_lt _ (by decide)
  obtain ⟨block, buffer, hupdate, hrest⟩ := updateBuffer_eq (count t ctx data.length)
    (hkept.trans_lt hlt) (by rw [hkept]; exact h.buffer) hlong
  refine ⟨_, by rw [update, h.used]; exact hupdate, ?_, ?_, ?_, ?_⟩
  · have hlo := toNat_lo t ctx.lo data.length
    rw [show (ctx.lo.toNat + data.length) % 2 ^ 29 = (message ++ data).length % 2 ^ 29 by
      rw [h.lo, Nat.mod_add_mod, List.length_append]] at hlo
    exact hlo
  · rw [List.length_append]
    exact toNat_hi t data.length h.lo h.hi
  · show Blocks.absorb Rfc.compress 64 ctx.machine.regs _ = _
    rw [h.regs]
    exact (Blocks.absorb_append (by decide) Rfc.initial message data).symm
  · have htotal : (message ++ data).length % 64 = (Blocks.rest 64 message ++ data).length % 64 := by
      rw [List.length_append, List.length_append, hkept, Nat.mod_add_mod]
    rw [htotal, Blocks.rest_append (by decide)]
    exact hrest

theorem updates_absorbed {t : Target} {ctx : Ctx} {message : Bytes} {pieces : List Bytes} (h : Absorbed ctx message)
    (hlong : ∀ piece ∈ pieces, piece.length < 2 ^ t.longBits) :
    ∃ ctx', updates t ctx pieces = .returned ctx' ∧ Absorbed ctx' (message ++ pieces.flatten) := by
  induction pieces generalizing ctx message with
  | nil => exact ⟨ctx, rfl, by rw [List.flatten_nil, List.append_nil]; exact h⟩
  | cons piece pieces ih =>
    rw [List.forall_mem_cons] at hlong
    obtain ⟨ctx₁, hfirst, habsorbed⟩ := update_absorbed h hlong.1
    obtain ⟨ctx₂, hothers, hall⟩ := ih habsorbed hlong.2
    refine ⟨ctx₂, ?_, ?_⟩
    · rw [updates, hfirst, Outcome.bind_returned, hothers]
    · rw [List.flatten_cons, ← List.append_assoc]
      exact hall

/-! ### The digest -/

theorem out_eq (src : UInt32) : out src = Endian.little 4 src.toNat := by
  have hbyte : ∀ x : UInt32, x.toUInt8 = UInt8.ofNat x.toNat := fun _ => rfl
  have hshift : ∀ k : UInt32, k.toNat < 32 → (src >>> k).toNat = src.toNat / 2 ^ k.toNat := by
    intro k hk
    rw [UInt32.toNat_shiftRight, Nat.mod_eq_of_lt hk, Nat.shiftRight_eq_div_pow]
  have h8 := hshift 8 (by decide)
  have h16 := hshift 16 (by decide)
  have h24 := hshift 24 (by decide)
  rw [out, hbyte, hbyte, hbyte, hbyte, h8, h16, h24]
  simp [Endian.little, Nat.div_div_eq_div_mul]

/-- The number of bits, as the counters of a context have it. -/
theorem Absorbed.bits {ctx : Ctx} {message : Bytes} (h : Absorbed ctx message) :
    out (ctx.lo <<< 3) ++ out ctx.hi = Endian.little 8 (8 * message.length) := by
  have hlo := h.lo
  have hhi := h.hi
  have hshift : (ctx.lo <<< 3).toNat = ctx.lo.toNat * 8 := by
    rw [UInt32.toNat_shiftLeft, Nat.shiftLeft_eq]
    show ctx.lo.toNat * 8 % 2 ^ 32 = _
    omega
  have hvalue : ctx.lo.toNat * 8 + 256 ^ 4 * ctx.hi.toNat = 8 * message.length % 256 ^ 8 := by omega
  rw [out_eq, out_eq, hshift, Endian.little_append (by omega), hvalue, Endian.little_mod]

/-- The block with the number of bits is compressed, and the registers are the digest. -/
theorem finalLength_eq (t : Target) (ctx : Ctx) {known : Bytes} (hknown : ctx.buffer.bytes.take known.length = known)
    (hroom : known.length ≤ 56) :
    finalLength t ctx known.length = .returned (Rfc.encode (Rfc.compress ctx.machine.regs
      (known ++ (List.replicate (56 - known.length) (0 : UInt8) ++ (out (ctx.lo <<< 3) ++ out ctx.hi)))), wiped) := by
  have hzeros : 64 - known.length - 8 = 56 - known.length := by omega
  have hfour : ∀ src, (out src).length = 4 := fun _ => rfl
  have hlength : (known ++ List.replicate (56 - known.length) (0 : UInt8)).length = 56 := by
    rw [List.length_append, List.length_replicate]
    omega
  obtain ⟨buffer₁, hmemset, h₁⟩ := write_known (List.replicate (56 - known.length) (0 : UInt8)) hknown
    (by rw [List.length_replicate]; omega)
  obtain ⟨buffer₂, hlo, h₂⟩ := write_known (out (ctx.lo <<< 3)) h₁ (by rw [hlength, hfour]; decide)
  obtain ⟨buffer₃, hhi, h₃⟩ := write_known (out ctx.hi) h₂
    (by rw [List.length_append, hlength, hfour, hfour])
  rw [List.length_append, hlength, hfour] at hhi
  rw [List.length_append, List.length_append, hlength, hfour, hfour] at h₃
  rw [hlength] at hlo
  have hblock := Buffer.eq_of_take h₃
  rw [List.append_assoc, List.append_assoc] at hblock
  obtain ⟨block, hbody⟩ := body_buffer t { ctx with lo := ctx.lo <<< 3 } buffer₃
  simp only [finalLength, Buffer.memset, hzeros]
  rw [hmemset, Outcome.bind_returned, hlo, Outcome.bind_returned, hhi, Outcome.bind_returned, hbody, Outcome.bind_returned,
    ← hblock]
  simp only [out_eq, Rfc.encode]

/-- There is room for the number of bits in the block. -/
theorem padding_short {length : Nat} (h : length % 64 < 56) :
    Rfc.padding length =
      [0x80] ++ (List.replicate (56 - (length % 64 + 1)) 0 ++ Endian.little 8 (8 * length)) := by
  have hfill : Blocks.fill 64 (length + 9) = 56 - (length % 64 + 1) := by
    unfold Blocks.fill
    omega
  rw [Rfc.padding, hfill, List.singleton_append]

/-- The number of bits stands in a block of its own. -/
theorem padding_long {length : Nat} (h : 56 ≤ length % 64) :
    Rfc.padding length =
      [0x80] ++ (List.replicate (64 - (length % 64 + 1)) 0 ++ (List.replicate 56 0 ++ Endian.little 8 (8 * length))) := by
  have hfill : Blocks.fill 64 (length + 9) = 64 - (length % 64 + 1) + 56 := by
    unfold Blocks.fill
    omega
  rw [Rfc.padding, hfill, List.replicate_add, List.append_assoc, List.singleton_append]

/-- The digest of what a context stands for. -/
theorem final_absorbed (t : Target) {ctx : Ctx} {message : Bytes} (h : Absorbed ctx message) :
    final t ctx = .returned (Rfc.digest message, wiped) := by
  have hkept := Blocks.length_rest (n := 64) message
  have hlt : message.length % 64 < 64 := Nat.mod_lt _ (by decide)
  have hdigest : Rfc.digest message =
      Rfc.encode (Blocks.absorb Rfc.compress 64 ctx.machine.regs (Blocks.rest 64 message ++ Rfc.padding message.length)) := by
    rw [Rfc.digest, h.regs, Blocks.absorb_append (by decide)]
  have hbuffer : ctx.buffer.bytes.take (Blocks.rest 64 message).length = Blocks.rest 64 message := by
    rw [hkept]
    exact h.buffer
  obtain ⟨buffer, hwrite, hknown⟩ := write_known [0x80] hbuffer
    (by rw [hkept, List.length_singleton]; omega)
  have hone : (Blocks.rest 64 message ++ [(0x80 : UInt8)]).length = message.length % 64 + 1 := by
    rw [List.length_append, hkept, List.length_singleton]
  have hbits : (out (ctx.lo <<< 3) ++ out ctx.hi).length = 8 := rfl
  rw [hkept] at hwrite
  simp only [final, h.used, hkept, hwrite, Outcome.bind_returned]
  by_cases hfull : message.length % 64 < 56
  · have hlast := finalLength_eq t { ctx with buffer := buffer } hknown (by omega)
    rw [hone] at hlast
    have hend : (Blocks.rest 64 message ++ [(0x80 : UInt8)] ++
        (List.replicate (56 - (message.length % 64 + 1)) (0 : UInt8) ++ (out (ctx.lo <<< 3) ++ out ctx.hi))).length = 64 := by
      rw [List.length_append, hone, List.length_append, hbits, List.length_replicate]
      omega
    have hmessage : Blocks.rest 64 message ++ Rfc.padding message.length = Blocks.rest 64 message ++ [(0x80 : UInt8)] ++
        (List.replicate (56 - (message.length % 64 + 1)) (0 : UInt8) ++ (out (ctx.lo <<< 3) ++ out ctx.hi)) := by
      rw [padding_short hfull, ← h.bits, ← List.append_assoc]
    rw [if_neg (by omega), hlast, hdigest, hmessage, Blocks.absorb_one (by decide) hend]
  · obtain ⟨buffer', hzeros, hknown'⟩ := write_known
      (List.replicate (64 - (message.length % 64 + 1)) 0) hknown (by rw [hone, List.length_replicate]; omega)
    rw [List.length_append, hone, List.length_replicate, Nat.add_sub_cancel' (by omega)] at hknown'
    rw [hone] at hzeros
    obtain ⟨block, hbody⟩ := body_buffer t ctx buffer'
    have hempty : buffer'.bytes.take ([] : Bytes).length = [] := rfl
    have hlast := finalLength_eq t { ctx with
      machine := ⟨Rfc.compress ctx.machine.regs buffer'.bytes, block⟩, buffer := buffer' } hempty (by decide)
    rw [List.length_nil, List.nil_append] at hlast
    have hend : (List.replicate 56 (0 : UInt8) ++ (out (ctx.lo <<< 3) ++ out ctx.hi)).length = 64 := by
      rw [List.length_append, hbits, List.length_replicate]
    have hmessage : Blocks.rest 64 message ++ Rfc.padding message.length =
        buffer'.bytes ++ (List.replicate 56 (0 : UInt8) ++ (out (ctx.lo <<< 3) ++ out ctx.hi)) := by
      rw [padding_long (by omega), ← h.bits, Buffer.eq_of_take hknown', List.append_assoc, List.append_assoc]
    rw [if_pos (by omega), Buffer.memset, hzeros, Outcome.bind_returned, hbody, Outcome.bind_returned, hlast, hdigest,
      hmessage, Blocks.absorb_block (by decide) buffer'.full, Blocks.absorb_one (by decide) hend]

/-- `MD5_Init`, a number of updates, and `MD5_Final`. -/
def run (t : Target) (ctx : Ctx) (pieces : List Bytes) : Outcome (Bytes × Ctx) :=
  (updates t (init ctx) pieces).bind fun ctx => final t ctx

/-- Whatever the context held before, on every target the digest is the one of RFC 1321, wherever the message is cut. -/
theorem digest_updates (t : Target) (ctx : Ctx) (pieces : List Bytes)
    (hlong : ∀ piece ∈ pieces, piece.length < 2 ^ t.longBits) :
    run t ctx pieces = .returned (Rfc.digest pieces.flatten, wiped) := by
  obtain ⟨ctx', hupdates, habsorbed⟩ := updates_absorbed (init_absorbed ctx) hlong
  rw [List.nil_append] at habsorbed
  rw [run, hupdates, Outcome.bind_returned, final_absorbed t habsorbed]

theorem digest_updates_abc :
    run ⟨64, true, by decide⟩ wiped [ascii "a", [], ascii "bc"] = .returned (Rfc.digest (ascii "abc"), wiped) :=
  digest_updates ⟨64, true, by decide⟩ wiped [ascii "a", [], ascii "bc"] (by decide)

end IopHal.Md5
