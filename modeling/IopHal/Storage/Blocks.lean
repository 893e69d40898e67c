import IopHal.Storage

/-!
# Blocks and bytes

`read<SIZE>` and `write<SIZE>` test the whole block at once, with a comparison of their own.  `block_agrees_iff` says where
they succeed as `get` and `set` do on the bytes of the block: everywhere but on the block that ends with the storage.
-/

namespace IopHal

namespace Storage

/-- `get` succeeds on every byte of the block; none of the addresses wraps. -/
def GetsAll (s : Storage) (SIZE address : UInt64) : Prop :=
  ∀ i < SIZE.toNat, ∃ b : UInt64, b.toNat = address.toNat + i ∧ ∃ val, s.get b = .returned (some val)

/-- `set` succeeds on every byte of the block. -/
def SetsAll (s : Storage) (SIZE address : UInt64) : Prop :=
  ∀ i < SIZE.toNat, ∃ b : UInt64, b.toNat = address.toNat + i ∧ ∀ val, ∃ t, s.set b val = .returned (true, t)

/-- `read<SIZE>` and `write<SIZE>` go together with `get` and `set`. -/
structure BlockAgrees (s : Storage) (SIZE address : UInt64) : Prop where
  gets : s.GetsAll SIZE address ↔ address.toNat + SIZE.toNat ≤ s.size.toNat
  sets : s.SetsAll SIZE address ↔ address.toNat + SIZE.toNat ≤ s.size.toNat
  reads : (∃ bs, s.read SIZE address = .returned (some bs)) ↔ s.GetsAll SIZE address
  writes : ∀ array, (∃ t, s.write SIZE address array = .returned (true, t)) ↔ s.SetsAll SIZE address
  bytes : ∀ bs, s.read SIZE address = .returned (some bs) → bs.length = SIZE.toNat ∧
    ∀ i < SIZE.toNat, ∃ b : UInt64, b.toNat = address.toNat + i ∧ s.get b = .returned bs[i]?

variable {s : Storage} {SIZE address : UInt64}

theorem get_succeeds_iff (hs : s.Sound) (b : UInt64) :
    (∃ val, s.get b = .returned (some val)) ↔ b.toNat < s.size.toNat := by
  rw [get_eq hs, hs]
  simp [List.getElem?_eq_some_iff]

theorem set_succeeds_iff (hs : s.Sound) (b : UInt64) :
    (∀ val, ∃ t, s.set b val = .returned (true, t)) ↔ b.toNat < s.size.toNat := by
  constructor
  · intro h
    by_contra hout
    obtain ⟨t, ht⟩ := h 0
    rw [set, if_pos (UInt64.le_iff_toNat_le.2 (Nat.le_of_not_lt hout))] at ht
    cases ht
  · intro hin val
    have hbytes : b.toNat < s.bytes.length := by
      rw [← hs]
      exact hin
    rw [set, if_neg (not_ge_iff_toNat_lt.2 hin), asRef_of_lt hbytes, Outcome.bind_returned, if_pos hbytes]
    exact ⟨_, rfl⟩

/-- The bytes of a block lie inside if the last one does. -/
theorem forall_address_iff (hSIZE : SIZE ≠ 0) {P : UInt64 → Prop} {size : UInt64}
    (hP : ∀ b, P b ↔ b.toNat < size.toNat) :
    (∀ i < SIZE.toNat, ∃ b : UInt64, b.toNat = address.toNat + i ∧ P b) ↔ address.toNat + SIZE.toNat ≤ size.toNat := by
  have hpos : 0 < SIZE.toNat := by
    rw [Nat.pos_iff_ne_zero]
    intro hzero
    exact hSIZE (UInt64.toNat_inj.1 hzero)
  constructor
  · intro h
    obtain ⟨b, hb, hin⟩ := h (SIZE.toNat - 1) (by omega)
    rw [hP, hb] at hin
    omega
  · intro h i hi
    have hlt : address.toNat + i < 2 ^ 64 := by
      have := size.toNat_lt
      omega
    refine ⟨UInt64.ofNat (address.toNat + i), UInt64.toNat_ofNat_of_lt' hlt, ?_⟩
    rw [hP, UInt64.toNat_ofNat_of_lt' hlt]
    omega

theorem getsAll_iff (hs : s.Sound) (hSIZE : SIZE ≠ 0) :
    s.GetsAll SIZE address ↔ address.toNat + SIZE.toNat ≤ s.size.toNat :=
  forall_address_iff hSIZE (get_succeeds_iff hs)

theorem setsAll_iff (hs : s.Sound) (hSIZE : SIZE ≠ 0) :
    s.SetsAll SIZE address ↔ address.toNat + SIZE.toNat ≤ s.size.toNat :=
  forall_address_iff hSIZE (set_succeeds_iff hs)

/-- The bounds test of a block asks for a byte behind it. -/
theorem block_fits_iff (s : Storage) (SIZE address : UInt64) :
    ¬ (s.size < SIZE ∨ address ≥ s.size - SIZE) ↔ address.toNat + SIZE.toNat < s.size.toNat := by
  refine ⟨block_fits, fun h => ?_⟩
  have hsize : SIZE.toNat ≤ s.size.toNat := by omega
  rw [not_or, not_ge_iff_toNat_lt, UInt64.toNat_sub_of_le _ _ (UInt64.le_iff_toNat_le.2 hsize), UInt64.lt_iff_toNat_lt]
  omega

theorem read_succeeds_iff (hs : s.Sound) :
    (∃ bs, s.read SIZE address = .returned (some bs)) ↔ address.toNat + SIZE.toNat < s.size.toNat := by
  rw [← block_fits_iff]
  constructor
  · rintro ⟨bs, hbs⟩ hout
    rw [read, if_pos hout] at hbs
    cases hbs
  · intro hin
    have hfits := block_inside hs hin
    have hstart : address.toNat < s.bytes.length := by omega
    rw [read, if_neg hin, asRef_of_lt hstart, Outcome.bind_returned, if_pos hfits.le]
    exact ⟨_, rfl⟩

theorem write_succeeds_iff (hs : s.Sound) (array : Vector UInt8 SIZE.toNat) :
    (∃ t, s.write SIZE address array = .returned (true, t)) ↔ address.toNat + SIZE.toNat < s.size.toNat := by
  rw [← block_fits_iff]
  constructor
  · rintro ⟨t, ht⟩ hout
    rw [write, if_pos hout] at ht
    cases ht
  · intro hin
    have hfits := block_inside hs hin
    have hstart : address.toNat < s.bytes.length := by omega
    rw [write, if_neg hin, asRef_of_lt hstart, Outcome.bind_returned, if_pos hfits.le]
    exact ⟨_, rfl⟩

/-- What `read` returns is what `get` returns byte by byte. -/
theorem read_bytes (hs : s.Sound) {bs : Bytes} (h : s.read SIZE address = .returned (some bs)) :
    bs.length = SIZE.toNat ∧
      ∀ i < SIZE.toNat, ∃ b : UInt64, b.toNat = address.toNat + i ∧ s.get b = .returned bs[i]? := by
  rcases read_cases hs SIZE address with hnone | ⟨hin, hsome⟩
  · rw [h] at hnone
    cases hnone
  · rw [h] at hsome
    cases hsome
    refine ⟨?_, fun i hi => ?_⟩
    · rw [List.length_take, List.length_drop]
      omega
    · have hlt : address.toNat + i < 2 ^ 64 := by
        have hmax := s.size.toNat_lt
        rw [hs] at hmax
        omega
      refine ⟨UInt64.ofNat (address.toNat + i), UInt64.toNat_ofNat_of_lt' hlt, ?_⟩
      rw [get_eq hs, UInt64.toNat_ofNat_of_lt' hlt, Patch.getElem?_take_drop _ hi]

/-- Blocks and bytes agree exactly where the block does not end with the storage.  There, every byte can be got and set,
but the block can neither be read nor written. -/
theorem block_agrees_iff (hs : s.Sound) (hSIZE : SIZE ≠ 0) :
    s.BlockAgrees SIZE address ↔ address.toNat + SIZE.toNat ≠ s.size.toNat := by
  constructor
  · intro h hend
    have hin := (read_succeeds_iff hs).1 (h.reads.2 (h.gets.2 hend.le))
    omega
  · intro hne
    have hgets : s.GetsAll SIZE address ↔ _ := getsAll_iff hs hSIZE
    have hsets : s.SetsAll SIZE address ↔ _ := setsAll_iff hs hSIZE
    refine ⟨hgets, hsets, ?_, fun array => ?_, fun bs => read_bytes hs⟩
    · rw [hgets, read_succeeds_iff hs]
      omega
    · rw [hsets, write_succeeds_iff hs]
      omega

/-- The first two of four bytes. -/
theorem block_agrees_first : Storage.BlockAgrees ⟨4, some [7, 8, 9, 10]⟩ 2 0 := by
  have hsound : Storage.Sound ⟨4, some [7, 8, 9, 10]⟩ := rfl
  exact (block_agrees_iff hsound (by decide)).2 (by decide)

/-- The last two of four bytes can be got one by one, and not be read at once. -/
theorem block_at_end :
    (∃ val, Storage.get ⟨4, some [7, 8, 9, 10]⟩ 2 = .returned (some val)) ∧
      (∃ val, Storage.get ⟨4, some [7, 8, 9, 10]⟩ 3 = .returned (some val)) ∧
      Storage.read ⟨4, some [7, 8, 9, 10]⟩ 2 2 = .returned none ∧
      ¬ Storage.BlockAgrees ⟨4, some [7, 8, 9, 10]⟩ 2 2 := by
  have hread : Storage.read ⟨4, some [7, 8, 9, 10]⟩ 2 2 = .returned none := by decide
  refine ⟨⟨9, by decide⟩, ⟨10, by decide⟩, hread, fun h => ?_⟩
  have hgets : Storage.GetsAll ⟨4, some [7, 8, 9, 10]⟩ 2 2 := h.gets.2 (by decide)
  obtain ⟨bs, hbs⟩ := h.reads.2 hgets
  rw [hread] at hbs
  cases hbs

end Storage

end IopHal
