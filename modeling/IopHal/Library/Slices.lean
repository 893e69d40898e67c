import Mathlib

/-!
# Slices of a memory

A memory gives every address a cell.  Slices that lie next to each other make up the slice from the start of the first one to
the end of the last one (`Adjoin.flatten_eq`).
-/

namespace Slices

variable {α : Type*}

/-- `length` cells of a memory from `start` on. -/
def slice (memory : ℕ → α) (start length : ℕ) : List α := (List.range length).map fun i => memory (start + i)

theorem length_slice (memory : ℕ → α) (start length : ℕ) : (slice memory start length).length = length := by
  simp [slice]

theorem slice_add (memory : ℕ → α) (start m n : ℕ) :
    slice memory start (m + n) = slice memory start m ++ slice memory (start + m) n := by
  simp [slice, List.range_add, Nat.add_assoc]

theorem take_slice (memory : ℕ → α) (start : ℕ) {m n : ℕ} (h : m ≤ n) :
    (slice memory start n).take m = slice memory start m := by
  obtain ⟨k, rfl⟩ := Nat.exists_eq_add_of_le h
  rw [slice_add]
  exact List.take_left' (length_slice memory start m)

/-- Ranges of addresses, each a start and a length, that lie next to each other from `start` to `stop`. -/
inductive Adjoin : ℕ → List (ℕ × ℕ) → ℕ → Prop
  | nil (stop : ℕ) : Adjoin stop [] stop
  | cons {start length stop : ℕ} {ranges : List (ℕ × ℕ)} (h : Adjoin (start + length) ranges stop) :
      Adjoin start ((start, length) :: ranges) stop

/-- The slices of such ranges, one behind the other. -/
theorem Adjoin.flatten_eq {start stop : ℕ} {ranges : List (ℕ × ℕ)} (h : Adjoin start ranges stop) (memory : ℕ → α) :
    start ≤ stop ∧ (ranges.map fun r => slice memory r.1 r.2).flatten = slice memory start (stop - start) := by
  induction h with
  | nil stop => simp [slice]
  | @cons start length stop ranges _ ih =>
    obtain ⟨hle, hrest⟩ := ih
    refine ⟨by omega, ?_⟩
    have hsum : stop - start = length + (stop - (start + length)) := by omega
    rw [List.map_cons, List.flatten_cons, hrest, hsum, slice_add]

end Slices
