import Mathlib

/-!
# Streams that are taken in blocks

A machine takes its input in blocks of `n` cells.  `absorb` runs it over all the blocks that a stream fills, and `rest` is
the beginning of a block behind them.  A stream may be cut anywhere: the second part is taken behind the rest of the first one
(`absorb_append`, `rest_append`).
-/

namespace Blocks

variable {α σ : Type*}

/-- A machine over the first blocks of a stream. -/
def blocks (f : σ → List α → σ) (n : ℕ) : ℕ → σ → List α → σ
  | 0, s, _ => s
  | k + 1, s, data => blocks f n k (f s (data.take n)) (data.drop n)

/-- A machine over all the blocks that a stream fills. -/
def absorb (f : σ → List α → σ) (n : ℕ) (s : σ) (data : List α) : σ := blocks f n (data.length / n) s data

/-- The beginning of a block behind them. -/
def rest (n : ℕ) (data : List α) : List α := data.drop (data.length / n * n)

/-- How many cells there are to add until a number of cells is a number of blocks. -/
def fill (n k : ℕ) : ℕ := (n - k % n) % n

variable {f : σ → List α → σ} {n : ℕ}

/-! ### A number of blocks -/

theorem blocks_succ (k : ℕ) (s : σ) (data : List α) :
    blocks f n (k + 1) s data = blocks f n k (f s (data.take n)) (data.drop n) := rfl

theorem blocks_add (j k : ℕ) (s : σ) (data : List α) :
    blocks f n (j + k) s data = blocks f n k (blocks f n j s data) (data.drop (j * n)) := by
  induction j generalizing s data with
  | zero => rw [Nat.zero_add, Nat.zero_mul, List.drop_zero, blocks]
  | succ j ih =>
    rw [Nat.add_right_comm, blocks, blocks, ih, List.drop_drop, Nat.succ_mul, Nat.add_comm n]

/-- What stands behind the blocks does not matter. -/
theorem blocks_append {k : ℕ} {x : List α} (h : k * n ≤ x.length) (s : σ) (y : List α) :
    blocks f n k s (x ++ y) = blocks f n k s x := by
  induction k generalizing s x with
  | zero => rfl
  | succ k ih =>
    rw [Nat.succ_mul] at h
    have hdrop : k * n ≤ (x.drop n).length := by
      rw [List.length_drop]
      omega
    rw [blocks, blocks, List.take_append_of_le_length (by omega), List.drop_append_of_le_length (by omega), ih hdrop]

/-! ### All the blocks -/

theorem length_rest (data : List α) : (rest n data).length = data.length % n := by
  have hsplit := Nat.div_add_mod' data.length n
  rw [rest, List.length_drop]
  omega

theorem absorb_of_lt {data : List α} (h : data.length < n) (s : σ) : absorb f n s data = s := by
  rw [absorb, Nat.div_eq_of_lt h, blocks]

theorem rest_of_lt {data : List α} (h : data.length < n) : rest n data = data := by
  rw [rest, Nat.div_eq_of_lt h, Nat.zero_mul, List.drop_zero]

/-- A number of blocks and what stands behind them. -/
theorem absorb_append_of_length {k : ℕ} {x : List α} (hn : 0 < n) (h : x.length = k * n) (s : σ) (y : List α) :
    absorb f n s (x ++ y) = absorb f n (blocks f n k s x) y := by
  have hcount : (x ++ y).length / n = k + y.length / n := by
    rw [List.length_append, h, Nat.add_comm, Nat.add_mul_div_right _ _ hn, Nat.add_comm]
  rw [absorb, hcount, blocks_add, blocks_append h.ge, ← h, List.drop_left, absorb]

theorem rest_append_of_length {k : ℕ} {x : List α} (hn : 0 < n) (h : x.length = k * n) (y : List α) :
    rest n (x ++ y) = rest n y := by
  have hcount : (x ++ y).length / n = k + y.length / n := by
    rw [List.length_append, h, Nat.add_comm, Nat.add_mul_div_right _ _ hn, Nat.add_comm]
  rw [rest, hcount, Nat.add_mul, ← h, List.drop_length_add_append, rest]

/-- One block and what stands behind it. -/
theorem absorb_block {x : List α} (hn : 0 < n) (h : x.length = n) (s : σ) (y : List α) :
    absorb f n s (x ++ y) = absorb f n (f s x) y := by
  rw [absorb_append_of_length hn (k := 1) (by omega), blocks, blocks, ← h, List.take_length]

theorem absorb_one {x : List α} (hn : 0 < n) (h : x.length = n) (s : σ) : absorb f n s x = f s x := by
  rw [← List.append_nil x, absorb_block hn h, absorb_of_lt (by rw [List.length_nil]; exact hn), List.append_nil]

theorem rest_block {x : List α} (hn : 0 < n) (h : x.length = n) (y : List α) : rest n (x ++ y) = rest n y :=
  rest_append_of_length hn (k := 1) (by omega) y

/-- The blocks of a stream are followed by its rest. -/
theorem take_append_rest (data : List α) : data.take (data.length / n * n) ++ rest n data = data :=
  List.take_append_drop _ _

theorem length_take_blocks (data : List α) : (data.take (data.length / n * n)).length = data.length / n * n :=
  List.length_take_of_le (Nat.div_mul_le_self _ _)

/-! ### Pieces -/

theorem absorb_append (hn : 0 < n) (s : σ) (x y : List α) :
    absorb f n s (x ++ y) = absorb f n (absorb f n s x) (rest n x ++ y) := by
  have hblocks : blocks f n (x.length / n) s (x.take (x.length / n * n)) = absorb f n s x := by
    rw [absorb, ← blocks_append (length_take_blocks x).ge s (rest n x), take_append_rest]
  conv_lhs => rw [← take_append_rest (n := n) x, List.append_assoc]
  rw [absorb_append_of_length hn (length_take_blocks x), hblocks]

theorem rest_append (hn : 0 < n) (x y : List α) : rest n (x ++ y) = rest n (rest n x ++ y) := by
  conv_lhs => rw [← take_append_rest (n := n) x, List.append_assoc]
  rw [rest_append_of_length hn (length_take_blocks x)]

end Blocks
