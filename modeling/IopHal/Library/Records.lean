import IopHal.Library.Endian

/-!
# Records one behind the other

A reader takes a value from the front of a text and returns it with what is behind.  Records that carry their lengths are read
whatever is behind them (`cells_append`, `number_big`), so they are read one after the other (`many_flatMap`).
-/

namespace Records

variable {α β : Type*}

/-- A value from the front of a text, and what is behind it. -/
abbrev Reader (α β : Type*) := List α → Option (β × List α)

/-- The value is read back where it was written, whatever is behind it. -/
def Reads (read : Reader α β) (write : β → List α) (b : β) : Prop := ∀ rest, read (write b ++ rest) = some (b, rest)

/-- That many cells. -/
def cells (count : ℕ) : Reader α (List α) := fun s => if s.length < count then none else some (s.take count, s.drop count)

/-- A number, the lowest byte last. -/
def number (count : ℕ) : Reader UInt8 ℕ := fun s => do
  let (bytes, s) ← cells count s
  return (Endian.value bytes.reverse, s)

/-- That many values. -/
def many (read : Reader α β) : ℕ → Reader α (List β)
  | 0, s => some ([], s)
  | n + 1, s => do
    let (b, s) ← read s
    let (bs, s) ← many read n s
    return (b :: bs, s)

theorem cells_append (l rest : List α) : cells l.length (l ++ rest) = some (l, rest) := by
  rw [cells, if_neg (by simp), List.take_left, List.drop_left]

theorem number_big {count n : ℕ} (h : n < 256 ^ count) (rest : List UInt8) :
    number count (Endian.big count n ++ rest) = some (n, rest) := by
  have hcells := cells_append (Endian.big count n) rest
  rw [Endian.length_big] at hcells
  rw [number, hcells]
  show some (Endian.value (Endian.big count n).reverse, rest) = _
  rw [Endian.value_big h]

theorem many_flatMap {read : Reader α β} {write : β → List α} {bs : List β} (h : ∀ b ∈ bs, Reads read write b)
    (rest : List α) : many read bs.length (bs.flatMap write ++ rest) = some (bs, rest) := by
  induction bs with
  | nil => rfl
  | cons b bs ih =>
    obtain ⟨hb, hbs⟩ := List.forall_mem_cons.1 h
    rw [List.length_cons, many, List.flatMap_cons, List.append_assoc, hb, Option.bind_eq_bind, Option.bind_some]
    dsimp only
    rw [ih hbs]
    rfl

example : many (number 2) 2 [1, 0, 0, 255, 7] = some ([256, 255], [7]) := by decide

end Records
