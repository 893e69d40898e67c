import Mathlib

/-!
# Lines of a fixed width

`wrap` cuts a text into lines of `n` cells, of which only the last one may be shorter.  The text is what the lines make up
(`flatten_wrap`).
-/

namespace Lines

variable {α : Type*} {n : ℕ}

/-- The lines of a text behind the beginning of its first line. -/
def wrapFrom (n : ℕ) : List α → List α → List (List α)
  | current, [] => if current.isEmpty then [] else [current]
  | current, a :: l =>
    if current.length + 1 = n then (current ++ [a]) :: wrapFrom n [] l else wrapFrom n (current ++ [a]) l

def wrap (n : ℕ) (l : List α) : List (List α) := wrapFrom n [] l

theorem flatten_wrapFrom (current l : List α) : (wrapFrom n current l).flatten = current ++ l := by
  induction l generalizing current with
  | nil => cases current <;> simp [wrapFrom]
  | cons a l ih =>
    rw [wrapFrom]
    split
    · rw [List.flatten_cons, ih, List.nil_append, List.append_assoc, List.singleton_append]
    · rw [ih, List.append_assoc, List.singleton_append]

theorem flatten_wrap (l : List α) : (wrap n l).flatten = l := by
  rw [wrap, flatten_wrapFrom, List.nil_append]

theorem mem_of_mem_wrap {l line : List α} {a : α} (hline : line ∈ wrap n l) (ha : a ∈ line) : a ∈ l := by
  rw [← flatten_wrap (n := n) l]
  exact List.mem_flatten_of_mem hline ha

example : wrap 3 [1, 2, 3, 4, 5, 6, 7] = [[1, 2, 3], [4, 5, 6], [7]] := by decide

end Lines
