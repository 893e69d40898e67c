import Mathlib

/-!
# Memories and what was written to them

A memory is a list of cells.  `patch` overwrites a block of it, and a log of such writes, the last one first, says what
each cell holds: the last value written there (`lastWritten`), or the initial one.  `getElem?_replay` is the simulation:
carrying out the writes gives that memory, as long as every block is inside of it.
-/

namespace Patch

variable {α : Type*}

/-- The memory `mem` with the cells from `start` on overwritten by `block`. -/
def patch (mem : List α) (start : ℕ) (block : List α) : List α :=
  mem.take start ++ (block ++ mem.drop (start + block.length))

/-- The place `i` is one of `length` places from `start` on. -/
def Covers (start length i : ℕ) : Prop := start ≤ i ∧ i < start + length

instance (start length i : ℕ) : Decidable (Covers start length i) :=
  inferInstanceAs (Decidable (start ≤ i ∧ i < start + length))

theorem covers_iff {start length i : ℕ} : Covers start length i ↔ start ≤ i ∧ i < start + length := Iff.rfl

/-- What the place `i` holds behind the writes of a log, the last one first. -/
def lastWritten (initial : List α) : List (ℕ × List α) → ℕ → Option α
  | [], i => initial[i]?
  | (start, block) :: older, i =>
    if Covers start block.length i then block[i - start]? else lastWritten initial older i

/-- The writes of a log carried out, the last one of the list first. -/
def replay (initial : List α) (log : List (ℕ × List α)) : List α :=
  log.foldr (fun write mem => patch mem write.1 write.2) initial

theorem length_patch {mem block : List α} {start : ℕ} (h : start + block.length ≤ mem.length) :
    (patch mem start block).length = mem.length := by
  rw [patch, List.length_append, List.length_append, List.length_take, List.length_drop]
  omega

theorem getElem?_patch {mem block : List α} {start : ℕ} (h : start + block.length ≤ mem.length) (i : ℕ) :
    (patch mem start block)[i]? = if Covers start block.length i then block[i - start]? else mem[i]? := by
  have htake : (mem.take start).length = start := List.length_take_of_le (by omega)
  unfold patch
  by_cases hleft : i < start
  · rw [if_neg (by rw [covers_iff]; omega), List.getElem?_append_left (by omega), List.getElem?_take_of_lt hleft]
  · rw [List.getElem?_append_right (by omega), htake]
    by_cases hright : i < start + block.length
    · rw [if_pos (by rw [covers_iff]; omega), List.getElem?_append_left (by omega)]
    · rw [if_neg (by rw [covers_iff]; omega), List.getElem?_append_right (by omega), List.getElem?_drop]
      congr 1
      omega

/-- Overwriting one cell. -/
theorem set_eq_patch {mem : List α} {i : ℕ} (h : i < mem.length) (v : α) : mem.set i v = patch mem i [v] := by
  rw [List.set_eq_take_append_cons_drop, if_pos h]
  rfl

/-- A memory may be overwritten from its start on. -/
theorem patch_zero (mem block : List α) : patch mem 0 block = block ++ mem.drop block.length := by
  rw [patch, List.take_zero, List.nil_append, Nat.zero_add]

theorem length_replay {initial : List α} {log : List (ℕ × List α)}
    (h : ∀ write ∈ log, write.1 + write.2.length ≤ initial.length) : (replay initial log).length = initial.length := by
  induction log with
  | nil => rfl
  | cons write log ih =>
    rw [List.forall_mem_cons] at h
    have hlength := ih h.2
    show (patch (replay initial log) write.1 write.2).length = initial.length
    rw [length_patch (by rw [hlength]; exact h.1), hlength]

theorem getElem?_replay {initial : List α} {log : List (ℕ × List α)}
    (h : ∀ write ∈ log, write.1 + write.2.length ≤ initial.length) (i : ℕ) :
    (replay initial log)[i]? = lastWritten initial log i := by
  induction log with
  | nil => rfl
  | cons write log ih =>
    rw [List.forall_mem_cons] at h
    show (patch (replay initial log) write.1 write.2)[i]? = lastWritten initial (write :: log) i
    rw [getElem?_patch (by rw [length_replay h.2]; exact h.1), ih h.2]
    rfl

/-! ### Terminated texts -/

/-- Texts written one behind the other, the first one first.  Each has a terminator, which the next one overwrites. -/
def chain (z : α) : ℕ → List (List α) → List (ℕ × List α)
  | _, [] => []
  | start, text :: texts => (start, text ++ [z]) :: chain z (start + text.length) texts

/-- The last terminator is behind all of the texts, and is the last cell that is written. -/
theorem chain_end (z : α) (start : ℕ) {texts : List (List α)} (h : texts ≠ []) :
    (∀ write ∈ chain z start texts, write.1 + write.2.length ≤ start + texts.flatten.length + 1) ∧
      ∃ write ∈ chain z start texts, write.1 + write.2.length = start + texts.flatten.length + 1 := by
  induction texts generalizing start with
  | nil => contradiction
  | cons text texts ih =>
    by_cases hlast : texts = []
    · subst hlast
      simp [chain, Nat.add_assoc]
    · obtain ⟨hall, write, hmem, hwrite⟩ := ih (start + text.length) hlast
      simp only [chain, List.flatten_cons, List.length_append, List.forall_mem_cons, List.length_cons, List.length_nil]
      refine ⟨⟨by omega, fun w hw => ?_⟩, write, List.mem_cons_of_mem _ hmem, by omega⟩
      have := hall w hw
      omega

/-- Behind the texts stands one terminator. -/
theorem replay_chain (z : α) {mem : List α} {start : ℕ} {texts : List (List α)} (h : texts ≠ [])
    (hstart : start ≤ mem.length) :
    replay mem (chain z start texts).reverse =
      mem.take start ++ (texts.flatten ++ z :: mem.drop (start + texts.flatten.length + 1)) := by
  induction texts generalizing mem start with
  | nil => contradiction
  | cons text texts ih =>
    have hfirst : replay mem (chain z start (text :: texts)).reverse =
        replay (patch mem start (text ++ [z])) (chain z (start + text.length) texts).reverse := by
      simp [replay, chain]
    have hpatch : patch mem start (text ++ [z]) =
        (mem.take start ++ text) ++ z :: mem.drop (start + text.length + 1) := by
      simp [patch, Nat.add_assoc]
    have hlength : (mem.take start ++ text).length = start + text.length := by
      simp [hstart]
    rw [hfirst, hpatch]
    by_cases hlast : texts = []
    · subst hlast
      simp [replay, chain]
    · rw [ih hlast (by simp [hstart]), ← hlength, List.take_left, hlength, Nat.add_assoc, ← hlength,
        List.drop_length_add_append, hlength]
      have hbehind : mem.drop (start + text.length + 1 + texts.flatten.length) =
          mem.drop (start + (text :: texts).flatten.length + 1) := by
        congr 1
        simp
        omega
      rw [List.drop_succ_cons, List.drop_drop, hbehind, List.flatten_cons, List.append_assoc, List.append_assoc]

/-- Cells that are read in a row. -/
theorem getElem?_take_drop (mem : List α) {start length i : ℕ} (h : i < length) :
    ((mem.drop start).take length)[i]? = mem[start + i]? := by
  rw [List.getElem?_take_of_lt h, List.getElem?_drop]

end Patch
