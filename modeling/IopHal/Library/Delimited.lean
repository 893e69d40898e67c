import Mathlib

/-!
# Blocks between marks

`blocks` finds what stands between a first and a last mark.  A block is as long as the last mark has not come, so it may have
first marks in it, and one that does not end is none.
-/

namespace Delimited

variable {α β : Type*} [DecidableEq α] [DecidableEq β] {first last : α}

/-- The blocks, inside of one if the beginning of it is given. -/
def blocksFrom (first last : α) : Option (List α) → List α → List (List α)
  | _, [] => []
  | none, a :: l => if a = first then blocksFrom first last (some []) l else blocksFrom first last none l
  | some body, a :: l =>
    if a = last then body :: blocksFrom first last none l else blocksFrom first last (some (body ++ [a])) l

def blocks (first last : α) (l : List α) : List (List α) := blocksFrom first last none l

theorem blocks_outside {a : α} (h : a ≠ first) (l : List α) : blocks first last (a :: l) = blocks first last l :=
  if_neg h

theorem blocks_skip {skipped : List α} (h : ∀ a ∈ skipped, a ≠ first) (l : List α) :
    blocks first last (skipped ++ l) = blocks first last l := by
  induction skipped with
  | nil => rfl
  | cons a skipped ih =>
    obtain ⟨ha, hskipped⟩ := List.forall_mem_cons.1 h
    rw [List.cons_append, blocks_outside ha, ih hskipped]

theorem blocksFrom_inside {body : List α} (h : ∀ a ∈ body, a ≠ last) (start l : List α) :
    blocksFrom first last (some start) (body ++ l) = blocksFrom first last (some (start ++ body)) l := by
  induction body generalizing start with
  | nil => rw [List.nil_append, List.append_nil]
  | cons a body ih =>
    obtain ⟨ha, hbody⟩ := List.forall_mem_cons.1 h
    rw [List.cons_append, blocksFrom, if_neg ha, ih hbody, List.append_assoc, List.singleton_append]

theorem blocks_block {body : List α} (h : ∀ a ∈ body, a ≠ last) (l : List α) :
    blocks first last (first :: (body ++ last :: l)) = body :: blocks first last l := by
  rw [blocks, blocksFrom, if_pos rfl, blocksFrom_inside h, blocksFrom, if_pos rfl, List.nil_append]
  rfl

/-- A block is between its marks in the list. -/
theorem mem_blocksFrom {l body : List α} {start : Option (List α)} (h : body ∈ blocksFrom first last start l) :
    first :: (body ++ [last]) <:+: l ∨ ∃ begun rest, start = some begun ∧ body ++ [last] = begun ++ rest ∧ rest <+: l := by
  induction l generalizing start with
  | nil =>
    rw [blocksFrom.eq_def] at h
    cases h
  | cons a l ih =>
    cases start with
    | none =>
      rw [blocksFrom] at h
      split at h
      · -- the block may be the one that begins here
        rename_i ha
        rcases ih h with hinside | ⟨begun, rest, hbegun, heq, hrest⟩
        · exact .inl (hinside.trans (List.suffix_cons a l).isInfix)
        · cases hbegun
          rw [heq, ha]
          exact .inl (List.cons_prefix_cons.2 ⟨rfl, hrest⟩).isInfix
      · rcases ih h with hinside | ⟨begun, rest, hbegun, -, -⟩
        · exact .inl (hinside.trans (List.suffix_cons a l).isInfix)
        · cases hbegun
    | some begun =>
      rw [blocksFrom] at h
      split at h
      · -- the block ends here, or is one behind it
        rename_i ha
        rcases List.mem_cons.1 h with rfl | h
        · exact .inr ⟨_, [a], rfl, by rw [ha], List.cons_prefix_cons.2 ⟨rfl, List.nil_prefix⟩⟩
        · rcases ih h with hinside | ⟨begun, rest, hbegun, -, -⟩
          · exact .inl (hinside.trans (List.suffix_cons a l).isInfix)
          · cases hbegun
      · rcases ih h with hinside | ⟨more, rest, hmore, heq, hrest⟩
        · exact .inl (hinside.trans (List.suffix_cons a l).isInfix)
        · cases hmore
          rw [List.append_assoc, List.singleton_append] at heq
          exact .inr ⟨begun, a :: rest, rfl, heq, List.cons_prefix_cons.2 ⟨rfl, hrest⟩⟩

theorem infix_of_mem_blocks {l body : List α} (h : body ∈ blocks first last l) : first :: (body ++ [last]) <:+: l := by
  rcases mem_blocksFrom h with hinside | ⟨begun, rest, hbegun, -, -⟩
  · exact hinside
  · cases hbegun

theorem blocks_map {f : α → β} (hf : Function.Injective f) (l : List α) :
    blocks (f first) (f last) (l.map f) = (blocks first last l).map (List.map f) := by
  have hall : ∀ start, blocksFrom (f first) (f last) (start.map (List.map f)) (l.map f) =
      (blocksFrom first last start l).map (List.map f) := by
    induction l with
    | nil =>
      intro start
      cases start <;> rfl
    | cons a l ih =>
      intro start
      cases start with
      | none =>
        rw [Option.map_none, List.map_cons, blocksFrom, blocksFrom]
        by_cases ha : a = first
        · rw [if_pos ha, if_pos (congrArg f ha)]
          exact ih (some [])
        · rw [if_neg ha, if_neg (hf.ne ha)]
          exact ih none
      | some body =>
        rw [Option.map_some, List.map_cons, blocksFrom, blocksFrom]
        by_cases ha : a = last
        · rw [if_pos ha, if_pos (congrArg f ha), List.map_cons]
          exact congrArg _ (ih none)
        · have hbody := ih (some (body ++ [a]))
          rw [Option.map_some, List.map_append, List.map_singleton] at hbody
          rw [if_neg ha, if_neg (hf.ne ha), hbody]
  exact hall none

example : blocks 1 2 [0, 1, 5, 1, 2, 2, 1, 2, 1, 7] = [[5, 1], []] := by decide

end Delimited
