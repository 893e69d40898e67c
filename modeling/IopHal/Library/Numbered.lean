import Mathlib

/-!
# Numbered declarations

A generator of source text declares some values under consecutive numbers, and then lists their names in tables.  The tables
resolve to the values.
-/

namespace Numbered

variable {α : Type*}

/-- The declarations of some values, from the number `start` on. -/
def declare (start : ℕ) : List α → List (ℕ × α)
  | [] => []
  | a :: l => (start, a) :: declare (start + 1) l

theorem declare_append (start : ℕ) (l l' : List α) :
    declare start (l ++ l') = declare start l ++ declare (start + l.length) l' := by
  induction l generalizing start with
  | nil => rfl
  | cons a l ih =>
    rw [List.cons_append, declare, declare, ih, List.cons_append, List.length_cons, Nat.add_assoc, Nat.add_comm 1]

theorem lookup_declare (start : ℕ) (l : List α) (i : ℕ) : (declare start l).lookup (start + i) = l[i]? := by
  induction l generalizing start i with
  | nil => rfl
  | cons a l ih =>
    cases i with
    | zero => simp [declare]
    | succ i =>
      have hne : (start + (i + 1) == start) = false := by
        simp
      have hnext := ih (start + 1) i
      rw [Nat.add_assoc, Nat.add_comm 1] at hnext
      rw [declare, List.lookup_cons, hne, hnext, List.getElem?_cons_succ]

/-- To look up all numbers of a list is to have it. -/
theorem mapM_range {l : List α} {f : ℕ → Option α} (h : ∀ i < l.length, f i = l[i]?) :
    (List.range l.length).mapM f = some l := by
  induction l using List.reverseRecOn generalizing f with
  | nil => rfl
  | append_singleton l a ih =>
    have hfront : (List.range l.length).mapM f = some l := by
      apply ih
      intro i hi
      rw [h i (by rw [List.length_append]; omega), List.getElem?_append_left hi]
    have hlast : f l.length = some a := by
      rw [h l.length (by simp)]
      simp
    rw [List.length_append, List.length_singleton, List.range_succ, List.mapM_append, hfront]
    simp [hlast]

theorem mapM_lookup_declare (l : List α) : (List.range l.length).mapM (fun i => (declare 0 l).lookup i) = some l := by
  apply mapM_range
  intro i _
  have hlookup := lookup_declare 0 l i
  rwa [Nat.zero_add] at hlookup

end Numbered
