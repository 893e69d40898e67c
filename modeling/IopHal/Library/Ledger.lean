import Mathlib

/-!
# Ledgers of resources

What a program acquires and releases, in order.  A ledger is settled if every release gives back something that is held
and nothing is held in the end: then everything that was acquired has been released exactly once (`Settled.count_eq`).
-/

namespace Ledger

variable {ρ : Type*}

inductive Entry (ρ : Type*)
  | acquire (r : ρ)
  | release (r : ρ)
  deriving DecidableEq

variable [DecidableEq ρ]

/-- What is held behind some entries; nothing sensible if one of them releases what is not held. -/
def holds (held : List ρ) : List (Entry ρ) → Option (List ρ)
  | [] => some held
  | .acquire r :: es => holds (r :: held) es
  | .release r :: es => if r ∈ held then holds (held.erase r) es else none

/-- Nothing was held before, and nothing is held behind. -/
def Settled (es : List (Entry ρ)) : Prop := holds [] es = some []

instance (es : List (Entry ρ)) : Decidable (Settled es) := inferInstanceAs (Decidable (holds [] es = some []))

theorem holds_append (held : List ρ) (es fs : List (Entry ρ)) :
    holds held (es ++ fs) = (holds held es).bind fun held => holds held fs := by
  induction es generalizing held with
  | nil => rfl
  | cons e es ih =>
    cases e with
    | acquire r => exact ih (r :: held)
    | release r =>
      rw [List.cons_append, holds, holds]
      split
      · exact ih (held.erase r)
      · rfl

/-- What was held or acquired is what is held or was released. -/
theorem count_holds {held left : List ρ} {es : List (Entry ρ)} (h : holds held es = some left) (r : ρ) :
    held.count r + es.count (.acquire r) = left.count r + es.count (.release r) := by
  induction es generalizing held with
  | nil =>
    cases h
    rfl
  | cons e es ih =>
    cases e with
    | acquire q =>
      have h : holds (q :: held) es = some left := h
      have hrest := ih h
      rw [List.count_cons] at hrest
      rw [List.count_cons, List.count_cons_of_ne (by simp)]
      by_cases hq : q = r
      · subst hq
        simp only [beq_self_eq_true, if_true] at hrest ⊢
        omega
      · simpa [hq] using hrest
    | release q =>
      rw [holds] at h
      split at h
      · rename_i hmem
        have hrest := ih h
        rw [List.count_erase] at hrest
        rw [List.count_cons_of_ne (by simp), List.count_cons]
        by_cases hq : q = r
        · subst hq
          have hpos := List.count_pos_iff.2 hmem
          simp only [beq_self_eq_true, if_true] at hrest ⊢
          omega
        · have hne : ¬ r = q := fun heq => hq heq.symm
          simpa [hq, hne] using hrest
      · cases h

theorem Settled.count_eq {es : List (Entry ρ)} (h : Settled es) (r : ρ) :
    es.count (.acquire r) = es.count (.release r) := by
  simpa using count_holds h r

end Ledger
