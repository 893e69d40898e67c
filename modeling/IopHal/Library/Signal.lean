import Mathlib

/-!
# Edges of a signal

A signal is the list of its samples, each of them low or high.  It rises and falls between two samples in a row.  Rises and
falls alternate (`exists_fall`), so that their numbers differ by what the ends of the signal differ by (`balance`).
-/

namespace Signal

variable {α : Type*}

/-- How often two samples in a row are related. -/
def count (R : α → α → Bool) (l : List α) : ℕ := (l.zip l.tail).countP fun p => R p.1 p.2

/-- The samples `i` and `i + 1` are related. -/
def At (R : α → α → Bool) (l : List α) (i : ℕ) : Prop :=
  ∃ a b, l[i]? = some a ∧ l[i + 1]? = some b ∧ R a b = true

/-- From low to high. -/
def rise (up : α → Bool) (a b : α) : Bool := !up a && up b

/-- From high to low. -/
def fall (up : α → Bool) (a b : α) : Bool := up a && !up b

@[simp] theorem count_singleton (R : α → α → Bool) (a : α) : count R [a] = 0 := by simp [count]

@[simp] theorem count_cons_cons (R : α → α → Bool) (a b : α) (l : List α) :
    count R (a :: b :: l) = (if R a b then 1 else 0) + count R (b :: l) := by
  simp [count, List.countP_cons, Nat.add_comm]

/-- If one of two relations holds and never both, the pairs are counted by either. -/
theorem count_or {R S : α → α → Bool} (h : ∀ a b, R a b = true → S a b = false) (l : List α) :
    count (fun a b => R a b || S a b) l = count R l + count S l := by
  unfold count
  induction l.zip l.tail with
  | nil => simp
  | cons p ps ih =>
    have hp := h p.1 p.2
    simp only [List.countP_cons, ih]
    cases hR : R p.1 p.2 <;> cases hS : S p.1 p.2 <;> simp_all <;> omega

/-- A property that holds and later does not is lost at some place between. -/
theorem exists_switch {P : ℕ → Prop} {m n : ℕ} (hmn : m ≤ n) (hm : P m) (hn : ¬ P n) :
    ∃ k, m ≤ k ∧ k < n ∧ P k ∧ ¬ P (k + 1) := by
  induction n, hmn using Nat.le_induction with
  | base => exact absurd hm hn
  | succ n hmn ih =>
    by_cases hP : P n
    · exact ⟨n, hmn, by omega, hP, hn⟩
    · obtain ⟨k, hmk, hkn, hk⟩ := ih hP
      exact ⟨k, hmk, by omega, hk⟩

/-- Between two rises the signal falls. -/
theorem exists_fall {up : α → Bool} {l : List α} {i j : ℕ} (hij : i < j) (hi : At (rise up) l i) (hj : At (rise up) l j) :
    ∃ k, i < k ∧ k < j ∧ At (fall up) l k := by
  obtain ⟨_, b, -, hb, hrise⟩ := hi
  obtain ⟨c, _, hc, -, hrise'⟩ := hj
  simp only [rise, Bool.and_eq_true, Bool.not_eq_true'] at hrise hrise'
  -- the sample behind the first rise is high, the one in front of the second low
  have hhigh : ∃ x, l[i + 1]? = some x ∧ up x = true := ⟨b, hb, hrise.2⟩
  have hlow : ¬ ∃ x, l[j]? = some x ∧ up x = true := by
    rintro ⟨x, hx, hup⟩
    rw [hc, Option.some.injEq] at hx
    simp [← hx, hrise'.1] at hup
  obtain ⟨k, hik, hkj, ⟨x, hx, hup⟩, hnot⟩ :=
    exists_switch (P := fun k => ∃ x, l[k]? = some x ∧ up x = true) hij hhigh hlow
  have hlength : k + 1 < l.length := by
    have := (List.getElem?_eq_some_iff.1 hc).1
    omega
  refine ⟨k, by omega, hkj, x, l[k + 1], hx, by simp, ?_⟩
  have hdown : up l[k + 1] = false := by
    by_contra hup'
    exact hnot ⟨l[k + 1], by simp, by simpa using hup'⟩
  simp [fall, hup, hdown]

/-- Upside down, rises are falls. -/
theorem rise_not (up : α → Bool) : rise (fun a => !up a) = fall up := by
  funext a b
  simp [rise, fall]

theorem fall_not (up : α → Bool) : fall (fun a => !up a) = rise up := by
  funext a b
  simp [rise, fall]

/-- Between two falls it rises. -/
theorem exists_rise {up : α → Bool} {l : List α} {i j : ℕ} (hij : i < j) (hi : At (fall up) l i) (hj : At (fall up) l j) :
    ∃ k, i < k ∧ k < j ∧ At (rise up) l k := by
  rw [← rise_not] at hi hj
  have hfall := exists_fall hij hi hj
  rwa [fall_not] at hfall

/-- The signal is at the end where it was at the start, but for its rises and falls. -/
theorem balance (up : α → Bool) (a : α) (l : List α) :
    count (rise up) (a :: l) + (up a).toNat = count (fall up) (a :: l) + (up ((a :: l).getLast (by simp))).toNat := by
  induction l generalizing a with
  | nil => simp
  | cons b l ih =>
    have hrest := ih b
    rw [count_cons_cons, count_cons_cons, List.getLast_cons_cons]
    by_cases ha : up a <;> by_cases hb : up b <;> simp only [rise, fall, ha, hb] at hrest ⊢ <;> simp at hrest ⊢ <;> omega

end Signal
