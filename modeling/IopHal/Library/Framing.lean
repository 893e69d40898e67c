import Mathlib

/-!
# Delimited lines and cuts

A text of lines `ls`, each ended by the delimiter `d`, followed by a rest, and what happens when such a text is cut
into pieces.  A cut is clean when it falls behind a line or in the rest; `firstBreak d ls cs` is the first piece that
ends in the middle of a line.  A prefix of the text ends behind a line, in the rest or in the middle of a line
(`prefix_cases`), which gives the value of `firstBreak` one piece at a time (`firstBreak_lines`,
`firstBreak_rest`, `firstBreak_broken`).
-/

namespace Framing

variable {α : Type*}

/-- The text of the lines `ls`. -/
def unlines (d : List α) (ls : List (List α)) : List α := ls.flatMap (· ++ d)

@[simp] theorem unlines_nil (d : List α) : unlines d [] = [] := rfl

@[simp] theorem unlines_cons (d l : List α) (ls : List (List α)) :
    unlines d (l :: ls) = l ++ d ++ unlines d ls := rfl

@[simp] theorem unlines_append (d : List α) (ls ls' : List (List α)) :
    unlines d (ls ++ ls') = unlines d ls ++ unlines d ls' := by
  simp [unlines]

theorem unlines_ne_nil {d : List α} (hd : d ≠ []) {ls : List (List α)} (h : ls ≠ []) : unlines d ls ≠ [] := by
  cases ls with
  | nil => exact absurd rfl h
  | cons l ls => simp [hd]

/-- A prefix of a text of lines and a rest ends behind a line, in the rest, or in the middle of a line. -/
theorem prefix_cases (d : List α) (ls : List (List α)) {c t body : List α} (h : c ++ t = unlines d ls ++ body) :
    (∃ ls₁ ls₂, ls = ls₁ ++ ls₂ ∧ c = unlines d ls₁ ∧ t = unlines d ls₂ ++ body) ∨
    (∃ b, c = unlines d ls ++ b ∧ b ≠ [] ∧ body = b ++ t) ∨
    (∃ ls₁ l ls₂ p q, ls = ls₁ ++ l :: ls₂ ∧ c = unlines d ls₁ ++ p ∧ p ++ q = l ++ d ∧ p ≠ [] ∧ q ≠ [] ∧
      t = q ++ unlines d ls₂ ++ body) := by
  induction ls generalizing c with
  | nil =>
    by_cases hc : c = []
    · exact Or.inl ⟨[], [], rfl, by simp [hc], by simpa [hc] using h⟩
    · exact Or.inr (Or.inl ⟨c, by simp, hc, by simpa using h.symm⟩)
  | cons l ls ih =>
    rw [unlines_cons, List.append_assoc (l ++ d)] at h
    rcases List.append_eq_append_iff.1 h with ⟨q, hq, ht⟩ | ⟨c', rfl, ht⟩
    · by_cases hc : c = []
      · exact Or.inl ⟨[], l :: ls, rfl, hc, by subst hc; simp_all⟩
      · by_cases hq0 : q = []
        · subst hq0
          exact Or.inl ⟨[l], ls, rfl, by simpa using hq.symm, by simpa using ht⟩
        · exact Or.inr (Or.inr ⟨[], l, ls, c, q, rfl, by simp, hq.symm, hc, hq0, by simpa using ht⟩)
    · rcases ih ht.symm with ⟨ls₁, ls₂, rfl, rfl, rfl⟩ | ⟨b, rfl, hb, rfl⟩ | ⟨ls₁, l', ls₂, p, q, rfl, rfl, hpq, hp, hq, rfl⟩
      · exact Or.inl ⟨l :: ls₁, ls₂, rfl, by simp, rfl⟩
      · exact Or.inr (Or.inl ⟨b, by simp, hb, rfl⟩)
      · exact Or.inr (Or.inr ⟨l :: ls₁, l', ls₂, p, q, rfl, by simp, hpq, hp, hq, rfl⟩)

/-- A cut through lines that end with `l` leaves `l` behind it, or nothing. -/
theorem split_append_singleton {β : Type*} {ls ls₁ ls₂ : List β} {l : β} (h : ls ++ [l] = ls₁ ++ ls₂) :
    (ls₁ = ls ++ [l] ∧ ls₂ = []) ∨ ∃ ls₂', ls = ls₁ ++ ls₂' ∧ ls₂ = ls₂' ++ [l] := by
  rcases List.eq_nil_or_concat ls₂ with rfl | ⟨ls₂', l', rfl⟩
  · exact Or.inl ⟨by simpa using h.symm, rfl⟩
  · rw [List.concat_eq_append, ← List.append_assoc] at h
    obtain ⟨h₁, h₂⟩ := List.append_inj' h rfl
    exact Or.inr ⟨ls₂', h₁, by rw [List.concat_eq_append, ← h₂]⟩

/-! ### Cuts -/

/-- A cut at position `n` falls behind a line (or before the first one) or in the rest. -/
def CleanCut (d : List α) (ls : List (List α)) (n : Nat) : Prop :=
  (∃ k ≤ ls.length, n = (unlines d (ls.take k)).length) ∨ (unlines d ls).length ≤ n

instance (d : List α) (ls : List (List α)) (n : Nat) : Decidable (CleanCut d ls n) :=
  inferInstanceAs (Decidable (_ ∨ _))

/-- The first of the pieces `cs`, starting at position `n`, that ends in the middle of a line. -/
def firstBreak (d : List α) (ls : List (List α)) : Nat → List (List α) → Option (List α)
  | _, [] => none
  | n, c :: cs => if CleanCut d ls (n + c.length) then firstBreak d ls (n + c.length) cs else some c

private theorem length_unlines_take_lt {d : List α} (hd : d ≠ []) {ls : List (List α)} {k : Nat}
    (h : k < ls.length) : (unlines d (ls.take k)).length < (unlines d ls).length := by
  have hdrop : ls.drop k ≠ [] := by simp; omega
  have hpos := List.length_pos_iff.2 (unlines_ne_nil hd hdrop)
  have e : unlines d ls = unlines d (ls.take k) ++ unlines d (ls.drop k) := by
    rw [← unlines_append, List.take_append_drop]
  rw [e, List.length_append]
  omega

theorem cleanCut_append {d : List α} (hd : d ≠ []) (ls₁ ls₂ : List (List α)) (n : Nat) :
    CleanCut d (ls₁ ++ ls₂) ((unlines d ls₁).length + n) ↔ CleanCut d ls₂ n := by
  have hlen : (unlines d (ls₁ ++ ls₂)).length = (unlines d ls₁).length + (unlines d ls₂).length := by simp
  unfold CleanCut
  rw [hlen]
  constructor
  · rintro (⟨k, hk, e⟩ | h)
    · by_cases hk1 : k < ls₁.length
      · rw [List.take_append_of_le_length (by omega)] at e
        have := length_unlines_take_lt hd hk1
        omega
      · rw [List.take_append, List.take_of_length_le (by omega), unlines_append, List.length_append] at e
        exact Or.inl ⟨k - ls₁.length, by simp at hk; omega, by omega⟩
    · exact Or.inr (by omega)
  · rintro (⟨k, hk, rfl⟩ | h)
    · refine Or.inl ⟨ls₁.length + k, by simp; omega, ?_⟩
      rw [List.take_length_add_append, unlines_append, List.length_append]
    · exact Or.inr (by omega)

/-- A cut in the middle of the first line is not clean. -/
theorem not_cleanCut_of_lt {d : List α} {l : List α} {ls : List (List α)} {n : Nat} (h0 : 0 < n)
    (hn : n < (l ++ d).length) : ¬ CleanCut d (l :: ls) n := by
  rintro (⟨k, -, rfl⟩ | h)
  · cases k with
    | zero => simp at h0
    | succ k =>
      rw [List.take_succ_cons, unlines_cons, List.length_append] at hn
      omega
  · simp at h hn; omega

theorem firstBreak_append {d : List α} (hd : d ≠ []) (ls₁ ls₂ : List (List α)) (n : Nat) (cs : List (List α)) :
    firstBreak d (ls₁ ++ ls₂) ((unlines d ls₁).length + n) cs = firstBreak d ls₂ n cs := by
  induction cs generalizing n with
  | nil => rfl
  | cons c cs ih =>
    unfold firstBreak
    rw [Nat.add_assoc, ih]
    simp only [cleanCut_append hd]

/-- No piece breaks a line in the rest. -/
theorem firstBreak_eq_none {d : List α} {ls : List (List α)} {n : Nat} (h : (unlines d ls).length ≤ n)
    (cs : List (List α)) : firstBreak d ls n cs = none := by
  induction cs generalizing n with
  | nil => rfl
  | cons c cs ih =>
    have hc : CleanCut d ls (n + c.length) := Or.inr (by omega)
    rw [firstBreak, if_pos hc, ih (by omega)]

/-- A first piece of whole lines. -/
theorem firstBreak_lines {d : List α} (hd : d ≠ []) (ls₁ ls₂ : List (List α)) (cs : List (List α)) :
    firstBreak d (ls₁ ++ ls₂) 0 (unlines d ls₁ :: cs) = firstBreak d ls₂ 0 cs := by
  have hc : CleanCut d (ls₁ ++ ls₂) (0 + (unlines d ls₁).length) :=
    Or.inl ⟨ls₁.length, by simp, by simp⟩
  rw [firstBreak, if_pos hc, Nat.zero_add]
  exact firstBreak_append hd ls₁ ls₂ 0 cs

/-- A first piece that reaches into the rest. -/
theorem firstBreak_rest (d : List α) (ls : List (List α)) (b : List α) (cs : List (List α)) :
    firstBreak d ls 0 ((unlines d ls ++ b) :: cs) = none := by
  have hc : CleanCut d ls (0 + (unlines d ls ++ b).length) := Or.inr (by simp)
  rw [firstBreak, if_pos hc]
  exact firstBreak_eq_none (by simp) cs

/-- A first piece that ends in the middle of a line. -/
theorem firstBreak_broken {d : List α} (hd : d ≠ []) (ls₁ ls₂ : List (List α)) {l p q : List α}
    (hpq : p ++ q = l ++ d) (hp : p ≠ []) (hq : q ≠ []) (cs : List (List α)) :
    firstBreak d (ls₁ ++ l :: ls₂) 0 ((unlines d ls₁ ++ p) :: cs) = some (unlines d ls₁ ++ p) := by
  have hlen := congrArg List.length hpq
  have hp' := List.length_pos_iff.2 hp
  have hq' := List.length_pos_iff.2 hq
  rw [List.length_append] at hlen
  have hc : ¬ CleanCut d (ls₁ ++ l :: ls₂) (0 + (unlines d ls₁ ++ p).length) := by
    rw [Nat.zero_add, List.length_append, cleanCut_append hd]
    exact not_cleanCut_of_lt hp' (by omega)
  rw [firstBreak, if_neg hc]

/-- A first line in front of the first piece. -/
theorem firstBreak_cons_line {d : List α} (hd : d ≠ []) (l : List α) (ls : List (List α)) (c : List α)
    (cs : List (List α)) :
    firstBreak d (l :: ls) 0 ((l ++ d ++ c) :: cs) =
      if CleanCut d ls c.length then firstBreak d ls 0 (c :: cs) else some (l ++ d ++ c) := by
  have hlen : 0 + (l ++ d ++ c).length = (unlines d [l]).length + c.length := by simp [Nat.add_assoc]
  have hclean : CleanCut d (l :: ls) ((unlines d [l]).length + c.length) ↔ CleanCut d ls c.length :=
    cleanCut_append hd [l] ls c.length
  have hrest : firstBreak d (l :: ls) ((unlines d [l]).length + c.length) cs = firstBreak d ls c.length cs :=
    firstBreak_append hd [l] ls c.length cs
  by_cases hc : CleanCut d ls c.length
  · rw [firstBreak, hlen, if_pos (hclean.2 hc), hrest, if_pos hc, firstBreak, Nat.zero_add, if_pos hc]
  · rw [firstBreak, hlen, if_neg (mt hclean.1 hc), if_neg hc]

/-- No piece breaks a line exactly when every cut is clean. -/
theorem firstBreak_eq_none_iff {d : List α} {ls : List (List α)} {n : Nat} {cs : List (List α)} :
    firstBreak d ls n cs = none ↔ ∀ pre c post, cs = pre ++ c :: post → CleanCut d ls (n + (pre ++ [c]).flatten.length) := by
  induction cs generalizing n with
  | nil => simp [firstBreak]
  | cons c cs ih =>
    constructor
    · intro h pre c' post hcs
      rw [firstBreak] at h
      split at h
      · rename_i hc
        cases pre with
        | nil =>
          obtain ⟨rfl, -⟩ := List.cons.inj hcs
          simpa using hc
        | cons c'' pre =>
          rw [List.cons_append, List.cons.injEq] at hcs
          obtain ⟨rfl, hcs⟩ := hcs
          have := ih.1 h pre c' post hcs
          rw [Nat.add_assoc] at this
          simpa using this
      · simp at h
    · intro h
      have hc : CleanCut d ls (n + c.length) := by simpa using h [] c cs rfl
      rw [firstBreak, if_pos hc, ih]
      rintro pre c' post rfl
      have := h (c :: pre) c' post rfl
      rw [Nat.add_assoc]
      simpa using this

end Framing
