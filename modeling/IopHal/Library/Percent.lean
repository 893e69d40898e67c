import Mathlib

/-!
# Percent escapes

A text with escapes reads as a byte string if, scanning from left to right, every `%` is followed by two hexadecimal
digits, in either case of the letters: `Decodes`.  The reading is unique, and a text either has one or splits at the
first `%` that is not followed by two digits (`decodes_or_broken`).

An encoder of byte strings writes `%`, `&` and zero as escapes, and escapes whatever else it likes: `Encodes`.  What it
writes reads as what it was given, and is free of `&` and zero.
-/

namespace Percent

/-- The value of a hexadecimal digit. -/
def digit (c : UInt8) : Option ℕ :=
  if 48 ≤ c ∧ c ≤ 57 then some (c.toNat - 48)
  else if 65 ≤ c ∧ c ≤ 70 then some (c.toNat - 55)
  else if 97 ≤ c ∧ c ≤ 102 then some (c.toNat - 87)
  else none

theorem digit_lt {c : UInt8} {m : ℕ} (h : digit c = some m) : m < 16 := by
  unfold digit at h
  simp only [UInt8.le_iff_toNat_le, UInt8.reduceToNat] at h
  split at h
  · obtain rfl := Option.some.inj h
    omega
  · split at h
    · obtain rfl := Option.some.inj h
      omega
    · split at h
      · obtain rfl := Option.some.inj h
        omega
      · contradiction

/-- A text and the byte string it reads as. -/
inductive Decodes : List UInt8 → List UInt8 → Prop
  | nil : Decodes [] []
  | plain {c : UInt8} {t s : List UInt8} (hc : c ≠ 37) (ht : Decodes t s) : Decodes (c :: t) (c :: s)
  | escape {h l : UInt8} {m n : ℕ} {t s : List UInt8} (hh : digit h = some m) (hl : digit l = some n)
      (ht : Decodes t s) : Decodes (37 :: h :: l :: t) (UInt8.ofNat (16 * m + n) :: s)

/-- A byte string and what some encoder writes for it. -/
inductive Encodes : List UInt8 → List UInt8 → Prop
  | nil : Encodes [] []
  | literal {c : UInt8} {s t : List UInt8} (hc : c ≠ 37 ∧ c ≠ 38 ∧ c ≠ 0) (hs : Encodes s t) :
      Encodes (c :: s) (c :: t)
  | escape {h l : UInt8} {m n : ℕ} {s t : List UInt8} (hh : digit h = some m) (hl : digit l = some n)
      (hs : Encodes s t) : Encodes (UInt8.ofNat (16 * m + n) :: s) (37 :: h :: l :: t)

/-- Two hexadecimal digits do not come first. -/
def Broken (t : List UInt8) : Prop := ∀ h l rest m n, t = h :: l :: rest → digit h = some m → digit l ≠ some n

theorem Broken.left {t u : List UInt8} (h : Broken (t ++ u)) : Broken t := by
  intro a b rest m n heq
  apply h a b (rest ++ u) m n
  rw [heq]
  rfl

namespace Decodes

variable {t u s r : List UInt8}

theorem append (ht : Decodes t s) (hu : Decodes u r) : Decodes (t ++ u) (s ++ r) := by
  induction ht with
  | nil => exact hu
  | plain hc _ ih => exact .plain hc ih
  | escape hh hl _ ih => exact .escape hh hl ih

theorem of_plain {c : UInt8} (hc : c ≠ 37) (h : Decodes (c :: t) r) : ∃ s, r = c :: s ∧ Decodes t s := by
  cases h with
  | plain _ h => exact ⟨_, rfl, h⟩
  | escape => exact absurd rfl hc

/-- What follows a text that reads as a byte string is read on its own. -/
theorem drop (ht : Decodes t s) (h : Decodes (t ++ u) r) : ∃ v, Decodes u v ∧ r = s ++ v := by
  induction ht generalizing r with
  | nil => exact ⟨r, h, rfl⟩
  | plain hc _ ih =>
    obtain ⟨_, rfl, hrest⟩ := h.of_plain hc
    obtain ⟨v, hv, rfl⟩ := ih hrest
    exact ⟨v, hv, rfl⟩
  | escape hh hl _ ih =>
    cases h with
    | plain hne _ => exact absurd rfl hne
    | escape hh' hl' hrest =>
      obtain ⟨v, hv, rfl⟩ := ih hrest
      obtain rfl := Option.some.inj (hh.symm.trans hh')
      obtain rfl := Option.some.inj (hl.symm.trans hl')
      exact ⟨v, hv, rfl⟩

theorem nil_iff : Decodes [] s ↔ s = [] := by
  constructor
  · intro h
    cases h
    rfl
  · intro h
    rw [h]
    exact .nil

/-- There is one reading at most. -/
theorem unique (hs : Decodes t s) (hr : Decodes t r) : s = r := by
  rw [← List.append_nil t] at hr
  obtain ⟨v, hv, rfl⟩ := hs.drop hr
  rw [nil_iff.1 hv, List.append_nil]

/-- A `%` without its digits has no reading. -/
theorem not_broken (h : Broken u) : ¬ Decodes (37 :: u) s := by
  intro hd
  cases hd with
  | plain hc _ => exact hc rfl
  | escape hh hl _ => exact h _ _ _ _ _ rfl hh hl

end Decodes

/-- A text reads as a byte string, or does so up to a `%` without its digits. -/
theorem decodes_or_broken (t : List UInt8) :
    (∃ s, Decodes t s) ∨ ∃ w s u, t = w ++ 37 :: u ∧ Decodes w s ∧ Broken u := by
  induction hlength : t.length using Nat.strong_induction_on generalizing t with
  | h length ih =>
    -- the text is put in front of a shorter one
    have hfront : ∀ {front value rest}, Decodes front value → rest.length < length →
        (∃ s, Decodes (front ++ rest) s) ∨ ∃ w s u, front ++ rest = w ++ 37 :: u ∧ Decodes w s ∧ Broken u := by
      intro front value rest hread hrest
      rcases ih _ hrest rest rfl with ⟨s, hs⟩ | ⟨w, s, u, rfl, hs, hu⟩
      · exact .inl ⟨_, hread.append hs⟩
      · exact .inr ⟨front ++ w, _, u, (List.append_assoc ..).symm, hread.append hs, hu⟩
    cases t with
    | nil => exact .inl ⟨[], .nil⟩
    | cons c t =>
      rw [List.length_cons] at hlength
      by_cases hc : c = 37
      · subst hc
        by_cases hu : Broken t
        · exact .inr ⟨[], [], t, rfl, .nil, hu⟩
        · simp only [Broken, not_forall, not_not] at hu
          obtain ⟨h, l, rest, m, n, rfl, hh, hl⟩ := hu
          rw [List.length_cons, List.length_cons] at hlength
          exact hfront (.escape hh hl .nil) (by omega)
      · exact hfront (.plain hc .nil) (by omega)

/-! ### Encoders -/

namespace Encodes

variable {s t : List UInt8}

theorem decodes (h : Encodes s t) : Decodes t s := by
  induction h with
  | nil => exact .nil
  | literal hc _ ih => exact .plain hc.1 ih
  | escape hh hl _ ih => exact .escape hh hl ih

theorem digit_ne {c d : UInt8} {m : ℕ} (h : digit c = some m) (hd : digit d = none) : c ≠ d := by
  rintro rfl
  rw [hd] at h
  contradiction

/-- An encoder leaves no delimiter in the text. -/
theorem not_mem (h : Encodes s t) {d : UInt8} (hd : d = 38 ∨ d = 0) : d ∉ t := by
  have hnone : digit d = none := by
    rcases hd with rfl | rfl <;> rfl
  have hpercent : d ≠ 37 := by
    rcases hd with rfl | rfl <;> decide
  induction h with
  | nil => exact List.not_mem_nil
  | literal hc _ ih =>
    rw [List.mem_cons, not_or]
    refine ⟨?_, ih⟩
    rcases hd with rfl | rfl
    · exact hc.2.1.symm
    · exact hc.2.2.symm
  | escape hh hl _ ih =>
    simp only [List.mem_cons, not_or]
    exact ⟨hpercent, (digit_ne hh hnone).symm, (digit_ne hl hnone).symm, ih⟩

end Encodes

end Percent
