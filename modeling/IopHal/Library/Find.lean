import Mathlib

/-!
# First occurrences

`find pat l` is the position of the first occurrence of the list `pat` in `l`.  An occurrence splits the list
(`find_split`), there is one exactly when `pat` is an infix (`find_eq_none_iff`), and a block that lacks the first
letter of the pattern is skipped (`find_append_skip`), which locates a delimiter behind a text that is free of it.
`find_eq_some_iff` characterises the position as the least one at which the pattern stands.
-/

namespace Find

variable {α : Type*} [DecidableEq α]

/-- The position of the first occurrence of `pat`. -/
def find (pat : List α) : List α → Option Nat
  | [] => if pat = [] then some 0 else none
  | a :: l => if pat <+: a :: l then some 0 else (find pat l).map (· + 1)

/-! ### Occurrences -/

theorem find_of_isPrefix {pat l : List α} (h : pat <+: l) : find pat l = some 0 := by
  cases l with
  | nil => simp [find, List.prefix_nil.1 h]
  | cons a l => simp [find, h]

theorem find_cons_of_not_isPrefix {pat l : List α} {a : α} (h : ¬ pat <+: a :: l) :
    find pat (a :: l) = (find pat l).map (· + 1) := by
  simp [find, h]

theorem find_eq_zero_iff {pat l : List α} : find pat l = some 0 ↔ pat <+: l := by
  refine ⟨fun h => ?_, find_of_isPrefix⟩
  cases l with
  | nil =>
    by_cases hp : pat = []
    · simp [hp]
    · simp [find, hp] at h
  | cons a l =>
    by_contra hp
    rw [find_cons_of_not_isPrefix hp] at h
    cases hf : find pat l <;> simp [hf] at h

/-- The pattern stands at the position that is found. -/
theorem find_isPrefix {pat l : List α} {n : Nat} (h : find pat l = some n) : n ≤ l.length ∧ pat <+: l.drop n := by
  induction l generalizing n with
  | nil =>
    by_cases hp : pat = []
    · obtain rfl : n = 0 := by simpa [find, hp] using h.symm
      rw [hp]
      exact ⟨Nat.le_refl _, List.nil_prefix⟩
    · simp [find, hp] at h
  | cons a l ih =>
    by_cases hp : pat <+: a :: l
    · obtain rfl : n = 0 := by simpa [find_of_isPrefix hp] using h.symm
      exact ⟨Nat.zero_le _, hp⟩
    · rw [find_cons_of_not_isPrefix hp] at h
      obtain ⟨k, hk, rfl⟩ := Option.map_eq_some_iff.1 h
      obtain ⟨hle, hprefix⟩ := ih hk
      exact ⟨Nat.succ_le_succ hle, hprefix⟩

/-- An occurrence at position `n` splits the list. -/
theorem find_split {pat l : List α} {n : Nat} (h : find pat l = some n) :
    l = l.take n ++ pat ++ l.drop (n + pat.length) := by
  have hdrop : pat ++ (l.drop n).drop pat.length = l.drop n := List.prefix_iff_eq_append.1 (find_isPrefix h).2
  rw [List.append_assoc, ← List.drop_drop, hdrop, List.take_append_drop]

theorem find_le {pat l : List α} {n : Nat} (h : find pat l = some n) : n + pat.length ≤ l.length := by
  obtain ⟨hle, hprefix⟩ := find_isPrefix h
  have hlength := hprefix.length_le
  rw [List.length_drop] at hlength
  omega

theorem find_eq_none_iff {pat l : List α} : find pat l = none ↔ ¬ pat <:+: l := by
  induction l with
  | nil => by_cases hp : pat = [] <;> simp [find, hp]
  | cons a l ih =>
    by_cases hp : pat <+: a :: l
    · simp [find_of_isPrefix hp, hp.isInfix]
    · rw [find_cons_of_not_isPrefix hp, Option.map_eq_none_iff, ih, List.infix_cons_iff, not_or]
      exact ⟨fun h => ⟨hp, h⟩, fun h => h.2⟩

theorem find_isSome_iff {pat l : List α} : (find pat l).isSome ↔ pat <:+: l := by
  rw [← not_iff_not, Bool.not_eq_true, Option.isSome_eq_false_iff, Option.isNone_iff_eq_none, find_eq_none_iff]

/-! ### Skipping a block -/

/-- A block that lacks the first letter of the pattern holds no occurrence. -/
theorem find_append_skip {a : α} {xs : List α} (h : a ∉ xs) (pat l : List α) :
    find (a :: pat) (xs ++ l) = (find (a :: pat) l).map (· + xs.length) := by
  induction xs with
  | nil => simp
  | cons x xs ih =>
    simp only [List.mem_cons, not_or] at h
    have hp : ¬ a :: pat <+: x :: (xs ++ l) := fun hp => h.1 (List.cons_prefix_cons.1 hp).1
    rw [List.cons_append, find_cons_of_not_isPrefix hp, ih h.2, Option.map_map]
    rfl

theorem find_append_here {a : α} {xs : List α} (h : a ∉ xs) (pat l : List α) :
    find (a :: pat) (xs ++ a :: pat ++ l) = some xs.length := by
  rw [List.append_assoc, find_append_skip h, find_of_isPrefix (List.prefix_append _ _)]
  simp

theorem find_singleton_eq_none_iff {a : α} {xs : List α} : find [a] xs = none ↔ a ∉ xs := by
  rw [find_eq_none_iff, List.singleton_infix_iff]

/-- The first occurrence is the least position at which the pattern stands. -/
theorem find_eq_some_iff {pat l : List α} {n : Nat} :
    find pat l = some n ↔ pat <+: l.drop n ∧ ∀ m < n, ¬ pat <+: l.drop m := by
  induction l generalizing n with
  | nil =>
    by_cases hp : pat = []
    · subst hp
      constructor
      · intro h
        obtain rfl : n = 0 := by simpa [find] using h.symm
        simp
      · rintro ⟨-, h⟩
        cases n with
        | zero => simp [find]
        | succ n => exact absurd List.nil_prefix (h 0 (by omega))
    · simp [find, hp]
  | cons a l ih =>
    by_cases hp : pat <+: a :: l
    · rw [find_of_isPrefix hp]
      constructor
      · intro h
        obtain rfl : 0 = n := by simpa using h
        exact ⟨hp, fun m hm => absurd hm (by omega)⟩
      · rintro ⟨-, h⟩
        cases n with
        | zero => rfl
        | succ n => exact absurd hp (h 0 (by omega))
    · rw [find_cons_of_not_isPrefix hp]
      cases n with
      | zero => simp [hp]
      | succ n =>
        simp only [Option.map_eq_some_iff, Nat.add_right_cancel_iff, exists_eq_right, ih, List.drop_succ_cons]
        refine and_congr_right fun _ => ⟨?_, ?_⟩
        · intro h m hm
          cases m with
          | zero => exact hp
          | succ m => exact h m (by omega)
        · intro h m hm
          exact h (m + 1) (by omega)

/-- What follows a text does not matter if the text has an occurrence. -/
theorem find_append_of_infix {pat l : List α} (h : pat <:+: l) (rest : List α) : find pat (l ++ rest) = find pat l := by
  obtain ⟨n, hn⟩ := Option.isSome_iff_exists.1 (find_isSome_iff.2 h)
  have hle : n + pat.length ≤ l.length := find_le hn
  obtain ⟨hfound, hleast⟩ := find_eq_some_iff.1 hn
  rw [hn, find_eq_some_iff]
  constructor
  · rw [List.drop_append_of_le_length (by omega)]
    exact hfound.trans (List.prefix_append _ _)
  · intro m hm hearlier
    rw [List.drop_append_of_le_length (by omega)] at hearlier
    apply hleast m hm
    apply List.prefix_of_prefix_length_le hearlier (List.prefix_append _ _)
    rw [List.length_drop]
    omega

omit [DecidableEq α] in
/-- An occurrence is an occurrence at some position. -/
theorem infix_iff_exists_drop {pat l : List α} : pat <:+: l ↔ ∃ n, pat <+: l.drop n := by
  rw [List.infix_iff_prefix_suffix]
  constructor
  · rintro ⟨t, hpre, hsuf⟩
    refine ⟨l.length - t.length, ?_⟩
    rwa [← List.suffix_iff_eq_drop.1 hsuf]
  · rintro ⟨n, h⟩
    exact ⟨_, h, List.drop_suffix n l⟩

/-! ### Up to a delimiter -/

theorem takeWhile_ne_append {a : α} {xs : List α} (h : a ∉ xs) (l : List α) : (xs ++ a :: l).takeWhile (· ≠ a) = xs := by
  have hxs : ∀ x ∈ xs, decide (x ≠ a) = true := by
    intro x hx
    have hne : x ≠ a := fun heq => h (heq ▸ hx)
    simpa using hne
  rw [List.takeWhile_append_of_pos hxs, List.takeWhile_cons_of_neg (by simp), List.append_nil]

theorem takeWhile_ne_self {a : α} {xs : List α} (h : a ∉ xs) : xs.takeWhile (· ≠ a) = xs := by
  rw [List.takeWhile_eq_self_iff]
  intro x hx
  have hne : x ≠ a := fun heq => h (heq ▸ hx)
  simpa using hne

/-- What stands in front of the first delimiter, or everything. -/
theorem take_find (a : α) (l : List α) {n : Nat} (hn : l.length ≤ n) :
    l.take ((find [a] l).getD n) = l.takeWhile (· ≠ a) := by
  by_cases ha : a ∈ l
  · obtain ⟨xs, rest, rfl, hxs⟩ := List.eq_append_cons_of_mem ha
    have hfind : find [a] (xs ++ a :: rest) = some xs.length := by
      rw [List.append_cons]
      exact find_append_here hxs [] rest
    rw [hfind, Option.getD_some, List.take_left, takeWhile_ne_append hxs]
  · rw [find_singleton_eq_none_iff.2 ha, Option.getD_none, List.take_of_length_le hn, takeWhile_ne_self ha]

/-! ### Segments -/

omit [DecidableEq α] in
/-- A pattern that lacks a letter does not reach across it. -/
theorem prefix_append_cons_iff {pat xs l : List α} {a : α} (h : a ∉ pat) : pat <+: xs ++ a :: l ↔ pat <+: xs := by
  induction xs generalizing pat with
  | nil =>
    cases pat with
    | nil => simp
    | cons b pat =>
      rw [List.mem_cons, not_or] at h
      simp [List.cons_prefix_cons, Ne.symm h.1]
  | cons x xs ih =>
    cases pat with
    | nil => simp
    | cons b pat =>
      rw [List.mem_cons, not_or] at h
      rw [List.cons_append, List.cons_prefix_cons, List.cons_prefix_cons, ih h.2]

/-- The first segment that starts with the pattern: what follows the pattern there, and the segments behind. -/
def firstWith (pat : List α) : List (List α) → Option (List α × List (List α))
  | [] => none
  | seg :: segs => if pat <+: seg then some (seg.drop pat.length, segs) else firstWith pat segs

/-- Segments, each behind a separator. -/
def joined (a : α) (segs : List (List α)) : List α := segs.flatMap (a :: ·)

omit [DecidableEq α] in
theorem joined_cons (a : α) (seg : List α) (segs : List (List α)) :
    joined a (seg :: segs) = a :: (seg ++ joined a segs) := rfl

/-- A list is the segments that it splits into, joined again. -/
theorem exists_splitOn (a : α) (l : List α) :
    ∃ seg segs, l.splitOn a = seg :: segs ∧ (∀ s ∈ seg :: segs, a ∉ s) ∧ l = seg ++ joined a segs := by
  induction hlength : l.length using Nat.strong_induction_on generalizing l with
  | h n ih =>
    by_cases ha : a ∈ l
    · obtain ⟨xs, rest, rfl, hxs⟩ := List.eq_append_cons_of_mem ha
      have hrest : rest.length < n := by
        rw [← hlength, List.length_append, List.length_cons]
        omega
      obtain ⟨seg, segs, hsplit, hfree, hrest⟩ := ih rest.length hrest rest rfl
      refine ⟨xs, seg :: segs, ?_, ?_, ?_⟩
      · rw [List.splitOn_append_cons_self_of_not_mem hxs, hsplit]
      · rw [List.forall_mem_cons]
        exact ⟨hxs, hfree⟩
      · rw [joined_cons, ← hrest]
    · refine ⟨l, [], List.splitOn_eq_singleton ha, ?_, ?_⟩
      · intro s hs
        rwa [List.mem_singleton.1 hs]
      · exact (List.append_nil l).symm

section Segments

variable {a : α} {pat : List α} {segs : List (List α)}

omit [DecidableEq α] in
theorem prefix_segment_iff (hpat : a ∉ pat) (seg : List α) : pat <+: seg ++ joined a segs ↔ pat <+: seg := by
  cases segs with
  | nil =>
    have hnil : joined a [] = [] := rfl
    rw [hnil, List.append_nil]
  | cons next segs => exact prefix_append_cons_iff hpat

theorem find_joined_none (hpat : a ∉ pat) (h : ∀ s ∈ segs, a ∉ s) (hnone : firstWith pat segs = none) :
    find (a :: pat) (joined a segs) = none := by
  induction segs with
  | nil => rfl
  | cons seg segs ih =>
    rw [List.forall_mem_cons] at h
    unfold firstWith at hnone
    split at hnone
    · contradiction
    · rename_i hprefix
      have hfirst : ¬ a :: pat <+: a :: (seg ++ joined a segs) := by
        rw [List.cons_prefix_cons, prefix_segment_iff hpat]
        exact fun hp => hprefix hp.2
      rw [joined_cons, find_cons_of_not_isPrefix hfirst, find_append_skip h.1, ih h.2 hnone]
      rfl

theorem find_joined_some (hpat : a ∉ pat) (h : ∀ s ∈ segs, a ∉ s) {text : List α} {behind : List (List α)}
    (hsome : firstWith pat segs = some (text, behind)) :
    a ∉ text ∧ ∃ before, joined a segs = before ++ a :: pat ++ text ++ joined a behind ∧
      find (a :: pat) (joined a segs) = some before.length := by
  induction segs with
  | nil => contradiction
  | cons seg segs ih =>
    rw [List.forall_mem_cons] at h
    unfold firstWith at hsome
    split at hsome
    · rename_i hprefix
      obtain ⟨rfl, rfl⟩ := Prod.mk.inj (Option.some.inj hsome)
      obtain ⟨t, rfl⟩ := hprefix
      rw [List.drop_left]
      refine ⟨fun hmem => h.1 (List.mem_append_right _ hmem), [], ?_, ?_⟩
      · rw [joined_cons, List.nil_append, List.cons_append, List.cons_append, List.append_assoc]
      · rw [joined_cons, List.append_assoc]
        exact find_of_isPrefix (List.prefix_append (a :: pat) _)
    · rename_i hprefix
      obtain ⟨htext, before, hjoined, hfind⟩ := ih h.2 hsome
      have hfirst : ¬ a :: pat <+: a :: (seg ++ joined a segs) := by
        rw [List.cons_prefix_cons, prefix_segment_iff hpat]
        exact fun hp => hprefix hp.2
      refine ⟨htext, a :: seg ++ before, ?_, ?_⟩
      · rw [joined_cons, hjoined]
        simp
      · rw [joined_cons, find_cons_of_not_isPrefix hfirst, find_append_skip h.1, hfind]
        simp only [Option.map_some, Option.some.injEq, List.length_append, List.length_cons]
        omega

end Segments

end Find
