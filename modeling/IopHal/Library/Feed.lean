import Mathlib

/-!
# Machines fed with answers

A loop that asks its surroundings for something in every round (the next read of a socket, the outcome of the next
system call) is a step function `step : σ → ι → Except ρ σ`: from the state at the top of the loop and the answer it
gets, a round leads to the next state or leaves the loop with a result.  `feed step s is` runs it over the answers
`is`; the value is `ok` when the loop still asks for more.

* (`feed_append`) a run over `is ++ js` goes on from where the run over `is` stands;
* (`feed_error_iff`, `feed_error_unique`) a run that leaves the loop does so in one round, reached by a prefix of the
  answers;
* (`feed_invariant`) what the start has and every round preserves holds of every state reached;
* (`feed_simulates`) two machines whose rounds correspond have corresponding runs.
-/

namespace Feed

variable {σ σ' ι ρ : Type*}

/-- Run a loop over the answers it is given. -/
def feed (step : σ → ι → Except ρ σ) (s : σ) (is : List ι) : Except ρ σ :=
  is.foldlM step s

@[simp] theorem feed_nil (step : σ → ι → Except ρ σ) (s : σ) : feed step s [] = .ok s := rfl

theorem feed_cons (step : σ → ι → Except ρ σ) (s : σ) (i : ι) (is : List ι) :
    feed step s (i :: is) = (step s i).bind fun t => feed step t is := by
  simp [feed, List.foldlM_cons, bind]

theorem feed_cons_ok {step : σ → ι → Except ρ σ} {s t : σ} {i : ι} (h : step s i = .ok t) (is : List ι) :
    feed step s (i :: is) = feed step t is := by
  rw [feed_cons, h]; rfl

theorem feed_cons_error {step : σ → ι → Except ρ σ} {s : σ} {r : ρ} {i : ι} (h : step s i = .error r)
    (is : List ι) : feed step s (i :: is) = .error r := by
  rw [feed_cons, h]; rfl

theorem feed_singleton (step : σ → ι → Except ρ σ) (s : σ) (i : ι) : feed step s [i] = step s i := by
  rw [feed_cons]
  cases step s i <;> rfl

/-- A run over `is ++ js` goes on from where the run over `is` stands. -/
theorem feed_append (step : σ → ι → Except ρ σ) (s : σ) (is js : List ι) :
    feed step s (is ++ js) = (feed step s is).bind fun t => feed step t js := by
  simp [feed, List.foldlM_append, bind]

theorem feed_append_ok {step : σ → ι → Except ρ σ} {s t : σ} {is : List ι} (h : feed step s is = .ok t)
    (js : List ι) : feed step s (is ++ js) = feed step t js := by
  rw [feed_append, h]; rfl

/-- A run leaves the loop in one round, reached by a prefix of the answers. -/
theorem feed_error_iff {step : σ → ι → Except ρ σ} {s : σ} {is : List ι} {r : ρ} :
    feed step s is = .error r ↔
      ∃ pre i post t, is = pre ++ i :: post ∧ feed step s pre = .ok t ∧ step t i = .error r := by
  constructor
  · intro h
    induction is generalizing s with
    | nil => simp at h
    | cons i is ih =>
      cases hs : step s i with
      | error e =>
        rw [feed_cons_error hs] at h
        exact ⟨[], i, is, s, rfl, rfl, by rw [hs]; exact h⟩
      | ok t =>
        rw [feed_cons_ok hs] at h
        obtain ⟨pre, j, post, u, rfl, hpre, hu⟩ := ih h
        exact ⟨i :: pre, j, post, u, rfl, by rw [feed_cons_ok hs]; exact hpre, hu⟩
  · rintro ⟨pre, i, post, t, rfl, hpre, ht⟩
    rw [feed_append_ok hpre, feed_cons_error ht]

/-- There is only one round in which a run can leave the loop. -/
theorem feed_error_unique {step : σ → ι → Except ρ σ} {s t t' : σ} {pre pre' post post' : List ι} {i i' : ι} {r r' : ρ}
    (h : pre ++ i :: post = pre' ++ i' :: post') (hpre : feed step s pre = .ok t) (hi : step t i = .error r)
    (hpre' : feed step s pre' = .ok t') (hi' : step t' i' = .error r') : pre = pre' ∧ i = i' := by
  rcases List.append_eq_append_iff.1 h with ⟨is, rfl, his⟩ | ⟨is, rfl, his⟩
  · cases is with
    | nil => exact ⟨by simp, (List.cons.inj his).1⟩
    | cons j is =>
      obtain ⟨rfl, -⟩ := List.cons.inj his
      rw [feed_append_ok hpre, feed_cons_error hi] at hpre'
      cases hpre'
  · cases is with
    | nil => exact ⟨by simp, (List.cons.inj his).1.symm⟩
    | cons j is =>
      obtain ⟨rfl, -⟩ := List.cons.inj his
      rw [feed_append_ok hpre', feed_cons_error hi'] at hpre
      cases hpre

/-- What the start has and every round preserves holds of every state reached. -/
theorem feed_invariant {step : σ → ι → Except ρ σ} {I : σ → Prop}
    (hstep : ∀ s i t, I s → step s i = .ok t → I t) {s t : σ} {is : List ι} (hs : I s)
    (h : feed step s is = .ok t) : I t := by
  induction is generalizing s with
  | nil => simp only [feed_nil, Except.ok.injEq] at h; exact h ▸ hs
  | cons i is ih =>
    cases hi : step s i with
    | error e => simp [feed_cons_error hi] at h
    | ok u => rw [feed_cons_ok hi] at h; exact ih (hstep s i u hs hi) h

/-- A loop whose results are renamed. -/
theorem feed_mapError {ρ' : Type*} (f : ρ → ρ') (step : σ → ι → Except ρ σ) (s : σ) (is : List ι) :
    feed (fun s i => (step s i).mapError f) s is = (feed step s is).mapError f := by
  induction is generalizing s with
  | nil => rfl
  | cons i is ih =>
    rw [feed_cons, feed_cons]
    cases step s i with
    | error r => rfl
    | ok t => exact ih t

/-- Corresponding outcomes of one round: both go on, in related states, or both leave with the same result. -/
def Match (R : σ → σ' → Prop) : Except ρ σ → Except ρ σ' → Prop
  | .ok s, .ok t => R s t
  | .error r, .error r' => r = r'
  | _, _ => False

theorem eq_of_match {R : σ → σ → Prop} (h : ∀ s t, R s t → s = t) {x y : Except ρ σ} (hmatch : Match R x y) : x = y := by
  cases x with
  | error r =>
    cases y with
    | error r' => exact congrArg Except.error hmatch
    | ok t => exact hmatch.elim
  | ok s =>
    cases y with
    | error r' => exact hmatch.elim
    | ok t => exact congrArg Except.ok (h s t hmatch)

theorem error_of_match {R : σ → σ' → Prop} {x : Except ρ σ} {r : ρ} (hmatch : Match R x (.error r)) : x = .error r := by
  cases x with
  | error r' => exact congrArg Except.error hmatch
  | ok s => exact hmatch.elim

/-- Two machines whose rounds correspond have corresponding runs. -/
theorem feed_simulates {step : σ → ι → Except ρ σ} {step' : σ' → ι → Except ρ σ'} {R : σ → σ' → Prop}
    (hstep : ∀ s t i, R s t → Match R (step s i) (step' t i)) {s : σ} {t : σ'} (h : R s t) (is : List ι) :
    Match R (feed step s is) (feed step' t is) := by
  induction is generalizing s t with
  | nil => exact h
  | cons i is ih =>
    have hi := hstep s t i h
    cases hs : step s i with
    | error r =>
      cases ht : step' t i with
      | error r' => rw [feed_cons_error hs, feed_cons_error ht]; rwa [hs, ht] at hi
      | ok t' => rw [hs, ht] at hi; exact hi.elim
    | ok s' =>
      cases ht : step' t i with
      | error r' => rw [hs, ht] at hi; exact hi.elim
      | ok t' => rw [feed_cons_ok hs, feed_cons_ok ht]; rw [hs, ht] at hi; exact ih hi

end Feed
