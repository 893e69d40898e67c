import Mathlib

/-!
# Runs of a system

A system makes a step if an action is possible in its state.  `run` carries out some actions one after the other.  What
every step keeps is kept by every run (`run_invariant`).  If nothing but a final state stops the system, each run can be
carried on to a final state (`exists_run_final`).
-/

namespace Transitions

variable {σ α : Type*} {step : σ → α → Option σ} {s t : σ}

/-- The state behind some actions, if all of them are possible. -/
def run (step : σ → α → Option σ) : σ → List α → Option σ
  | s, [] => some s
  | s, a :: actions => (step s a).bind fun t => run step t actions

@[simp] theorem run_nil (s : σ) : run step s [] = some s := rfl

theorem run_cons (s : σ) (a : α) (actions : List α) :
    run step s (a :: actions) = (step s a).bind fun t => run step t actions := rfl

theorem run_append (s : σ) (actions more : List α) :
    run step s (actions ++ more) = (run step s actions).bind fun t => run step t more := by
  induction actions generalizing s with
  | nil => rfl
  | cons a actions ih =>
    rw [List.cons_append, run_cons, run_cons, Option.bind_assoc]
    congr 1
    funext t
    exact ih t

theorem run_append_some {actions : List α} (h : run step s actions = some t) (more : List α) :
    run step s (actions ++ more) = run step t more := by
  rw [run_append, h, Option.bind_some]

theorem run_cons_some {a : α} (h : step s a = some t) (actions : List α) :
    run step s (a :: actions) = run step t actions := by
  rw [run_cons, h, Option.bind_some]

/-- What every step with an action of one kind keeps holds behind every run of such actions. -/
theorem run_invariant_of (kind : α → Prop) {invariant : σ → Prop}
    (hstep : ∀ s a t, kind a → invariant s → step s a = some t → invariant t) {actions : List α}
    (hall : ∀ a ∈ actions, kind a) (hs : invariant s) (h : run step s actions = some t) : invariant t := by
  induction actions generalizing s with
  | nil => exact Option.some.inj h ▸ hs
  | cons a actions ih =>
    obtain ⟨u, hu, hrest⟩ := Option.bind_eq_some_iff.1 h
    obtain ⟨ha, hall⟩ := List.forall_mem_cons.1 hall
    exact ih hall (hstep s a u ha hs hu) hrest

/-- What every step keeps holds behind every run. -/
theorem run_invariant {invariant : σ → Prop} (hstep : ∀ s a t, invariant s → step s a = some t → invariant t)
    {actions : List α} (hs : invariant s) (h : run step s actions = some t) : invariant t :=
  run_invariant_of (fun _ => True) (fun s a t _ => hstep s a t) (fun _ _ => trivial) hs h

/-- What every step keeps of the actions so far and the state holds of each run and the state behind it. -/
theorem run_invariant_history {invariant : List α → σ → Prop}
    (hstep : ∀ seen s a t, invariant seen s → step s a = some t → invariant (seen ++ [a]) t) {seen actions : List α}
    (hs : invariant seen s) (h : run step s actions = some t) : invariant (seen ++ actions) t := by
  induction actions generalizing s seen with
  | nil =>
    rw [← Option.some.inj h, List.append_nil]
    exact hs
  | cons a actions ih =>
    obtain ⟨u, hu, hrest⟩ := Option.bind_eq_some_iff.1 h
    rw [List.append_cons]
    exact ih (hstep seen s a u hs hu) hrest

/-- Where only a final state stops the system, a final state is reached. -/
theorem exists_run_final (invariant final : σ → Prop) (measure : σ → ℕ)
    (hkeep : ∀ s a t, invariant s → step s a = some t → invariant t)
    (hprogress : ∀ s, invariant s → ¬ final s → ∃ a t, step s a = some t ∧ measure t < measure s) (hs : invariant s) :
    ∃ actions t, run step s actions = some t ∧ final t := by
  induction hn : measure s using Nat.strong_induction_on generalizing s with
  | _ n ih =>
    by_cases hfinal : final s
    · exact ⟨[], s, rfl, hfinal⟩
    · obtain ⟨a, u, hu, hlt⟩ := hprogress s hs hfinal
      obtain ⟨actions, t, hrun, ht⟩ := ih (measure u) (by omega) (hkeep s a u hs hu) rfl
      exact ⟨a :: actions, t, by rw [run_cons_some hu, hrun], ht⟩

end Transitions
