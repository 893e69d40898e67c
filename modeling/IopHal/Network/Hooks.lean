import IopHal.Network

/-!
# The update hook

The hook of `Network` is one for the whole process: `setUpdateHook` and `takeUpdateHook` change it, and `processResponse`
calls `schedule` on it.  A hook is an element of any type, here a function of the source.  `schedules_iff` compares what
is called in a run with what the server has asked for: they differ where the code of a response stands for no status,
since the header is not looked at then.
-/

namespace IopHal

variable {H : Type}

inductive NetworkCall (H : Type)
  | setUpdateHook (scheduler : H)
  | takeUpdateHook
  /-- An HTTP exchange that has brought back a response. -/
  | exchange (firmwareMD5 : Bytes) (response : Construction)

def setUpdateHook (_hook scheduler : H) : H := scheduler

/-- The hook that is handed out, and the one that is left. -/
def takeUpdateHook (defaultHook hook : H) : H × H := (hook, defaultHook)

/-- The hook behind a call, and the hooks on which `schedule` was called. -/
def NetworkCall.perform (defaultHook hook : H) : NetworkCall H → H × List H
  | setUpdateHook scheduler => (IopHal.setUpdateHook hook scheduler, [])
  | takeUpdateHook => ((IopHal.takeUpdateHook defaultHook hook).2, [])
  | exchange firmwareMD5 response =>
    (hook, if (processResponse firmwareMD5 response.build).scheduled then [hook] else [])

/-- The hook behind the calls of a process, which begins with the default one. -/
def hookAfter (defaultHook : H) (calls : List (NetworkCall H)) : H :=
  calls.foldl (fun hook call => (call.perform defaultHook hook).1) defaultHook

/-! ### What the server asks for -/

/-- The hook that a call installs, if it does. -/
def NetworkCall.installs (defaultHook : H) : NetworkCall H → Option H
  | setUpdateHook scheduler => some scheduler
  | takeUpdateHook => some defaultHook
  | exchange _ _ => none

/-- The last hook that was installed; before any, the default one. -/
def installed (defaultHook : H) (past : List (NetworkCall H)) : H :=
  (past.reverse.findSome? (NetworkCall.installs defaultHook)).getD defaultHook

theorem versionKey_terminated : NUL ∉ ascii "LATEST_VERSION" := by decide

/-- The key that `processResponse` looks for. -/
def versionKey : StaticString := ⟨ascii "LATEST_VERSION", versionKey_terminated⟩

/-- The response carries a `LATEST_VERSION` other than the hash of the firmware. -/
def NetworkCall.Offers : NetworkCall H → Prop
  | exchange firmwareMD5 response =>
    ∃ update, response.build.header versionKey = some update ∧ update ≠ firmwareMD5
  | _ => False

theorem hookAfter_append (defaultHook : H) (past : List (NetworkCall H)) (call : NetworkCall H) :
    hookAfter defaultHook (past ++ [call]) = (call.perform defaultHook (hookAfter defaultHook past)).1 := by
  unfold hookAfter
  rw [List.foldl_append]
  rfl

/-- The hook of the process is the one installed last. -/
theorem hookAfter_eq (defaultHook : H) (past : List (NetworkCall H)) :
    hookAfter defaultHook past = installed defaultHook past := by
  induction past using List.reverseRecOn with
  | nil => rfl
  | append_singleton past call ih =>
    rw [hookAfter_append, installed, List.reverse_concat, List.findSome?_cons]
    cases call with
    | setUpdateHook scheduler => rfl
    | takeUpdateHook => rfl
    | exchange firmwareMD5 response => exact ih

/-! ### What is called -/

theorem offersUpdate_iff {firmwareMD5 : Bytes} {c : Construction} :
    offersUpdate firmwareMD5 c.build ↔ (NetworkCall.exchange firmwareMD5 c : NetworkCall H).Offers := by
  have hkey : c.build.header ⟨ascii "LATEST_VERSION", versionKey_terminated⟩ = c.build.header versionKey := rfl
  rw [NetworkCall.Offers, offersUpdate, hkey]
  cases c.build.header versionKey with
  | none => simp
  | some update => simp

/-- Only a response from a server has headers, and its status is the one of its code. -/
theorem status_of_offers {firmwareMD5 : Bytes} {c : Construction} (h : offersUpdate firmwareMD5 c.build) :
    c.build.status = networkStatus c.number := by
  cases c with
  | ofHeaders headers payload code => rfl
  | ofCode code => rfl
  | ofPayload payload status =>
    have hnone : offersUpdate firmwareMD5 (Construction.ofPayload payload status).build = false := rfl
    rw [hnone] at h
    cases h
  | ofStatus status =>
    have hnone : offersUpdate firmwareMD5 (Construction.ofStatus status).build = false := rfl
    rw [hnone] at h
    cases h

/-- The header is looked at only behind one of three codes. -/
theorem scheduled_iff {firmwareMD5 : Bytes} {c : Construction} (h : offersUpdate firmwareMD5 c.build) :
    (processResponse firmwareMD5 c.build).scheduled = true ↔ c.number = 200 ∨ c.number = 500 ∨ c.number = 401 := by
  unfold processResponse
  rw [status_of_offers h, networkStatus, h]
  by_cases hok : c.number = 200
  · rw [if_pos hok]
    exact iff_of_true rfl (.inl hok)
  · by_cases hbroken : c.number = 500
    · rw [if_neg hok, if_pos hbroken]
      exact iff_of_true rfl (.inr (.inl hbroken))
    · by_cases hunauthorized : c.number = 401
      · rw [if_neg hok, if_neg hbroken, if_pos hunauthorized]
        exact iff_of_true rfl (.inr (.inr hunauthorized))
      · rw [if_neg hok, if_neg hbroken, if_neg hunauthorized]
        apply iff_of_false Bool.false_ne_true
        rintro (h | h | h)
        · exact hok h
        · exact hbroken h
        · exact hunauthorized h

/-- Without an update nothing is scheduled. -/
theorem not_scheduled {firmwareMD5 : Bytes} {r : Response} (h : offersUpdate firmwareMD5 r = false) :
    (processResponse firmwareMD5 r).scheduled = false := by
  unfold processResponse
  split
  · rfl
  · rfl
  · split
    · exact h
    · exact h

/-- The hooks on which a call of a run calls `schedule`. -/
def NetworkCall.called (defaultHook : H) (past : List (NetworkCall H)) (call : NetworkCall H) : List H :=
  (call.perform defaultHook (hookAfter defaultHook past)).2

/-- If the server offers an update, the hook that is installed then is called once, and otherwise none. -/
structure NetworkCall.Answered (defaultHook : H) (past : List (NetworkCall H)) (call : NetworkCall H) : Prop where
  offered : call.Offers → call.called defaultHook past = [installed defaultHook past]
  otherwise : ¬ call.Offers → call.called defaultHook past = []

section Answered

variable {defaultHook : H} {past : List (NetworkCall H)}

theorem called_exchange (firmwareMD5 : Bytes) (c : Construction) :
    (NetworkCall.exchange firmwareMD5 c).called defaultHook past =
      if (processResponse firmwareMD5 c.build).scheduled then [installed defaultHook past] else [] := by
  rw [← hookAfter_eq]
  rfl

/-- The default hook is called like any other. -/
theorem answered_exchange_iff (firmwareMD5 : Bytes) (c : Construction) :
    (NetworkCall.exchange firmwareMD5 c).Answered defaultHook past ↔
      (offersUpdate firmwareMD5 c.build → c.number = 200 ∨ c.number = 500 ∨ c.number = 401) := by
  have hoffers : offersUpdate firmwareMD5 c.build ↔ (NetworkCall.exchange firmwareMD5 c : NetworkCall H).Offers :=
    offersUpdate_iff
  constructor
  · intro h hupdate
    rw [← scheduled_iff hupdate]
    by_contra hnot
    have hcalled := h.offered (hoffers.1 hupdate)
    rw [called_exchange, if_neg hnot] at hcalled
    cases hcalled
  · intro h
    refine ⟨fun hupdate => ?_, fun hupdate => ?_⟩
    · rw [← hoffers] at hupdate
      rw [called_exchange, if_pos ((scheduled_iff hupdate).2 (h hupdate))]
    · rw [← hoffers, Bool.not_eq_true] at hupdate
      rw [called_exchange, not_scheduled hupdate]
      rfl

/-- Hooks are only called by exchanges. -/
theorem answered_of_not_exchange {call : NetworkCall H} (h : ∀ firmwareMD5 c, call ≠ .exchange firmwareMD5 c) :
    call.Answered defaultHook past := by
  cases call with
  | setUpdateHook scheduler => exact ⟨False.elim, fun _ => rfl⟩
  | takeUpdateHook => exact ⟨False.elim, fun _ => rfl⟩
  | exchange firmwareMD5 c => exact absurd rfl (h firmwareMD5 c)

end Answered

/-- In a run of a process, every exchange with a response that offers an update calls `schedule` once, on the hook that was
installed last, and no other call of the run does, exactly if the code of each such response is 200, 500 or 401. -/
theorem schedules_iff (defaultHook : H) (calls : List (NetworkCall H)) :
    (∀ past call rest, calls = past ++ call :: rest → call.Answered defaultHook past) ↔
      ∀ firmwareMD5 c, .exchange firmwareMD5 c ∈ calls → offersUpdate firmwareMD5 c.build →
        c.number = 200 ∨ c.number = 500 ∨ c.number = 401 := by
  constructor
  · intro h firmwareMD5 c hmem
    obtain ⟨past, rest, hcalls⟩ := List.append_of_mem hmem
    exact (answered_exchange_iff firmwareMD5 c).1 (h past _ rest hcalls)
  · intro h past call rest hcalls
    have hmem : call ∈ calls := by
      rw [hcalls]
      exact List.mem_append_right _ List.mem_cons_self
    cases call with
    | setUpdateHook scheduler => exact answered_of_not_exchange fun _ _ => nofun
    | takeUpdateHook => exact answered_of_not_exchange fun _ _ => nofun
    | exchange firmwareMD5 c => exact (answered_exchange_iff firmwareMD5 c).2 (h firmwareMD5 c hmem)

/-- The server answers 404 and offers an update. -/
theorem not_scheduled_404 :
    ¬ ∀ (past : List (NetworkCall Bool)) (call : NetworkCall Bool) (rest : List (NetworkCall Bool)),
      [.setUpdateHook true, .exchange (ascii "b") (.ofHeaders [(ascii "latest_version", ascii "a")] [] 404)] =
          past ++ call :: rest →
        call.Answered false past := by
  intro h
  have hanswered := h [.setUpdateHook true] _ [] rfl
  have hoffers : offersUpdate (ascii "b")
      (Construction.ofHeaders [(ascii "latest_version", ascii "a")] [] 404).build = true := by
    decide
  have hcode := (answered_exchange_iff _ _).1 hanswered hoffers
  revert hcode
  decide

end IopHal
