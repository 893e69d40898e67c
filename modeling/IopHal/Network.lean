import IopHal.Response
import IopHal.Text.Views

/-!
# `processResponse`

What `Network` makes of the response that a session has brought back: errors are boiled down to their code, a firmware
version other than the device's calls the update hook, and only a success keeps its payload.  The log lines are left
out, but not the view of the payload that is made for one of them.  `processResponse_preserves_iff` says which responses
come through it with what they were built from.
-/

namespace IopHal

/-- How `processResponse` ends, and whether it has called `schedule` on the update hook. -/
structure Processed where
  response : Outcome Response
  scheduled : Bool
  deriving DecidableEq

/-- The server has a firmware other than the one with this hash. -/
def offersUpdate (firmwareMD5 : Bytes) (response : Response) : Bool :=
  match response.header ⟨ascii "LATEST_VERSION", by decide⟩ with
  | some update => update ≠ firmwareMD5
  | none => false

def processResponse (firmwareMD5 : Bytes) (response : Response) : Processed :=
  match response.status with
  | none => ⟨.returned (.ofCode response.code), false⟩
  | some .ioError => ⟨.returned (.ofCode response.code), false⟩
  | some status =>
    if status = .ok then
      -- the view is made whether or not the line with the payload is printed
      ⟨(toViewVector response.promise).bind fun _ => .returned (.ofPayload response.promise status),
        offersUpdate firmwareMD5 response⟩
    else ⟨.returned (.ofCode response.code), offersUpdate firmwareMD5 response⟩

section Cases

variable (firmwareMD5 : Bytes) {response : Response}

/-- A success goes through the view of its payload. -/
theorem processResponse_of_ok (h : response.status = some .ok) :
    (processResponse firmwareMD5 response).response =
      (toViewVector response.promise).bind fun _ => .returned (.ofPayload response.promise .ok) := by
  unfold processResponse
  rw [h]
  rfl

/-- A success keeps its payload. -/
theorem processResponse_ok (h : response.status = some .ok) (hpayload : response.promise ≠ []) :
    (processResponse firmwareMD5 response).response = .returned (.ofPayload response.promise .ok) := by
  rw [processResponse_of_ok firmwareMD5 h, toViewVector_of_ne_nil hpayload]
  rfl

/-- A success without a payload has no first element to view. -/
theorem processResponse_empty (h : response.status = some .ok) (hpayload : response.promise = []) :
    (processResponse firmwareMD5 response).response = .undefined := by
  rw [processResponse_of_ok firmwareMD5 h, hpayload]
  rfl

/-- Anything else is boiled down to its code. -/
theorem processResponse_of_not_ok (h : response.status ≠ some .ok) :
    (processResponse firmwareMD5 response).response = .returned (.ofCode response.code) := by
  unfold processResponse
  split
  · rfl
  · rfl
  · rename_i status _ hstatus
    have hne : status ≠ .ok := by
      rintro rfl
      exact h hstatus
    rw [if_neg hne]

theorem processResponse_cases (response : Response) :
    (∃ processed, (processResponse firmwareMD5 response).response = .returned processed) ∨
      (processResponse firmwareMD5 response).response = .undefined := by
  by_cases hok : response.status = some .ok
  · by_cases hpayload : response.promise = []
    · exact Or.inr (processResponse_empty firmwareMD5 hok hpayload)
    · exact Or.inl ⟨_, processResponse_ok firmwareMD5 hok hpayload⟩
  · exact Or.inl ⟨_, processResponse_of_not_ok firmwareMD5 hok⟩

end Cases

theorem networkStatus_eq_ok_iff {code : Int} : networkStatus code = some .ok ↔ code = 200 := by
  unfold networkStatus
  split
  · exact iff_of_true rfl ‹_›
  · rename_i hne
    apply iff_of_false _ hne
    split
    · decide
    · split <;> decide

/-- What is no success does not come back as one, unless it has been given a code that belies its status. -/
theorem processResponse_not_ok (firmwareMD5 : Bytes) {response r : Response} (h : response.status ≠ some .ok)
    (hcode : response.code ≠ 200) (hr : (processResponse firmwareMD5 response).response = .returned r) :
    r.status ≠ some .ok := by
  rw [processResponse_of_not_ok firmwareMD5 h, Outcome.returned.injEq] at hr
  rw [← hr]
  exact fun hok => hcode (networkStatus_eq_ok_iff.1 hok)

/-! ### What comes through -/

/-- A call of one of the constructors of `Response`. -/
inductive Construction
  | ofPayload (payload : Bytes) (status : NetworkStatus)
  | ofHeaders (headers : Headers) (payload : Bytes) (code : Int)
  | ofCode (code : Int)
  | ofStatus (status : NetworkStatus)

def Construction.build : Construction → Response
  | ofPayload payload status => .ofPayload payload status
  | ofHeaders headers payload code => .ofHeaders headers payload code
  | ofCode code => .ofCode code
  | ofStatus status => .ofStatus status

/-- The number of the code or the status that a response is built from. -/
def Construction.number : Construction → Int
  | ofPayload _ status => status.value
  | ofHeaders _ _ code => code
  | ofCode code => code
  | ofStatus status => status.value

/-- The response says of the exchange what the construction was given. -/
structure Construction.Says (c : Construction) (r : Response) : Prop where
  status : r.status = c.build.status
  code : r.code = c.number
  payload : c.build.status = some .ok → r.promise = c.build.promise

/-- What `processResponse` returns says of the exchange what the response said. -/
def Preserved (firmwareMD5 : Bytes) (c : Construction) : Prop :=
  ∃ r, (processResponse firmwareMD5 c.build).response = .returned r ∧ c.Says r

section Preserved

variable {firmwareMD5 : Bytes} {c : Construction}

/-- A success is preserved as far as its payload has a first element. -/
theorem preserved_ok_iff (h : c.build.status = some .ok) (hcode : c.number = 200) :
    Preserved firmwareMD5 c ↔ c.build.promise ≠ [] := by
  constructor
  · rintro ⟨r, hr, -⟩ hpayload
    rw [processResponse_empty firmwareMD5 h hpayload] at hr
    contradiction
  · intro hpayload
    exact ⟨_, processResponse_ok firmwareMD5 h hpayload, h.symm, hcode.symm, fun _ => rfl⟩

/-- Anything else is preserved if its code stands for its status. -/
theorem preserved_not_ok_iff (h : c.build.status ≠ some .ok) :
    Preserved firmwareMD5 c ↔ networkStatus c.build.code = c.build.status ∧ c.build.code = c.number := by
  constructor
  · rintro ⟨r, hr, hstated⟩
    rw [processResponse_of_not_ok firmwareMD5 h, Outcome.returned.injEq] at hr
    subst hr
    exact ⟨hstated.status, hstated.code⟩
  · rintro ⟨hstatus, hcode⟩
    exact ⟨_, processResponse_of_not_ok firmwareMD5 h, hstatus, hcode, fun hok => absurd hok h⟩

/-- A status other than success does not come back from the byte that it is kept in. -/
theorem networkStatus_byte {status : NetworkStatus} (h : status ≠ .ok) :
    networkStatus (status.value % 2 ^ 8 : Nat) ≠ some status := by
  cases status <;> first | exact absurd rfl h | decide

end Preserved

/-- A response comes through with its status, the number it was built from and its payload, unless it was built from a
status that is no success, or is a success without a payload.  The former comes back as a code that stands for no status,
and the latter is viewed from an element that it does not have. -/
theorem processResponse_preserves_iff (firmwareMD5 : Bytes) (c : Construction) :
    Preserved firmwareMD5 c ↔
      (∀ status, (c = .ofStatus status ∨ ∃ payload, c = .ofPayload payload status) → status = .ok) ∧
        (c.build.status = some .ok → c.build.promise ≠ []) := by
  -- a response that is built from a status
  have hofStatus : ∀ status payload, c.build = ⟨[], payload, (status.value % 2 ^ 8 : Nat), some status⟩ →
      c.number = status.value → (Preserved firmwareMD5 c ↔
        status = .ok ∧ (c.build.status = some .ok → c.build.promise ≠ [])) := by
    intro status payload hbuild hnumber
    by_cases hok : status = .ok
    · subst hok
      have hstatus : c.build.status = some .ok := by rw [hbuild]
      rw [preserved_ok_iff hstatus hnumber]
      exact ⟨fun hne => ⟨rfl, fun _ => hne⟩, fun h => h.2 hstatus⟩
    · have hstatus : c.build.status ≠ some .ok := by
        rw [hbuild]
        exact fun h => hok (Option.some.inj h)
      rw [preserved_not_ok_iff hstatus]
      apply iff_of_false
      · rw [hbuild]
        exact fun h => networkStatus_byte hok h.1
      · exact fun h => hok h.1
  -- a response that is built from a code
  have hofCode : c.build.status = networkStatus c.build.code → c.build.code = c.number →
      (Preserved firmwareMD5 c ↔ (c.build.status = some .ok → c.build.promise ≠ [])) := by
    intro hstatus hcode
    by_cases hok : c.build.status = some .ok
    · have hnumber : c.build.code = 200 := networkStatus_eq_ok_iff.1 (hstatus ▸ hok)
      rw [preserved_ok_iff hok (hcode ▸ hnumber)]
      exact ⟨fun h _ => h, fun h => h hok⟩
    · rw [preserved_not_ok_iff hok]
      exact iff_of_true ⟨hstatus.symm, hcode⟩ fun h => absurd h hok
  cases c with
  | ofPayload payload status =>
    rw [hofStatus status payload rfl rfl]
    simp
  | ofHeaders headers payload code =>
    rw [hofCode rfl rfl]
    simp
  | ofCode code =>
    rw [hofCode rfl rfl]
    simp
  | ofStatus status =>
    rw [hofStatus status [] rfl rfl]
    simp

/-- An I/O error comes back without a status. -/
theorem processResponse_ioError : ¬ Preserved [] (.ofStatus .ioError) := by
  rintro ⟨r, hr, hstated⟩
  rw [processResponse_of_not_ok [] (by decide), Outcome.returned.injEq] at hr
  have hstatus := hstated.status
  rw [← hr] at hstatus
  exact absurd hstatus (by decide)

end IopHal
