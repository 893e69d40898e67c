import IopHal.Text

/-!
# Views of strings

The overloads of `to_view` find the length in three ways: a borrowed view has it, a `std::string` is scanned for its
terminator, and a vector is entered by way of its first element.  `faithful_iff` says which bytes they all show.
-/

namespace IopHal

/-- `vec.front()` -/
def front : Bytes → Outcome UInt8
  | [] => .undefined
  | c :: _ => .returned c

/-- `to_view` of a `std::vector<uint8_t>`: from the address of its first element on. -/
def toViewVector (vec : Bytes) : Outcome Bytes := (front vec).bind fun _ => .returned vec

/-- What `processResponse` logs of the payload of a success. -/
def loggedPayload (sign : CharSign) (payload : Bytes) : Outcome CowString :=
  (toViewVector payload).bind fun view =>
    .returned (scapeNonPrintable sign (view.take (if payload.length > 30 then 30 else payload.length)))

theorem toViewVector_of_ne_nil {vec : Bytes} (h : vec ≠ []) : toViewVector vec = .returned vec := by
  cases vec with
  | nil => contradiction
  | cons c vec => rfl

theorem toViewVector_undefined_iff {vec : Bytes} : toViewVector vec = .undefined ↔ vec = [] := by
  constructor
  · intro h
    by_contra hne
    rw [toViewVector_of_ne_nil hne] at h
    contradiction
  · rintro rfl
    rfl

theorem cview_eq_self_iff {s : Bytes} : cview s = s ↔ NUL ∉ s := by
  constructor
  · intro h hnul
    have hne := (List.takeWhile_eq_self_iff.1 h) NUL hnul
    simp at hne
  · exact cview_eq_self

/-- A payload is logged unless it is empty. -/
theorem loggedPayload_undefined_iff {sign : CharSign} {payload : Bytes} :
    loggedPayload sign payload = .undefined ↔ payload = [] := by
  rw [loggedPayload, Outcome.bind_eq_undefined_iff, toViewVector_undefined_iff]

/-- Every view of a container that holds `s` shows `s`, and none reads an element that is not there. -/
structure Faithful (s : Bytes) : Prop where
  string : toViewString s = s
  borrowed : toView (.view s) = s
  owned : toView (.string s) = s
  interchangeable : toView (.view s) = toView (.string s)
  vector : toViewVector s = .returned s
  /-- also when it is the payload of a success -/
  payload : ∀ sign, loggedPayload sign s ≠ .undefined

/-- The views are those of the bytes exactly if there are some, and none of them is NUL. -/
theorem faithful_iff {s : Bytes} : Faithful s ↔ s ≠ [] ∧ NUL ∉ s := by
  constructor
  · intro h
    constructor
    · rintro rfl
      exact h.payload .signed rfl
    · exact cview_eq_self_iff.1 h.string
  · rintro ⟨hne, hnul⟩
    have hview := cview_eq_self hnul
    refine ⟨hview, rfl, hview, hview.symm, toViewVector_of_ne_nil hne, fun sign h => ?_⟩
    exact hne (loggedPayload_undefined_iff.1 h)

/-- A string with a NUL in it is cut there, and the view of an empty vector reads an element. -/
theorem not_faithful_nul :
    toView (.string [97, 0, 98]) = [97] ∧ ¬ Faithful [97, 0, 98] ∧ toViewVector [] = .undefined ∧ ¬ Faithful [] := by
  refine ⟨rfl, fun h => ?_, rfl, fun h => ?_⟩
  · exact absurd h.string (by decide)
  · exact absurd h.vector (by decide)

end IopHal
