import IopHal.Bytes
import IopHal.Library.Signal

/-!
# `GPIO`

On Linux a pin is a file, and its interrupts are found by a thread that reads it again and again
(`setInterruptCallback`).  The thread is followed over any number of passes of its loop.  `callbacks_spec` says how often
it calls back and how the callbacks for the two directions lie.
-/

namespace IopHal.GPIO

open Signal

inductive Data
  | low
  | high
  deriving DecidableEq

inductive InterruptState
  | rising
  | falling
  | change
  deriving DecidableEq

/-- `file >> tmp` -/
def word (content : Bytes) : Bytes := (content.dropWhile isspace).takeWhile fun c => !isspace c

/-- The content of the file of the pin, if it can be opened. -/
def digitalRead (pin : UInt16) (file : Option Bytes) : Outcome Data :=
  match file with
  | none => .panicked (ascii "Unable to read from GPIO: " ++ toDecimal pin.toNat)
  | some content => .returned (if word content = ascii "0" then .low else .high)

/-- How often `func` is called in one pass of the loop. -/
def callbacks (state : InterruptState) (lastValue value : Data) : Nat :=
  match state with
  | .change =>
    (if lastValue = .low ∧ value = .high then 1 else 0) + (if lastValue = .high ∧ value = .low then 1 else 0)
  | .rising => if lastValue = .low ∧ value = .high then 1 else 0
  | .falling => if lastValue = .high ∧ value = .low then 1 else 0

/-- The loop of the thread: the calls of its passes, in their order.  It goes on as long as the file can be read. -/
def watch (pin : UInt16) (state : InterruptState) (lastValue : Data) : List (Option Bytes) → Outcome (List Nat)
  | [] => .returned []
  | file :: files =>
    (digitalRead pin file).bind fun value =>
      (watch pin state value files).bind fun later => .returned (callbacks state lastValue value :: later)

/-- The thread, over what the file of the pin holds each time that it is read. -/
def setInterruptCallback (pin : UInt16) (state : InterruptState) : List (Option Bytes) → Outcome (List Nat)
  | [] => .returned []
  | file :: files => (digitalRead pin file).bind fun lastValue => watch pin state lastValue files

/-! ### Samples -/

/-- The samples that are read. -/
def samplesOf (pin : UInt16) : List (Option Bytes) → Outcome (List Data)
  | [] => .returned []
  | file :: files =>
    (digitalRead pin file).bind fun value => (samplesOf pin files).bind fun samples => .returned (value :: samples)

/-- The loop on samples. -/
def poll (state : InterruptState) (lastValue : Data) : List Data → List Nat
  | [] => []
  | value :: samples => callbacks state lastValue value :: poll state value samples

/-- The calls that the thread makes on the samples it has read. -/
def passes (state : InterruptState) : List Data → List Nat
  | [] => []
  | lastValue :: samples => poll state lastValue samples

theorem watch_eq (pin : UInt16) (state : InterruptState) (lastValue : Data) (files : List (Option Bytes)) :
    watch pin state lastValue files =
      (samplesOf pin files).bind fun samples => .returned (poll state lastValue samples) := by
  induction files generalizing lastValue with
  | nil => rfl
  | cons file files ih =>
    rw [watch, samplesOf]
    cases digitalRead pin file with
    | returned value =>
      simp only [Outcome.bind_returned, ih]
      cases samplesOf pin files <;> rfl
    | _ => rfl

/-- The thread sees of the file what `digitalRead` makes of it. -/
theorem setInterruptCallback_eq (pin : UInt16) (state : InterruptState) (files : List (Option Bytes)) :
    setInterruptCallback pin state files = (samplesOf pin files).bind fun samples => .returned (passes state samples) := by
  cases files with
  | nil => rfl
  | cons file files =>
    rw [setInterruptCallback, samplesOf]
    cases digitalRead pin file with
    | returned lastValue =>
      simp only [Outcome.bind_returned, watch_eq]
      cases samplesOf pin files <;> rfl
    | _ => rfl

/-! ### Edges -/

def Data.isHigh (d : Data) : Bool := d = .high

/-- The edges at which `func` is called. -/
def edge : InterruptState → Data → Data → Bool
  | .rising => rise Data.isHigh
  | .falling => fall Data.isHigh
  | .change => fun a b => rise Data.isHigh a b || fall Data.isHigh a b

/-- `func` is called in the pass `i`. -/
def Fires (state : InterruptState) (samples : List Data) (i : Nat) : Prop :=
  ∃ n, (passes state samples)[i]? = some n ∧ 0 < n

/-- One pass calls back once or not at all. -/
theorem callbacks_eq (state : InterruptState) (lastValue value : Data) :
    callbacks state lastValue value = if edge state lastValue value then 1 else 0 := by
  cases state <;> cases lastValue <;> cases value <;> rfl

theorem sum_poll (state : InterruptState) (lastValue : Data) (samples : List Data) :
    (poll state lastValue samples).sum = count (edge state) (lastValue :: samples) := by
  induction samples generalizing lastValue with
  | nil => simp [poll]
  | cons value samples ih => simp [poll, ih, callbacks_eq]

theorem getElem?_poll (state : InterruptState) (lastValue : Data) (samples : List Data) (i : Nat) :
    (poll state lastValue samples)[i]? = (lastValue :: samples)[i]?.bind fun a => samples[i]?.map fun b => callbacks state a b := by
  induction samples generalizing lastValue i with
  | nil => cases i <;> simp [poll]
  | cons value samples ih =>
    cases i with
    | zero => simp [poll]
    | succ i => simp [poll, ih]

/-- The passes that call back are those behind an edge. -/
theorem fires_iff (state : InterruptState) (samples : List Data) (i : Nat) :
    Fires state samples i ↔ At (edge state) samples i := by
  cases samples with
  | nil => simp [Fires, At, passes]
  | cons lastValue samples =>
    unfold Fires At passes
    rw [getElem?_poll, List.getElem?_cons_succ]
    cases (lastValue :: samples)[i]? with
    | none => simp
    | some a =>
      cases samples[i]? with
      | none => simp
      | some b => cases hedge : edge state a b <;> simp [callbacks_eq, hedge]

/-- A change is a rise or a fall, and never both. -/
theorem count_change (samples : List Data) :
    count (edge .change) samples = count (edge .rising) samples + count (edge .falling) samples := by
  apply count_or
  intro a b h
  cases a <;> cases b <;> first | rfl | contradiction

/-- How often the thread has called back. -/
def calls (state : InterruptState) (samples : List Data) : Nat := (passes state samples).sum

theorem calls_eq (state : InterruptState) (samples : List Data) : calls state samples = count (edge state) samples := by
  cases samples with
  | nil => rfl
  | cons first samples => exact sum_poll state first samples

theorem calls_balance (first : Data) (samples : List Data) :
    calls .rising (first :: samples) + first.isHigh.toNat =
      calls .falling (first :: samples) + ((first :: samples).getLast (by simp)).isHigh.toNat := by
  rw [calls_eq, calls_eq]
  exact Signal.balance Data.isHigh first samples

/-- What the callbacks of the three states are on the same samples. -/
structure EdgeTriggered (samples : List Data) : Prop where
  /-- these are the calls of a thread that reads the samples -/
  thread : ∀ pin state files, samplesOf pin files = .returned samples →
    setInterruptCallback pin state files = .returned (passes state samples)
  rising : calls .rising samples = count (fun a b => a = .low ∧ b = .high) samples
  falling : calls .falling samples = count (fun a b => a = .high ∧ b = .low) samples
  change : calls .change samples = count (fun a b => a ≠ b) samples
  together : calls .change samples = calls .rising samples + calls .falling samples
  fallsBetween : ∀ i j, i < j → Fires .rising samples i → Fires .rising samples j →
    ∃ k, i < k ∧ k < j ∧ Fires .falling samples k
  risesBetween : ∀ i j, i < j → Fires .falling samples i → Fires .falling samples j →
    ∃ k, i < k ∧ k < j ∧ Fires .rising samples k
  close : calls .rising samples ≤ calls .falling samples + 1 ∧ calls .falling samples ≤ calls .rising samples + 1
  balance : ∀ first ∈ samples.head?, ∀ last ∈ samples.getLast?,
    (calls .rising samples : Int) - calls .falling samples = (last.isHigh.toNat : Int) - first.isHigh.toNat

/-- On any samples, `func` is called at the edges of its state and nowhere else.  Rises and falls make up the changes, they
alternate, and their numbers differ by what the first and the last sample differ by. -/
theorem callbacks_spec (samples : List Data) : EdgeTriggered samples := by
  have hcalls : ∀ state {R : Data → Data → Bool}, edge state = R → calls state samples = count R samples := by
    rintro state R rfl
    exact calls_eq state samples
  refine ⟨?_, hcalls .rising ?_, hcalls .falling ?_, hcalls .change ?_, ?_, ?_, ?_, ?_, ?_⟩
  · intro pin state files hsamples
    rw [setInterruptCallback_eq, hsamples]
    rfl
  · funext a b
    cases a <;> cases b <;> rfl
  · funext a b
    cases a <;> cases b <;> rfl
  · funext a b
    cases a <;> cases b <;> rfl
  · rw [calls_eq, calls_eq, calls_eq, count_change]
  · intro i j hij hi hj
    rw [fires_iff] at hi hj
    obtain ⟨k, hik, hkj, hfall⟩ := exists_fall hij hi hj
    exact ⟨k, hik, hkj, (fires_iff _ _ _).2 hfall⟩
  · intro i j hij hi hj
    rw [fires_iff] at hi hj
    obtain ⟨k, hik, hkj, hrise⟩ := exists_rise hij hi hj
    exact ⟨k, hik, hkj, (fires_iff _ _ _).2 hrise⟩
  · cases samples with
    | nil => decide
    | cons first samples =>
      have hbalance := calls_balance first samples
      have hfirst := Bool.toNat_le first.isHigh
      have hlast := Bool.toNat_le ((first :: samples).getLast (by simp)).isHigh
      omega
  · intro first hfirst last hlast
    cases samples with
    | nil => simp at hfirst
    | cons a samples =>
      have hbalance := calls_balance a samples
      simp only [List.head?_cons, Option.mem_def, Option.some.injEq] at hfirst
      rw [List.getLast?_eq_some_getLast (List.cons_ne_nil a samples), Option.mem_def, Option.some.injEq] at hlast
      subst hfirst hlast
      omega

end IopHal.GPIO
