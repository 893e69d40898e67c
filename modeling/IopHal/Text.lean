import IopHal.Bytes

/-!
# Printable text

`isPrintable`, `isAllPrintable` and `scapeNonPrintable` with the `CowString` it returns, and the views of strings
(`to_view`).  Whether `char` is signed is left to the platform (`CharSign`).  `scapeNonPrintable_spec` says what the
escaped text is and that nothing of it is lost in the view.
-/

namespace IopHal

/-- What `char` is on a platform. -/
inductive CharSign
  | signed
  | unsigned
  deriving DecidableEq

/-- The value of a `char` that holds a byte. -/
def CharSign.value : CharSign → UInt8 → Int
  | signed, c => Int.bmod c.toNat (2 ^ 8)
  | unsigned, c => c.toNat

def isPrintable (sign : CharSign) (ch : UInt8) : Bool := sign.value ch ≥ 32 && sign.value ch ≤ 126

def isAllPrintable (sign : CharSign) : Bytes → Bool
  | [] => true
  | ch :: txt => if !isPrintable sign ch then false else isAllPrintable sign txt

/-- `std::variant<std::string_view, std::string>` -/
inductive CowString
  | view (v : Bytes)
  | string (s : Bytes)
  deriving DecidableEq

/-- `to_view` of a `std::string`, which goes by way of `c_str`. -/
def toViewString (str : Bytes) : Bytes := cview str

def toView : CowString → Bytes
  | .view v => v
  | .string s => toViewString s

/-- What the loop appends for one character. -/
def scapeChar (sign : CharSign) (ch : UInt8) : Bytes :=
  if isPrintable sign ch then [ch] else ascii "<\\" ++ toDecimal ch.toNat ++ ascii ">"

/-- The loop of `scapeNonPrintable`, with what is in `s` so far. -/
def scapeLoop (sign : CharSign) (s : Bytes) : Bytes → Bytes
  | [] => s
  | ch :: txt => scapeLoop sign (s ++ scapeChar sign ch) txt

def scapeNonPrintable (sign : CharSign) (txt : Bytes) : CowString :=
  if isAllPrintable sign txt then .view txt else .string (scapeLoop sign [] txt)

/-! ### Characters -/

/-- The printable characters of ASCII. -/
def Printable (c : UInt8) : Prop := 32 ≤ c ∧ c ≤ 126

instance (c : UInt8) : Decidable (Printable c) := inferInstanceAs (Decidable (32 ≤ c ∧ c ≤ 126))

theorem printable_iff {c : UInt8} : Printable c ↔ 32 ≤ c.toNat ∧ c.toNat ≤ 126 := by
  unfold Printable
  rw [UInt8.le_iff_toNat_le, UInt8.le_iff_toNat_le]
  rfl

/-- A byte above 127 is negative or large, and not printable either way. -/
theorem isPrintable_iff (sign : CharSign) (c : UInt8) : isPrintable sign c ↔ Printable c := by
  have hlt : c.toNat < 256 := c.toNat_lt
  rw [printable_iff, isPrintable, Bool.and_eq_true, decide_eq_true_eq, decide_eq_true_eq]
  cases sign with
  | signed =>
    have hvalue : CharSign.signed.value c = Int.bmod c.toNat (2 ^ 8) := rfl
    rw [Int.bmod_def] at hvalue
    omega
  | unsigned =>
    have hvalue : CharSign.unsigned.value c = c.toNat := rfl
    omega

theorem Printable.ne_nul {c : UInt8} (h : Printable c) : c ≠ NUL := by
  rintro rfl
  exact absurd h (by decide)

theorem isAllPrintable_iff (sign : CharSign) (txt : Bytes) : isAllPrintable sign txt ↔ ∀ c ∈ txt, Printable c := by
  induction txt with
  | nil => simp [isAllPrintable]
  | cons c txt ih =>
    rw [List.forall_mem_cons, ← isPrintable_iff sign, ← ih, isAllPrintable]
    cases isPrintable sign c <;> simp

/-! ### Escapes -/

/-- A byte as it stands in the escaped text: itself, or its number in angle brackets. -/
def scaped (c : UInt8) : Bytes := if Printable c then [c] else ascii "<\\" ++ toDecimal c.toNat ++ ascii ">"

theorem scapeChar_eq (sign : CharSign) (c : UInt8) : scapeChar sign c = scaped c := by
  unfold scapeChar scaped
  simp only [isPrintable_iff]

theorem scapeLoop_eq (sign : CharSign) (s txt : Bytes) : scapeLoop sign s txt = s ++ txt.flatMap scaped := by
  induction txt generalizing s with
  | nil => exact (List.append_nil s).symm
  | cons c txt ih => rw [scapeLoop, ih, scapeChar_eq, List.flatMap_cons, List.append_assoc]

theorem printable_of_isDigit {c : UInt8} (h : isDigit c) : Printable c := by
  simp only [isDigit, Bool.and_eq_true, decide_eq_true_eq, UInt8.le_iff_toNat_le, UInt8.reduceToNat] at h
  rw [printable_iff]
  omega

theorem printable_scaped (c : UInt8) : ∀ d ∈ scaped c, Printable d := by
  unfold scaped
  split
  · rename_i hc
    intro d hd
    rwa [List.mem_singleton.1 hd]
  · have hopen : ∀ d ∈ ascii "<\\", Printable d := by decide +kernel
    have hclose : ∀ d ∈ ascii ">", Printable d := by decide +kernel
    intro d hd
    rcases List.mem_append.1 hd with hd | hd
    · rcases List.mem_append.1 hd with hd | hd
      · exact hopen d hd
      · exact printable_of_isDigit (isDigit_toDecimal _ d hd)
    · exact hclose d hd

theorem printable_flatMap_scaped (txt : Bytes) : ∀ d ∈ txt.flatMap scaped, Printable d := by
  intro d hd
  obtain ⟨c, -, hd⟩ := List.mem_flatMap.1 hd
  exact printable_scaped c d hd

/-- Printable text stands for itself. -/
theorem flatMap_scaped_of_printable {txt : Bytes} (h : ∀ c ∈ txt, Printable c) : txt.flatMap scaped = txt := by
  induction txt with
  | nil => rfl
  | cons c txt ih =>
    rw [List.forall_mem_cons] at h
    rw [List.flatMap_cons, ih h.2, scaped, if_pos h.1]
    rfl

/-- No terminator is left in the escaped text, which the view keeps whole. -/
theorem toView_scapeNonPrintable (sign : CharSign) (txt : Bytes) :
    toView (scapeNonPrintable sign txt) = txt.flatMap scaped := by
  unfold scapeNonPrintable
  split
  · rename_i hall
    exact (flatMap_scaped_of_printable ((isAllPrintable_iff sign txt).1 hall)).symm
  · rw [scapeLoop_eq, List.nil_append]
    apply cview_eq_self
    intro hnul
    exact (printable_flatMap_scaped txt NUL hnul).ne_nul rfl

/-- The view of the escaped text: every byte that is not printable is replaced by its number, the text comes back as it is
and borrowed exactly if there is none, which is what the loop would make of it too, and there is none to replace the
second time. -/
theorem scapeNonPrintable_spec (sign : CharSign) (t : Bytes) :
    toView (scapeNonPrintable sign t) =
        t.flatMap (fun c => if Printable c then [c] else ascii "<\\" ++ toDecimal c.toNat ++ ascii ">") ∧
      (∀ c ∈ toView (scapeNonPrintable sign t), Printable c) ∧
      (toView (scapeNonPrintable sign t) = t ↔ ∀ c ∈ t, Printable c) ∧
      ((∀ c ∈ t, Printable c) → scapeNonPrintable sign t = .view t ∧ scapeLoop sign [] t = t) ∧
      toView (scapeNonPrintable sign (toView (scapeNonPrintable sign t))) = toView (scapeNonPrintable sign t) := by
  have hprintable : ∀ c ∈ toView (scapeNonPrintable sign t), Printable c := by
    rw [toView_scapeNonPrintable]
    exact printable_flatMap_scaped t
  refine ⟨toView_scapeNonPrintable sign t, hprintable, ⟨?_, ?_⟩, ?_, ?_⟩
  · intro heq
    rwa [heq] at hprintable
  · intro hall
    rw [toView_scapeNonPrintable, flatMap_scaped_of_printable hall]
  · intro hall
    refine ⟨if_pos ((isAllPrintable_iff sign t).2 hall), ?_⟩
    rw [scapeLoop_eq, List.nil_append, flatMap_scaped_of_printable hall]
  · rw [toView_scapeNonPrintable sign (toView _), flatMap_scaped_of_printable hprintable]

end IopHal
