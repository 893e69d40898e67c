import IopHal.Library.Find

/-!
# Bytes, C strings and memory

The parts of the C and C++ library that the HTTP code rests on: character constants and ASCII case, `atoi`,
zero-terminated strings, `memmove` and `memset` inside one buffer, and `string_view::substr`.  `string_view::find`
is `Find.find`.
-/

namespace IopHal

/-- A byte string: the contents of a `std::string`, a `std::string_view` or a `std::vector<uint8_t>`. -/
abbrev Bytes := List UInt8

abbrev NUL : UInt8 := 0
abbrev LF : UInt8 := 10
abbrev CR : UInt8 := 13
abbrev SP : UInt8 := 32
abbrev COLON : UInt8 := 58

/-- The bytes of an ASCII literal of the source. -/
def ascii (s : String) : Bytes := s.toList.map fun c => c.toNat.toUInt8

/-- `"\r\n"` -/
abbrev crlf : Bytes := [CR, LF]

/-! ### Characters and numbers -/

/-- `std::tolower` in the C locale -/
def tolower (c : UInt8) : UInt8 := if 65 ≤ c ∧ c ≤ 90 then c + 32 else c

/-- The `std::transform` with `tolower` that all three users of header names apply. -/
def lower (s : Bytes) : Bytes := s.map tolower

theorem toNat_tolower (c : UInt8) :
    (tolower c).toNat = if 65 ≤ c.toNat ∧ c.toNat ≤ 90 then c.toNat + 32 else c.toNat := by
  unfold tolower
  simp only [UInt8.le_iff_toNat_le, UInt8.reduceToNat]
  split
  · rw [UInt8.toNat_add, show (32 : UInt8).toNat = 32 from rfl]; omega
  · rfl

theorem tolower_tolower (c : UInt8) : tolower (tolower c) = tolower c := by
  apply UInt8.toNat_inj.1
  rw [toNat_tolower, toNat_tolower]
  split <;> (try split) <;> omega

theorem tolower_eq_iff {c d : UInt8} (hd : d < 65) : tolower c = d ↔ c = d := by
  rw [UInt8.lt_iff_toNat_lt, show (65 : UInt8).toNat = 65 from rfl] at hd
  rw [← UInt8.toNat_inj, ← UInt8.toNat_inj, toNat_tolower]
  split <;> omega

@[simp] theorem length_lower (s : Bytes) : (lower s).length = s.length := by simp [lower]

@[simp] theorem lower_lower (s : Bytes) : lower (lower s) = lower s := by
  simp [lower, Function.comp_def, tolower_tolower]

/-- Case does not touch the control and punctuation characters below the letters. -/
theorem mem_lower_iff {d : UInt8} (hd : d < 65) {s : Bytes} : d ∈ lower s ↔ d ∈ s := by
  simp [lower, tolower_eq_iff hd]

def isDigit (c : UInt8) : Bool := 48 ≤ c && c ≤ 57

/-- `isspace` in the C locale -/
def isspace (c : UInt8) : Bool := c == 32 || (9 ≤ c && c ≤ 13)

theorem isspace_of_isDigit {c : UInt8} (h : isDigit c) : isspace c = false := by
  simp only [isDigit, isspace, Bool.and_eq_true, decide_eq_true_eq, Bool.or_eq_false_iff, beq_eq_false_iff_ne,
    Bool.and_eq_false_iff, decide_eq_false_iff_not, ne_eq, UInt8.le_iff_toNat_le, ← UInt8.toNat_inj,
    UInt8.reduceToNat] at h ⊢
  omega

/-- The value of a string of decimal digits. -/
def digitsValue (ds : Bytes) : Nat := ds.foldl (fun n d => 10 * n + (d.toNat - 48)) 0

/-- The optional sign of a number, `-` or `+`. -/
def splitSign : Bytes → Int × Bytes
  | 45 :: t => (-1, t)
  | 43 :: t => (1, t)
  | t => (1, t)

/-- `atoi` of glibc: `strtol` in base ten, which saturates, cast to `int`, which wraps. -/
def atoi (s : Bytes) : Int :=
  let (sign, t) := splitSign (s.dropWhile isspace)
  let strtol := max (-2 ^ 63) (min (2 ^ 63 - 1) (sign * digitsValue (t.takeWhile isDigit)))
  Int.bmod strtol (2 ^ 32)

/-- `std::to_string` of an unsigned number -/
def toDecimal (n : Nat) : Bytes := (Nat.toDigits 10 n).map fun c => c.toNat.toUInt8

private theorem foldl_digits_lt (ds : Bytes) (h : ∀ d ∈ ds, isDigit d) (n : Nat) :
    ds.foldl (fun n d => 10 * n + (d.toNat - 48)) n < (n + 1) * 10 ^ ds.length := by
  induction ds generalizing n with
  | nil => simp
  | cons d ds ih =>
    have hd : d.toNat ≤ 57 := by
      have := h d (List.mem_cons_self ..)
      simp only [isDigit, Bool.and_eq_true, decide_eq_true_eq] at this
      exact UInt8.le_iff_toNat_le.1 this.2
    have h1 := ih (fun e he => h e (List.mem_cons_of_mem _ he)) (10 * n + (d.toNat - 48))
    have h2 : (10 * n + (d.toNat - 48) + 1) * 10 ^ ds.length ≤ (n + 1) * 10 * 10 ^ ds.length :=
      Nat.mul_le_mul_right _ (by omega)
    rw [List.foldl_cons, List.length_cons, Nat.pow_succ, Nat.mul_comm (10 ^ ds.length), ← Nat.mul_assoc]
    omega

theorem digitsValue_lt {ds : Bytes} (h : ∀ d ∈ ds, isDigit d) : digitsValue ds < 10 ^ ds.length := by
  simpa [digitsValue] using foldl_digits_lt ds h 0

/-- Digits are neither skipped nor taken for a sign. -/
theorem dropWhile_isspace_digit {c : UInt8} (h : isDigit c) (s : Bytes) : (c :: s).dropWhile isspace = c :: s := by
  rw [List.dropWhile_cons, isspace_of_isDigit h]
  rfl

theorem splitSign_digit {c : UInt8} (h : isDigit c) (s : Bytes) : splitSign (c :: s) = (1, c :: s) := by
  unfold splitSign
  split
  · rename_i heq
    rw [(List.cons.inj heq).1] at h
    contradiction
  · rename_i heq
    rw [(List.cons.inj heq).1] at h
    contradiction
  · rfl

/-- A decimal number of at most nine digits fits in an `int` and is read back exactly. -/
theorem atoi_digits {ds : Bytes} (h : ∀ d ∈ ds, isDigit d) (hlen : ds.length ≤ 9) :
    atoi ds = digitsValue ds := by
  have hlt : digitsValue ds < 10 ^ 9 :=
    (digitsValue_lt h).trans_le (Nat.pow_le_pow_right (by omega) hlen)
  have htake : ds.takeWhile isDigit = ds := List.takeWhile_eq_self_iff.2 h
  have hdrop : ds.dropWhile isspace = ds := by
    cases ds with
    | nil => rfl
    | cons d ds => exact dropWhile_isspace_digit (h d List.mem_cons_self) ds
  have hsign : splitSign ds = (1, ds) := by
    cases ds with
    | nil => rfl
    | cons d ds => exact splitSign_digit (h d List.mem_cons_self) ds
  unfold atoi
  simp only [hdrop, hsign, htake, one_mul]
  rw [Int.bmod_eq_of_le_mul_two] <;> omega

private theorem toNat_digit {n : Nat} {c : Char} (hc : c ∈ Nat.toDigits 10 n) :
    48 ≤ c.toNat ∧ c.toNat ≤ 57 ∧ c.toNat.toUInt8.toNat = c.toNat := by
  have hdigit := Nat.isDigit_of_mem_toDigits (by decide) (by decide) hc
  simp only [Char.isDigit, Bool.and_eq_true, decide_eq_true_eq, ge_iff_le, UInt32.le_iff_toNat_le] at hdigit
  have hle : 48 ≤ c.toNat ∧ c.toNat ≤ 57 := hdigit
  refine ⟨hle.1, hle.2, ?_⟩
  show c.toNat % 256 = c.toNat
  omega

theorem isDigit_toDecimal (n : Nat) : ∀ d ∈ toDecimal n, isDigit d := by
  intro d hd
  obtain ⟨c, hc, rfl⟩ := List.mem_map.1 hd
  obtain ⟨hlow, hhigh, hbyte⟩ := toNat_digit hc
  simp only [isDigit, Bool.and_eq_true, decide_eq_true_eq, UInt8.le_iff_toNat_le, UInt8.reduceToNat, hbyte]
  exact ⟨hlow, hhigh⟩

/-- A decimal number is read back as it is. -/
theorem digitsValue_toDecimal (n : Nat) : digitsValue (toDecimal n) = n := by
  have hfold : ∀ (cs : List Char) (init : Nat), (∀ c ∈ cs, c ∈ Nat.toDigits 10 n) →
      (cs.map fun c => c.toNat.toUInt8).foldl (fun n d => 10 * n + (d.toNat - 48)) init =
        Nat.ofDigitChars 10 cs init := by
    intro cs
    induction cs with
    | nil => intro init _; rfl
    | cons c cs ih =>
      intro init hcs
      rw [List.forall_mem_cons] at hcs
      rw [List.map_cons, List.foldl_cons, Nat.ofDigitChars_cons, ih _ hcs.2, (toNat_digit hcs.1).2.2]
      rfl
  exact (hfold _ 0 fun c hc => hc).trans Nat.ofDigitChars_ten_toDigits

/-! ### Zero-terminated strings -/

/-- The string at the start of some memory up to its terminator.  Without one, the scan runs off the memory: `none`. -/
def cstring : Bytes → Option Bytes
  | [] => none
  | b :: bs => if b = NUL then some [] else (cstring bs).map (b :: ·)

theorem cstring_eq_none_iff {mem : Bytes} : cstring mem = none ↔ NUL ∉ mem := by
  induction mem with
  | nil => simp [cstring]
  | cons b bs ih =>
    by_cases hb : b = NUL
    · simp [cstring, hb]
    · simp [cstring, hb, ih, Ne.symm hb]

/-- What a string starts with is what the memory starts with, as far as it is free of terminators. -/
theorem cstring_eq_some_append {xs ys s : Bytes} (h : NUL ∉ xs) (hs : cstring (xs ++ ys) = some s) :
    ∃ t, s = xs ++ t ∧ cstring ys = some t := by
  induction xs generalizing s with
  | nil => exact ⟨s, rfl, hs⟩
  | cons x xs ih =>
    simp only [List.mem_cons, not_or] at h
    simp only [List.cons_append, cstring, Ne.symm h.1, ↓reduceIte, Option.map_eq_some_iff] at hs
    obtain ⟨u, hu, rfl⟩ := hs
    obtain ⟨t, rfl, ht⟩ := ih h.2 hu
    exact ⟨t, rfl, ht⟩

/-- A string handed over as a `const char *` and read back: it ends at the first terminator. -/
def cview (s : Bytes) : Bytes := s.takeWhile (· ≠ NUL)

theorem cview_eq_self {s : Bytes} (h : NUL ∉ s) : cview s = s := by
  unfold cview
  rw [List.takeWhile_eq_self_iff]
  intro x hx
  have hne : x ≠ NUL := fun e => h (e ▸ hx)
  simpa using hne

/-- A `StaticString` points to a zero-terminated literal: its text is free of the terminator. -/
structure StaticString where
  text : Bytes
  terminated : NUL ∉ text

/-! ### Memory -/

/-- `memmove(ptr, ptr + start, n)` inside the memory behind `ptr` -/
def memmove (mem : Bytes) (start n : Nat) : Bytes := (mem.drop start).take n ++ mem.drop n

/-- `memset(ptr + start, '\0', n)` where `start + n` is the end of the memory behind `ptr` -/
def memsetTail (mem : Bytes) (start n : Nat) : Bytes := mem.take start ++ List.replicate n NUL

/-- `string_view::substr(pos)`, which throws beyond the end -/
def substr (s : Bytes) (pos : Nat) : Option Bytes := if pos ≤ s.length then some (s.drop pos) else none

theorem substr_append {s t : Bytes} {pos : Nat} (h : pos = s.length) : substr (s ++ t) pos = some t := by
  rw [h, substr, if_pos (by rw [List.length_append]; omega), List.drop_left]

/-! ### How a call ends -/

/-- How a call of a `noexcept` function ends, given what its surroundings answered so far. -/
inductive Outcome (ρ : Type)
  | returned (r : ρ)
  /-- `iop_panic` with a message -/
  | panicked (msg : Bytes)
  /-- an exception leaves the function, or a signal is not handled: the process is over -/
  | terminated
  /-- a read outside of an object: undefined behaviour -/
  | undefined
  /-- the call still waits for an answer -/
  | waiting
  deriving DecidableEq

theorem Outcome.returned_ne_undefined {ρ : Type} (r : ρ) : Outcome.returned r ≠ .undefined := by
  intro h
  contradiction

/-- A call, and what its caller does with the result. -/
def Outcome.bind {ρ σ : Type} (o : Outcome ρ) (f : ρ → Outcome σ) : Outcome σ :=
  match o with
  | returned r => f r
  | panicked msg => .panicked msg
  | terminated => .terminated
  | undefined => .undefined
  | waiting => .waiting

@[simp]
theorem Outcome.bind_returned {ρ σ : Type} (r : ρ) (f : ρ → Outcome σ) : (Outcome.returned r).bind f = f r := rfl

theorem Outcome.bind_eq_returned_iff {ρ σ : Type} {o : Outcome ρ} {f : ρ → Outcome σ} {t : σ} :
    o.bind f = .returned t ↔ ∃ r, o = .returned r ∧ f r = .returned t := by
  cases o <;> simp [bind]

/-- To go on from a result that is there does no harm. -/
theorem Outcome.bind_eq_undefined_iff {ρ σ : Type} {o : Outcome ρ} {f : ρ → σ} :
    (o.bind fun r => .returned (f r)) = .undefined ↔ o = .undefined := by
  cases o <;> simp [bind]

end IopHal
