import Mathlib

/-!
# String literals of C++

`inside` reads literals that stand one behind the other up to a semicolon.  What a compiler makes of the escape sequences in
them is a parameter: compilers have sequences of their own, but none stands for more bytes than it is written with.  `standard`
has those that the language has itself.
-/

namespace Literal

abbrev QUOTE : UInt8 := 34
abbrev BACKSLASH : UInt8 := 92

/-! ### Escape sequences -/

/-- What a compiler reads behind a backslash: the bytes that it stands for, and what is left of the text. -/
structure Escapes where
  read : List UInt8 → Option (List UInt8 × List UInt8)
  read_nil : read [] = none
  read_quote : ∀ text, read (QUOTE :: text) = some ([QUOTE], text)
  read_backslash : ∀ text, read (BACKSLASH :: text) = some ([BACKSLASH], text)
  read_newline : ∀ text, read (110 :: text) = some ([10], text)
  /-- The other sequences are no shorter than what they stand for, and have neither quotes nor backslashes in them. -/
  read_other : ∀ {b text value rest}, b ≠ QUOTE → b ≠ BACKSLASH → read (b :: text) = some (value, rest) →
    ∃ taken, text = taken ++ rest ∧ value.length ≤ taken.length + 1 ∧ QUOTE ∉ taken ∧ BACKSLASH ∉ taken

theorem Escapes.length_read (e : Escapes) {text value rest : List UInt8} (h : e.read text = some (value, rest)) :
    rest.length < text.length := by
  cases text with
  | nil =>
    rw [e.read_nil] at h
    cases h
  | cons b text =>
    by_cases hquote : b = QUOTE
    · rw [hquote, e.read_quote] at h
      cases h
      exact Nat.lt_succ_self _
    · by_cases hbackslash : b = BACKSLASH
      · rw [hbackslash, e.read_backslash] at h
        cases h
        exact Nat.lt_succ_self _
      · obtain ⟨taken, rfl, -⟩ := e.read_other hquote hbackslash h
        rw [List.length_cons, List.length_append]
        omega

/-! ### Literals -/

mutual

/-- What literals stand for, up to a semicolon, where the text is in one of them. -/
def inside (e : Escapes) : List UInt8 → Option (List UInt8)
  | [] => none
  | b :: text =>
    if b = QUOTE then outside e text
    else if b = BACKSLASH then
      match _h : e.read text with
      | none => none
      | some (value, rest) => (inside e rest).map (value ++ ·)
    else if b = 10 then none
    else (inside e text).map (b :: ·)
termination_by text => text.length
decreasing_by
  · exact Nat.lt_succ_self _
  · exact (e.length_read _h).trans (Nat.lt_succ_self _)
  · exact Nat.lt_succ_self _

/-- What they stand for where the text is between them.  Comments, prefixes and suffixes are left out. -/
def outside (e : Escapes) : List UInt8 → Option (List UInt8)
  | [] => none
  | b :: text =>
    if b = QUOTE then inside e text
    else if b = 32 ∨ (9 ≤ b ∧ b ≤ 13) then outside e text
    else if b = 59 then some [] else none
termination_by text => text.length

end

/-- What the array is initialized with: what the literals stand for, and a zero. -/
def initializer (e : Escapes) (text : List UInt8) : Option (List UInt8) := (outside e text).map (· ++ [0])

section Literals

variable {e : Escapes} {b : UInt8} {text value rest : List UInt8}

theorem inside_nil : inside e [] = none := by rw [inside]

theorem inside_quote : inside e (QUOTE :: text) = outside e text := by rw [inside, if_pos rfl]

theorem outside_quote : outside e (QUOTE :: text) = inside e text := by rw [outside, if_pos rfl]

theorem outside_end : outside e (59 :: text) = some [] := by
  rw [outside, if_neg (by decide), if_neg (by decide), if_pos rfl]

theorem inside_byte (hquote : b ≠ QUOTE) (hbackslash : b ≠ BACKSLASH) (hline : b ≠ 10) :
    inside e (b :: text) = (inside e text).map (b :: ·) := by
  rw [inside, if_neg hquote, if_neg hbackslash, if_neg hline]

theorem inside_escape (h : e.read text = some (value, rest)) :
    inside e (BACKSLASH :: text) = (inside e rest).map (value ++ ·) := by
  rw [inside, if_neg (by decide), if_pos rfl]
  split
  · rename_i hnone
    rw [hnone] at h
    cases h
  · rename_i hsome
    rw [hsome] at h
    cases h
    rfl

theorem inside_escape_none (h : e.read text = none) : inside e (BACKSLASH :: text) = none := by
  rw [inside, if_neg (by decide), if_pos rfl]
  split
  · rfl
  · rename_i hsome
    rw [hsome] at h
    cases h

/-! ### What a text stands for -/

/-- In a literal the text stands for the value, whatever is behind it. -/
def Stands (e : Escapes) (text value : List UInt8) : Prop :=
  ∀ rest, inside e (text ++ rest) = (inside e rest).map (value ++ ·)

theorem stands_nil : Stands e [] [] := fun rest => (Option.map_id' (x := inside e rest)).symm

theorem Stands.append {more other : List UInt8} (h : Stands e text value) (hmore : Stands e more other) :
    Stands e (text ++ more) (value ++ other) := by
  intro rest
  rw [List.append_assoc, h, hmore, Option.map_map]
  congr 1
  funext last
  exact (List.append_assoc value other last).symm

theorem stands_byte (hquote : b ≠ QUOTE) (hbackslash : b ≠ BACKSLASH) (hline : b ≠ 10) : Stands e [b] [b] :=
  fun _ => inside_byte hquote hbackslash hline

/-- A sequence stands for its bytes, if what is behind it does not change it. -/
theorem stands_escape (h : ∀ rest, e.read (text ++ rest) = some (value, rest)) : Stands e (BACKSLASH :: text) value :=
  fun rest => inside_escape (h rest)

theorem stands_newline : Stands e [BACKSLASH, 110] [10] := stands_escape e.read_newline

/-- The end of a literal and the beginning of the next one stand for nothing. -/
theorem stands_quotes : Stands e [QUOTE, QUOTE] [] := by
  intro rest
  show inside e (QUOTE :: QUOTE :: rest) = _
  rw [inside_quote, outside_quote]
  exact Option.map_id'.symm

/-- Without a quote, a backslash or a line feed it stands for itself. -/
theorem stands_self (h : ∀ b ∈ text, b ≠ QUOTE ∧ b ≠ BACKSLASH ∧ b ≠ 10) : Stands e text text := by
  induction text with
  | nil => exact stands_nil
  | cons b text ih =>
    obtain ⟨⟨hquote, hbackslash, hline⟩, htext⟩ := List.forall_mem_cons.1 h
    exact (stands_byte hquote hbackslash hline).append (ih htext)

end Literals

/-! ### The sequences of the language -/

def simpleEscapes : List (UInt8 × UInt8) :=
  [(39, 39), (34, 34), (63, 63), (92, 92), (97, 7), (98, 8), (102, 12), (110, 10), (114, 13), (116, 9), (118, 11)]

def hexDigit (b : UInt8) : Option ℕ :=
  if 48 ≤ b ∧ b ≤ 57 then some (b.toNat - 48)
  else if 65 ≤ b ∧ b ≤ 70 then some (b.toNat - 55)
  else if 97 ≤ b ∧ b ≤ 102 then some (b.toNat - 87)
  else none

def isHex (b : UInt8) : Bool := (hexDigit b).isSome

def isOctal (b : UInt8) : Bool := 48 ≤ b && b ≤ 55

/-- The value of digits. -/
def number (base : ℕ) (digits : List UInt8) : ℕ := digits.foldl (fun n b => base * n + (hexDigit b).getD 0) 0

/-- The byte of a number, which has to fit into one. -/
def byteOf (n : ℕ) : Option (List UInt8) := if n < 256 then some [n.toUInt8] else none

/-- The character of a number, if it is one. -/
def characterOf (n : ℕ) : Option (List UInt8) := if n.isValidChar then some (String.utf8EncodeChar (Char.ofNat n)) else none

/-- A sequence with these digits, and what is behind them. -/
def numeric (digits text : List UInt8) (value : Option (List UInt8)) : Option (List UInt8 × List UInt8) :=
  value.map fun value => (value, text.drop digits.length)

def readStandard : List UInt8 → Option (List UInt8 × List UInt8)
  | [] => none
  | b :: text =>
    match simpleEscapes.lookup b with
    | some c => some ([c], text)
    | none =>
      let octal := (text.take 2).takeWhile isOctal
      let hexadecimal := text.takeWhile isHex
      let universal (count : ℕ) := (text.take count).takeWhile isHex
      if isOctal b then numeric octal text (byteOf (number 8 (b :: octal)))
      else if b = 120 then numeric hexadecimal text (if hexadecimal = [] then none else byteOf (number 16 hexadecimal))
      else if b = 117 then
        numeric (universal 4) text (if (universal 4).length = 4 then characterOf (number 16 (universal 4)) else none)
      else if b = 85 then
        numeric (universal 8) text (if (universal 8).length = 8 then characterOf (number 16 (universal 8)) else none)
      else none

theorem length_byteOf {n : ℕ} {value : List UInt8} (h : byteOf n = some value) : value.length = 1 := by
  unfold byteOf at h
  split at h
  · cases h
    rfl
  · cases h

/-- A character has at most four bytes. -/
theorem length_characterOf {n : ℕ} {value : List UInt8} (h : characterOf n = some value) : value.length ≤ 4 := by
  unfold characterOf at h
  split at h
  · cases h
    rw [String.length_utf8EncodeChar]
    exact Char.utf8Size_le_four _
  · cases h

theorem read_numeric {digits text value rest : List UInt8} {found : Option (List UInt8)} (hdigits : digits <+: text)
    (hhex : ∀ b ∈ digits, isHex b = true) (hlength : ∀ value, found = some value → value.length ≤ digits.length + 1)
    (h : numeric digits text found = some (value, rest)) :
    ∃ taken, text = taken ++ rest ∧ value.length ≤ taken.length + 1 ∧ QUOTE ∉ taken ∧ BACKSLASH ∉ taken := by
  obtain ⟨_, hvalue, h⟩ := Option.map_eq_some_iff.1 h
  cases h
  refine ⟨digits, List.prefix_append_drop hdigits, hlength value hvalue, fun hmem => ?_, fun hmem => ?_⟩
  · exact absurd (hhex _ hmem) (by decide)
  · exact absurd (hhex _ hmem) (by decide)

theorem isHex_of_isOctal {b : UInt8} (h : isOctal b = true) : isHex b = true := by
  obtain ⟨hlow, hhigh⟩ := Bool.and_eq_true_iff.1 h
  have hdigit : 48 ≤ b ∧ b ≤ 57 := ⟨of_decide_eq_true hlow, UInt8.le_trans (of_decide_eq_true hhigh) (by decide)⟩
  rw [isHex, hexDigit, if_pos hdigit]
  rfl

/-- A sequence for a character has four digits at least. -/
theorem length_universal {digits : List UInt8} {count n : ℕ} (hcount : 4 ≤ count) {value : List UInt8}
    (h : (if digits.length = count then characterOf n else none) = some value) : value.length ≤ digits.length + 1 := by
  split at h
  · rename_i hdigits
    have hvalue := length_characterOf h
    omega
  · cases h

theorem readStandard_other {b : UInt8} {text value rest : List UInt8} (h : readStandard (b :: text) = some (value, rest)) :
    ∃ taken, text = taken ++ rest ∧ value.length ≤ taken.length + 1 ∧ QUOTE ∉ taken ∧ BACKSLASH ∉ taken := by
  have htake : ∀ count, ∀ f : UInt8 → Bool, (text.take count).takeWhile f <+: text := fun count f =>
    (List.takeWhile_prefix f).trans (List.take_prefix count text)
  have hbyte : ∀ n value, ∀ digits : List UInt8, byteOf n = some value → value.length ≤ digits.length + 1 :=
    fun n value digits hvalue => (length_byteOf hvalue).trans_le (Nat.le_add_left 1 _)
  rw [readStandard] at h
  cases hsimple : simpleEscapes.lookup b with
  | some c =>
    rw [hsimple] at h
    cases h
    exact ⟨[], rfl, le_rfl, List.not_mem_nil, List.not_mem_nil⟩
  | none =>
    rw [hsimple] at h
    dsimp only at h
    split at h
    · exact read_numeric (htake 2 isOctal) (fun b hb => isHex_of_isOctal (List.mem_takeWhile_imp hb))
        (fun value hvalue => hbyte _ value _ hvalue) h
    · split at h
      · refine read_numeric (List.takeWhile_prefix isHex) (fun b hb => List.mem_takeWhile_imp hb) (fun value hvalue => ?_) h
        split at hvalue
        · cases hvalue
        · exact hbyte _ value _ hvalue
      · split at h
        · exact read_numeric (htake 4 isHex) (fun b hb => List.mem_takeWhile_imp hb)
            (fun value hvalue => length_universal le_rfl hvalue) h
        · split at h
          · exact read_numeric (htake 8 isHex) (fun b hb => List.mem_takeWhile_imp hb)
              (fun value hvalue => length_universal (by decide) hvalue) h
          · cases h

/-- The sequences that the language has itself. -/
def standard : Escapes where
  read := readStandard
  read_nil := rfl
  read_quote _ := rfl
  read_backslash _ := rfl
  read_newline _ := rfl
  read_other _ _ h := readStandard_other h

example : standard.read [120, 67, 53, 92, 120] = some ([0xC5], [92, 120]) := by decide

end Literal
