import Mathlib

/-!
# Base64

`encode` writes three bytes as four digits, with `=` where the last group is not full, and `decode` reads them back
(`decode_encode`).  The digits are letters, numbers, `+` and `/`, so an encoded text has no blanks, dashes or
backslashes (`mem_encode`).
-/

namespace Base64

/-- The digit for a number below 64. -/
def digit (n : ℕ) : UInt8 :=
  if n < 26 then .ofNat (65 + n)
  else if n < 52 then .ofNat (97 + (n - 26))
  else if n < 62 then .ofNat (48 + (n - 52))
  else if n = 62 then 43
  else 47

/-- What fills up the last group. -/
abbrev PAD : UInt8 := 61

def value (c : UInt8) : Option ℕ :=
  if 65 ≤ c ∧ c ≤ 90 then some (c.toNat - 65)
  else if 97 ≤ c ∧ c ≤ 122 then some (c.toNat - 97 + 26)
  else if 48 ≤ c ∧ c ≤ 57 then some (c.toNat - 48 + 52)
  else if c = 43 then some 62
  else if c = 47 then some 63
  else none

def encode : List UInt8 → List UInt8
  | [] => []
  | [a] => [digit (a.toNat / 4), digit (a.toNat % 4 * 16), PAD, PAD]
  | [a, b] =>
    [digit (a.toNat / 4), digit (a.toNat % 4 * 16 + b.toNat / 16), digit (b.toNat % 16 * 4), PAD]
  | a :: b :: c :: bytes =>
    digit (a.toNat / 4) :: digit (a.toNat % 4 * 16 + b.toNat / 16) :: digit (b.toNat % 16 * 4 + c.toNat / 64) ::
      digit (c.toNat % 64) :: encode bytes

/-- The bytes of a text whose length is a multiple of four.  Only its last group may be filled up. -/
def decode : List UInt8 → Option (List UInt8)
  | [] => some []
  | w :: x :: y :: z :: text => do
    let w ← value w
    let x ← value x
    if y = PAD ∧ z = PAD ∧ text = [] then return [.ofNat (w * 4 + x / 16)]
    let y ← value y
    if z = PAD ∧ text = [] then return [.ofNat (w * 4 + x / 16), .ofNat (x % 16 * 16 + y / 4)]
    let z ← value z
    let bytes ← decode text
    return .ofNat (w * 4 + x / 16) :: .ofNat (x % 16 * 16 + y / 4) :: .ofNat (y % 4 * 64 + z) :: bytes
  | _ => none

theorem value_digit {n : ℕ} (h : n < 64) : value (digit n) = some n := by
  have hall : ∀ n < 64, value (digit n) = some n := by decide
  exact hall n h

theorem digit_ne_pad {n : ℕ} (h : n < 64) : digit n ≠ PAD := by
  have hall : ∀ n < 64, digit n ≠ PAD := by decide
  exact hall n h

theorem byte_eq {a n : ℕ} {b : UInt8} (h : a = n) (hn : n = b.toNat) : UInt8.ofNat a = b := by
  rw [h, hn, UInt8.ofNat_toNat]

theorem decode_encode (bytes : List UInt8) : decode (encode bytes) = some bytes := by
  induction bytes using encode.induct with
  | case1 => rfl
  | case2 a =>
    have ha := a.toNat_lt
    have hfirst : UInt8.ofNat (a.toNat / 4 * 4 + a.toNat % 4 * 16 / 16) = a := byte_eq rfl (by omega)
    rw [encode, decode, value_digit (by omega), value_digit (by omega)]
    simp only [Option.bind_eq_bind, Option.bind_some, and_self, if_true, hfirst, Option.pure_def]
  | case3 a b =>
    have ha := a.toNat_lt
    have hb := b.toNat_lt
    have hfirst : UInt8.ofNat (a.toNat / 4 * 4 + (a.toNat % 4 * 16 + b.toNat / 16) / 16) = a := byte_eq rfl (by omega)
    have hsecond : UInt8.ofNat ((a.toNat % 4 * 16 + b.toNat / 16) % 16 * 16 + b.toNat % 16 * 4 / 4) = b :=
      byte_eq rfl (by omega)
    have hpad := digit_ne_pad (n := b.toNat % 16 * 4) (by omega)
    rw [encode, decode, value_digit (by omega), value_digit (by omega), value_digit (by omega)]
    simp only [Option.bind_eq_bind, Option.bind_some, hpad, false_and, and_self, if_false, if_true, hfirst, hsecond,
      Option.pure_def]
  | case4 a b c bytes ih =>
    have ha := a.toNat_lt
    have hb := b.toNat_lt
    have hc := c.toNat_lt
    have hfirst : UInt8.ofNat (a.toNat / 4 * 4 + (a.toNat % 4 * 16 + b.toNat / 16) / 16) = a := byte_eq rfl (by omega)
    have hsecond : UInt8.ofNat
        ((a.toNat % 4 * 16 + b.toNat / 16) % 16 * 16 + (b.toNat % 16 * 4 + c.toNat / 64) / 4) = b := byte_eq rfl (by omega)
    have hthird : UInt8.ofNat ((b.toNat % 16 * 4 + c.toNat / 64) % 4 * 64 + c.toNat % 64) = c := byte_eq rfl (by omega)
    have hpad := digit_ne_pad (n := c.toNat % 64) (by omega)
    rw [encode, decode, value_digit (by omega), value_digit (by omega), value_digit (by omega), value_digit (by omega), ih]
    simp only [Option.bind_eq_bind, Option.bind_some, hpad, false_and, and_false, if_false, hfirst, hsecond, hthird,
      Option.pure_def]

/-- No digit is a blank, a dash, a backslash or a byte that is not ASCII. -/
theorem mem_encode (bytes : List UInt8) : ∀ c ∈ encode bytes, c ≠ 45 ∧ c ≠ 92 ∧ 43 ≤ c ∧ c ≤ 122 := by
  have hdigit : ∀ n < 64, digit n ≠ 45 ∧ digit n ≠ 92 ∧ 43 ≤ digit n ∧ digit n ≤ 122 := by decide
  have hpad : PAD ≠ 45 ∧ PAD ≠ 92 ∧ 43 ≤ PAD ∧ PAD ≤ 122 := by decide
  induction bytes using encode.induct with
  | case1 =>
    intro c hc
    cases hc
  | case2 a =>
    have ha := a.toNat_lt
    simp only [encode, List.forall_mem_cons]
    exact ⟨hdigit _ (by omega), hdigit _ (by omega), hpad, hpad, List.forall_mem_nil _⟩
  | case3 a b =>
    have ha := a.toNat_lt
    have hb := b.toNat_lt
    simp only [encode, List.forall_mem_cons]
    exact ⟨hdigit _ (by omega), hdigit _ (by omega), hdigit _ (by omega), hpad, List.forall_mem_nil _⟩
  | case4 a b c bytes ih =>
    have ha := a.toNat_lt
    have hb := b.toNat_lt
    have hc := c.toNat_lt
    simp only [encode, List.forall_mem_cons]
    exact ⟨hdigit _ (by omega), hdigit _ (by omega), hdigit _ (by omega), hdigit _ (by omega), ih⟩

/-- A text of one byte, and one of three. -/
example : encode [77] = [84, 81, 61, 61] ∧ encode [77, 97, 110] = [84, 87, 70, 117] := by decide

end Base64
