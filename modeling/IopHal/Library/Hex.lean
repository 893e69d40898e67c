import IopHal.Library.Form

/-!
# Hexadecimal text

Bytes printed with two digits each and a separator between them.  The text determines the bytes, whatever the separator
(`text_injective`).
-/

namespace Hex

/-- The two upper-case digits of a byte. -/
def byte (c : UInt8) : List UInt8 := [Form.hexDigit (c.toNat / 16), Form.hexDigit (c.toNat % 16)]

/-- Some bytes with a separator between them. -/
def text (separator : List UInt8) : List UInt8 → List UInt8
  | [] => []
  | [c] => byte c
  | c :: d :: cs => byte c ++ (separator ++ text separator (d :: cs))

@[simp] theorem length_byte (c : UInt8) : (byte c).length = 2 := rfl

theorem hexDigit_injective {m n : ℕ} (hm : m < 16) (hn : n < 16) (h : Form.hexDigit m = Form.hexDigit n) : m = n := by
  have hall : ∀ m n : Fin 16, Form.hexDigit m = Form.hexDigit n → m = n := by decide
  exact congrArg Fin.val (hall ⟨m, hm⟩ ⟨n, hn⟩ h)

theorem byte_injective {c d : UInt8} (h : byte c = byte d) : c = d := by
  have hc := c.toNat_lt
  have hd := d.toNat_lt
  simp only [byte, List.cons.injEq, and_true] at h
  have hhigh := hexDigit_injective (by omega) (by omega) h.1
  have hlow := hexDigit_injective (by omega) (by omega) h.2
  apply UInt8.toNat_inj.1
  omega

/-- Texts of as many bytes are the same only if the bytes are. -/
theorem text_injective {separator cs ds : List UInt8} (hlength : cs.length = ds.length)
    (h : text separator cs = text separator ds) : cs = ds := by
  induction cs generalizing ds with
  | nil => exact (List.eq_nil_of_length_eq_zero hlength.symm).symm
  | cons c cs ih =>
    cases ds with
    | nil => simp at hlength
    | cons d ds =>
      simp only [List.length_cons, Nat.add_right_cancel_iff] at hlength
      cases cs with
      | nil =>
        obtain rfl := List.eq_nil_of_length_eq_zero hlength.symm
        rw [byte_injective h]
      | cons c' cs =>
        cases ds with
        | nil => simp at hlength
        | cons d' ds =>
          obtain ⟨hbyte, hbehind⟩ := List.append_inj h (by simp)
          rw [byte_injective hbyte, ih hlength (List.append_cancel_left hbehind)]

theorem length_text (separator cs : List UInt8) :
    (text separator cs).length = cs.length * 2 + (cs.length - 1) * separator.length := by
  induction cs with
  | nil => simp [text]
  | cons c cs ih =>
    cases cs with
    | nil => simp [text]
    | cons d cs =>
      have hsucc : (cs.length + 1) * separator.length = cs.length * separator.length + separator.length := Nat.succ_mul _ _
      simp only [text, List.length_append, ih, length_byte, List.length_cons, Nat.add_sub_cancel, hsucc]
      omega

/-- Without a separator the digits stand next to each other. -/
theorem text_nil (cs : List UInt8) : text [] cs = cs.flatMap byte := by
  induction cs with
  | nil => rfl
  | cons c cs ih =>
    cases cs with
    | nil => simp [text]
    | cons d cs =>
      rw [text, ih]
      rfl

end Hex
