import IopHal.Library.Form
import IopHal.Server.HandleClient

/-!
# `HttpConnection::arg`

The lookup of a field in the payload of a submitted form: two searches for the name, the offset behind it, a cut at the
next `&`, and `percentDecode`, which runs over the memory of the payload up to its terminator.

`arg_form_iff` runs it against the encoder of forms: the field comes back as it was entered exactly if it has no space,
since nothing undoes the `+` that stands for one (`arg_form`).
-/

namespace IopHal

open Find Form

/-- The table of `percentDecode`, without a value where it has -1. -/
def tbl (c : UInt8) : Option UInt8 :=
  if 48 ≤ c ∧ c ≤ 57 then some (c - 48)
  else if 65 ≤ c ∧ c ≤ 70 then some (c - 55)
  else if 97 ≤ c ∧ c ≤ 102 then some (c - 87)
  else none

/-- The loop of `percentDecode`, with the memory from `in` on and the length that is left of the input.  The byte behind
the input is read before the length is tested, and the two behind a `%` are read without a test. -/
def decodeLoop : Bytes → Nat → Bytes → Outcome (Option Bytes)
  | [], _, _ => .undefined
  | c :: mem, left, out =>
    if c = NUL then .returned (some out)
    else
      match left with
      | 0 => .returned (some out)
      | left + 1 =>
        if c = 37 then
          match mem with
          | h :: l :: rest =>
            match tbl h, tbl l with
            | some v1, some v2 => decodeLoop rest (left - 2) (out ++ [v1 <<< 4 ||| v2])
            | _, _ => .returned none
          | _ => .undefined
        else decodeLoop mem left (out ++ [c])

/-- `percentDecode` of the first `length` bytes of some memory -/
def percentDecode (mem : Bytes) (length : Nat) : Outcome (Option Bytes) := decodeLoop mem length []

namespace HttpConnection

/-- The position in the payload where `arg` found the name, and the length it skips there. -/
def argPosition (conn : HttpConnection) (name : StaticString) : Option Nat :=
  let index := find (name.text ++ ascii "=") conn.currentPayload
  if index ≠ some 0 then find (ascii "&" ++ name.text ++ ascii "=") conn.currentPayload else index

def arg (conn : HttpConnection) (name : StaticString) : Outcome (Option Bytes) :=
  match conn.argPosition name with
  | none => .returned none
  | some index =>
    let argEncodingLen := 1 + name.text.length + if index ≠ 0 then 1 else 0
    match substr conn.currentPayload (index + argEncodingLen) with
    | none => .terminated
    | some view => percentDecode (view ++ [NUL]) ((find (ascii "&") view).getD view.length)

end HttpConnection

/-! ### Decoding -/

theorem tbl_hexDigit {n : Nat} (h : n < 16) : tbl (hexDigit n) = some (UInt8.ofNat n) := by
  have hall : ∀ m : Fin 16, tbl (hexDigit m) = some (UInt8.ofNat m) := by decide
  exact hall ⟨n, h⟩

/-- The two digits of a byte. -/
theorem nibbles (c : UInt8) : UInt8.ofNat (c.toNat / 16) <<< 4 ||| UInt8.ofNat (c.toNat % 16) = c := by
  have hall : ∀ n : Fin 256, UInt8.ofNat (n / 16) <<< 4 ||| UInt8.ofNat (n % 16) = UInt8.ofNat n := by decide +kernel
  have hc := hall ⟨c.toNat, c.toNat_lt⟩
  rwa [UInt8.ofNat_toNat] at hc

/-- What `percentDecode` makes of a byte that a form had to encode. -/
def plus (c : UInt8) : UInt8 := if c = SP then 43 else c

section Decode

variable {e : Encoding}

theorem decodeLoop_plain {c : UInt8} (h0 : c ≠ NUL) (h37 : c ≠ 37) (mem out : Bytes) (left : Nat) :
    decodeLoop (c :: mem) (left + 1) out = decodeLoop mem left (out ++ [c]) := by
  rw [decodeLoop.eq_def]
  simp only [if_neg h0, if_neg h37]

theorem decodeLoop_percent {h l v1 v2 : UInt8} (hhigh : tbl h = some v1) (hlow : tbl l = some v2) (mem out : Bytes)
    (left : Nat) :
    decodeLoop (37 :: h :: l :: mem) (left + 1) out = decodeLoop mem (left - 2) (out ++ [v1 <<< 4 ||| v2]) := by
  have h0 : (37 : UInt8) ≠ NUL := by decide
  rw [decodeLoop.eq_def]
  simp only [if_neg h0, if_true, hhigh, hlow]

theorem decodeLoop_end (b : UInt8) (mem out : Bytes) : decodeLoop (b :: mem) 0 out = .returned (some out) := by
  rw [decodeLoop.eq_def]
  dsimp only
  exact ite_self _

theorem decodeLoop_byte (c : UInt8) (mem out : Bytes) (left : Nat) :
    decodeLoop (e.byte c ++ mem) ((e.byte c).length + left) out = decodeLoop mem left (out ++ [plus c]) := by
  unfold Encoding.byte
  split
  · rename_i hliteral
    obtain ⟨h0, h32, h37, -⟩ := e.safe c hliteral
    rw [List.length_singleton, Nat.add_comm, List.singleton_append, decodeLoop_plain h0 h37, plus, if_neg h32]
  · split
    · rename_i hspace
      rw [List.length_singleton, Nat.add_comm, List.singleton_append, decodeLoop_plain (by decide) (by decide), plus,
        if_pos hspace]
    · rename_i hspace
      have hhigh : c.toNat / 16 < 16 := by
        have := c.toNat_lt
        omega
      have hlow : c.toNat % 16 < 16 := Nat.mod_lt _ (by omega)
      have hleft : [37, hexDigit (c.toNat / 16), hexDigit (c.toNat % 16)].length + left = (left + 2) + 1 := by
        rw [List.length_cons, List.length_cons, List.length_singleton]
        omega
      rw [hleft, List.cons_append, List.cons_append, List.singleton_append,
        decodeLoop_percent (tbl_hexDigit hhigh) (tbl_hexDigit hlow), nibbles, plus, if_neg hspace, Nat.add_sub_cancel]

theorem decodeLoop_text (s mem out : Bytes) :
    decodeLoop (e.text s ++ mem) (e.text s).length out = decodeLoop mem 0 (out ++ s.map plus) := by
  induction s generalizing out with
  | nil => simp [Encoding.text]
  | cons c s ih =>
    have htext : e.text (c :: s) = e.byte c ++ e.text s := List.flatMap_cons
    rw [htext, List.length_append, List.append_assoc, decodeLoop_byte, ih, List.map_cons, List.append_assoc]
    rfl

/-- The byte behind the input ends the loop, whatever it is. -/
theorem percentDecode_text (s : Bytes) (b : UInt8) (mem : Bytes) :
    percentDecode (e.text s ++ b :: mem) (e.text s).length = .returned (some (s.map plus)) := by
  rw [percentDecode, decodeLoop_text, decodeLoop_end, List.nil_append]

end Decode

/-! ### The lookup in a form -/

/-- The value of the first pair with a name. -/
def firstValue {e : Encoding} (name : e.Name) (pairs : List (e.Name × Bytes)) : Option Bytes :=
  (pairs.find? fun p => p.1 = name).map Prod.snd

/-- A field name of a form, as an argument of `arg`. -/
def fieldName {e : Encoding} (name : e.Name) : StaticString := ⟨name.1, not_mem_name (by decide) name⟩

/-- The connection has received a form. -/
def HttpConnection.submitted (conn : HttpConnection) {e : Encoding} (pairs : List (e.Name × Bytes)) : HttpConnection :=
  { conn with currentPayload := e.form pairs }

section Lookup

variable {e : Encoding} {conn : HttpConnection} {name : e.Name} {pairs : List (e.Name × Bytes)}

theorem firstPattern (name : e.Name) : (fieldName name).text ++ ascii "=" = name.1 ++ [61] := rfl

theorem furtherPattern (name : e.Name) : ascii "&" ++ (fieldName name).text ++ ascii "=" = 38 :: (name.1 ++ [61]) := rfl

theorem find_first_eq_zero_iff (first : e.Name × Bytes) (pairs : List (e.Name × Bytes)) :
    find (name.1 ++ [61]) (e.form (first :: pairs)) = some 0 ↔ name = first.1 := by
  rw [form_cons, find_eq_zero_iff, prefix_pair_iff]

theorem argPosition_none (h : ∀ p ∈ pairs, name ≠ p.1) : (conn.submitted pairs).argPosition (fieldName name) = none := by
  unfold HttpConnection.argPosition HttpConnection.submitted
  rw [firstPattern, furtherPattern]
  cases pairs with
  | nil =>
    have hnil : e.form [] = [] := rfl
    rw [hnil]
    cases name.1 <;> rfl
  | cons first pairs =>
    rw [List.forall_mem_cons] at h
    rw [if_pos fun hzero => h.1 ((find_first_eq_zero_iff first _).1 hzero)]
    exact find_form_none h.2

theorem argPosition_first (p : e.Name × Bytes) : (conn.submitted (p :: pairs)).argPosition (fieldName p.1) = some 0 := by
  have hzero := (find_first_eq_zero_iff p pairs).2 rfl
  unfold HttpConnection.argPosition HttpConnection.submitted
  rw [firstPattern, hzero]
  exact if_neg fun h => h rfl

theorem argPosition_later {first p : e.Name × Bytes} {before after : List (e.Name × Bytes)} (hfirst : p.1 ≠ first.1)
    (h : ∀ q ∈ before, p.1 ≠ q.1) :
    (conn.submitted (first :: before ++ p :: after)).argPosition (fieldName p.1) =
      some (e.form (first :: before)).length := by
  unfold HttpConnection.argPosition HttpConnection.submitted
  rw [firstPattern, furtherPattern]
  have hzero : find (p.1.1 ++ [61]) (e.form (first :: before ++ p :: after)) ≠ some 0 :=
    fun hzero => hfirst ((find_first_eq_zero_iff first _).1 hzero)
  exact (if_pos hzero).trans (find_form h)

/-- The value is cut off at the next pair, and decoded up to there. -/
theorem decode_view (v : Bytes) (after : List (e.Name × Bytes)) :
    percentDecode (e.text v ++ e.further after ++ [NUL])
        ((find (ascii "&") (e.text v ++ e.further after)).getD (e.text v ++ e.further after).length) =
      .returned (some (v.map plus)) := by
  have hand : (38 : UInt8) ∉ e.text v := not_mem_text (by decide) v
  have hascii : ascii "&" = [38] := rfl
  cases after with
  | nil =>
    have hnil : e.further [] = [] := rfl
    rw [hnil, List.append_nil, hascii, find_singleton_eq_none_iff.2 hand]
    exact percentDecode_text v NUL []
  | cons p after =>
    have hcons : e.further (p :: after) = 38 :: (e.pair p ++ e.further after) := rfl
    have hhere : [38] <+: 38 :: (e.pair p ++ e.further after) := List.prefix_append [38] _
    have hfind : find [38] (e.text v ++ 38 :: (e.pair p ++ e.further after)) = some (e.text v).length := by
      rw [find_append_skip hand, find_of_isPrefix hhere, Option.map_some, Nat.zero_add]
    rw [hcons, hascii, hfind, Option.getD_some, List.append_assoc, List.cons_append]
    exact percentDecode_text v 38 _

/-- The offset behind the name leads to the value, wherever the name was found. -/
theorem arg_of_position {index : Nat} {v : Bytes} {after : List (e.Name × Bytes)} {skipped : Bytes}
    (hposition : (conn.submitted pairs).argPosition (fieldName name) = some index)
    (hform : e.form pairs = skipped ++ (e.text v ++ e.further after))
    (hskipped : skipped.length = index + (1 + name.1.length + if index ≠ 0 then 1 else 0)) :
    (conn.submitted pairs).arg (fieldName name) = .returned (some (v.map plus)) := by
  have hview : substr (conn.submitted pairs).currentPayload
      (index + (1 + (fieldName name).text.length + if index ≠ 0 then 1 else 0)) = some (e.text v ++ e.further after) := by
    show substr (e.form pairs) (index + (1 + name.1.length + if index ≠ 0 then 1 else 0)) = _
    rw [hform]
    exact substr_append hskipped.symm
  unfold HttpConnection.arg
  rw [hposition]
  dsimp only
  rw [hview]
  exact decode_view v after

/-- What `arg` returns of a form, whatever the fields are: the first value under the name, with `+` for each space. -/
theorem arg_form (conn : HttpConnection) (name : e.Name) (pairs : List (e.Name × Bytes)) :
    (conn.submitted pairs).arg (fieldName name) = .returned ((firstValue name pairs).map (List.map plus)) := by
  unfold firstValue
  cases hfind : pairs.find? fun p => p.1 = name with
  | none =>
    have hnone : ∀ p ∈ pairs, name ≠ p.1 := by
      intro p hp heq
      have := List.find?_eq_none.1 hfind p hp
      simp [heq] at this
    unfold HttpConnection.arg
    rw [argPosition_none hnone]
    rfl
  | some p =>
    obtain ⟨hp, before, after, rfl, hbefore⟩ := List.find?_eq_some_iff_append.1 hfind
    obtain rfl : p.1 = name := by simpa using hp
    have hbefore : ∀ q ∈ before, p.1 ≠ q.1 := by
      intro q hq heq
      have := hbefore q hq
      simp [heq] at this
    cases before with
    | nil =>
      apply arg_of_position (argPosition_first p)
      · show e.form (p :: after) = (p.1.1 ++ [61]) ++ (e.text p.2 ++ e.further after)
        rw [form_cons, pair_eq]
        simp
      · rw [List.length_append, List.length_singleton, if_neg (fun h => h rfl)]
        omega
    | cons first before =>
      rw [List.forall_mem_cons] at hbefore
      have hlength : (e.form (first :: before)).length ≠ 0 := by
        rw [form_cons, pair_eq, List.length_append, List.length_append, List.length_cons]
        omega
      apply arg_of_position (argPosition_later hbefore.1 hbefore.2)
      · show e.form (first :: (before ++ p :: after)) =
          (e.form (first :: before) ++ 38 :: (p.1.1 ++ [61])) ++ (e.text p.2 ++ e.further after)
        have hfurther : e.further (p :: after) = 38 :: (e.pair p ++ e.further after) := rfl
        rw [form_cons, form_cons, further_append, hfurther, pair_eq p]
        simp
      · rw [List.length_append, List.length_cons, List.length_append, List.length_singleton, if_pos hlength]
        omega

/-- `arg` gives back what was entered exactly if the first field with the name holds no space. -/
theorem arg_form_iff (e : Encoding) (conn : HttpConnection) (name : e.Name) (pairs : List (e.Name × Bytes)) :
    (conn.submitted pairs).arg (fieldName name) = .returned (firstValue name pairs) ↔
      ∀ v, firstValue name pairs = some v → SP ∉ v := by
  have hplus : ∀ v : Bytes, v.map plus = v ↔ SP ∉ v := by
    intro v
    constructor
    · intro h hspace
      rw [← h] at hspace
      obtain ⟨c, -, hc⟩ := List.mem_map.1 hspace
      unfold plus at hc
      split at hc
      · exact absurd hc (by decide)
      · rename_i hne
        exact hne hc
    · intro h
      calc v.map plus = v.map id := List.map_congr_left fun c hc => if_neg fun hspace : c = SP => h (hspace ▸ hc)
        _ = v := List.map_id v
  rw [arg_form, Outcome.returned.injEq]
  cases firstValue name pairs with
  | none => simp
  | some v => simp [hplus]

end Lookup

/-- The encoding of browsers: letters, digits and `*-._` are literal. -/
def browserEncoding : Encoding where
  literal c := isDigit c || (65 ≤ c && c ≤ 90) || (97 ≤ c && c ≤ 122) || c ∈ [42, 45, 46, 95]
  safe c h := by
    refine ⟨?_, ?_, ?_, ?_, ?_, ?_⟩ <;>
      · rintro rfl
        revert h
        decide

def pskField : browserEncoding.Name := ⟨ascii "psk", List.all_eq_true.1 (by decide)⟩

/-- A password with a space in it. -/
theorem arg_of_space :
    firstValue pskField [(pskField, ascii "a b")] = some (ascii "a b") ∧
      ((HttpConnection.accepted 4).submitted [(pskField, ascii "a b")]).arg (fieldName pskField) =
        .returned (some (ascii "a+b")) ∧
      some (ascii "a+b") ≠ some (ascii "a b") :=
  ⟨rfl, arg_form _ _ _, by decide⟩

end IopHal
