import IopHal.Library.Find

/-!
# Forms as they are submitted

The format `application/x-www-form-urlencoded`: pairs of a name and a value, `name=value`, joined by `&`.  A space is
written as `+`, and every other byte that is not literal as `%` and two hexadecimal digits.  Which bytes are literal is
left open, up to what every such format needs (`Encoding.safe`); a name consists of literal bytes.

The results locate a pair: `name=` begins the form exactly if the first pair has that name, and `&name=` first occurs
where the first other one with that name begins.
-/

namespace Form

open Find

/-- Which bytes are written as they are. -/
structure Encoding where
  literal : UInt8 → Bool
  /-- none of zero, space, `%`, `&`, `+` and `=` -/
  safe : ∀ c, literal c = true → c ≠ 0 ∧ c ≠ 32 ∧ c ≠ 37 ∧ c ≠ 38 ∧ c ≠ 43 ∧ c ≠ 61

/-- An upper-case hexadecimal digit. -/
def hexDigit (n : ℕ) : UInt8 := UInt8.ofNat (if n < 10 then 48 + n else 55 + n)

namespace Encoding

variable (e : Encoding)

def byte (c : UInt8) : List UInt8 :=
  if e.literal c then [c]
  else if c = 32 then [43]
  else [37, hexDigit (c.toNat / 16), hexDigit (c.toNat % 16)]

def text (s : List UInt8) : List UInt8 := s.flatMap e.byte

abbrev Name := { n : List UInt8 // ∀ c ∈ n, e.literal c = true }

def pair (p : e.Name × List UInt8) : List UInt8 := e.text p.1.1 ++ 61 :: e.text p.2

def form (pairs : List (e.Name × List UInt8)) : List UInt8 := [38].intercalate (pairs.map e.pair)

/-- What follows the first pair. -/
def further (pairs : List (e.Name × List UInt8)) : List UInt8 := pairs.flatMap fun p => 38 :: e.pair p

end Encoding

variable {e : Encoding}

theorem hexDigit_ne {n : ℕ} (h : n < 16) {c : UInt8} (hc : c ∈ [0, 38, 61]) : hexDigit n ≠ c := by
  have hall : ∀ m : Fin 16, hexDigit m ≠ 0 ∧ hexDigit m ≠ 38 ∧ hexDigit m ≠ 61 := by decide
  obtain ⟨h0, h38, h61⟩ := hall ⟨n, h⟩
  simp only [List.mem_cons, List.not_mem_nil, or_false] at hc
  rcases hc with rfl | rfl | rfl
  · exact h0
  · exact h38
  · exact h61

/-- A delimiter does not occur in what is encoded. -/
theorem not_mem_text {c : UInt8} (hc : c ∈ [0, 38, 61]) (s : List UInt8) : c ∉ e.text s := by
  intro hmem
  obtain ⟨d, -, hd⟩ := List.mem_flatMap.1 hmem
  unfold Encoding.byte at hd
  split at hd
  · rename_i hliteral
    obtain rfl := List.mem_singleton.1 hd
    obtain ⟨h0, -, -, h38, -, h61⟩ := e.safe c hliteral
    simp only [List.mem_cons, List.not_mem_nil, or_false] at hc
    rcases hc with hc | hc | hc
    · exact h0 hc
    · exact h38 hc
    · exact h61 hc
  · split at hd
    · rw [List.mem_singleton.1 hd] at hc
      revert hc
      decide
    · simp only [List.mem_cons, List.not_mem_nil, or_false] at hd
      have hhigh : d.toNat / 16 < 16 := by
        have := d.toNat_lt
        omega
      rcases hd with hd | hd | hd
      · rw [hd] at hc
        revert hc
        decide
      · exact hexDigit_ne hhigh hc hd.symm
      · exact hexDigit_ne (Nat.mod_lt _ (by omega)) hc hd.symm

/-- A name is written as it is. -/
theorem text_name (n : e.Name) : e.text n.1 = n.1 := by
  obtain ⟨n, hn⟩ := n
  induction n with
  | nil => rfl
  | cons c n ih =>
    rw [List.forall_mem_cons] at hn
    have hc : e.byte c = [c] := by
      unfold Encoding.byte
      rw [if_pos hn.1]
    show e.byte c ++ e.text n = c :: n
    rw [hc, ih hn.2]
    rfl

theorem pair_eq (p : e.Name × List UInt8) : e.pair p = p.1.1 ++ 61 :: e.text p.2 := by
  rw [Encoding.pair, text_name]

theorem not_mem_name {c : UInt8} (hc : c ∈ [0, 38, 61]) (n : e.Name) : c ∉ n.1 := by
  rw [← text_name]
  exact not_mem_text hc _

theorem not_mem_pair (p : e.Name × List UInt8) : 38 ∉ e.pair p := by
  rw [pair_eq, List.mem_append, List.mem_cons]
  rintro (h | h | h)
  · exact not_mem_name (by decide) _ h
  · exact absurd h (by decide)
  · exact not_mem_text (by decide) _ h

theorem form_cons (p : e.Name × List UInt8) (pairs : List (e.Name × List UInt8)) :
    e.form (p :: pairs) = e.pair p ++ e.further pairs := by
  induction pairs generalizing p with
  | nil => simp [Encoding.form, Encoding.further]
  | cons q pairs ih =>
    have h : e.form (p :: q :: pairs) = e.pair p ++ 38 :: e.form (q :: pairs) := by
      simp [Encoding.form, List.intercalate]
    rw [h, ih]
    rfl

theorem further_append (pairs more : List (e.Name × List UInt8)) :
    e.further (pairs ++ more) = e.further pairs ++ e.further more := List.flatMap_append

/-! ### Where a name stands -/

/-- Up to the first `=`, a text begins with a name only if that is its name. -/
theorem prefix_iff {n m t : List UInt8} (hn : 61 ∉ n) (hm : 61 ∉ m) : n ++ [61] <+: m ++ 61 :: t ↔ n = m := by
  induction n generalizing m with
  | nil =>
    cases m with
    | nil => simp
    | cons d m =>
      rw [List.mem_cons, not_or] at hm
      simp [List.cons_prefix_cons, hm.1]
  | cons c n ih =>
    rw [List.mem_cons, not_or] at hn
    cases m with
    | nil => simp [List.cons_prefix_cons, Ne.symm hn.1]
    | cons d m =>
      rw [List.mem_cons, not_or] at hm
      rw [List.cons_append, List.cons_append, List.cons_prefix_cons, ih hn.2 hm.2, List.cons.injEq]

theorem prefix_pair_iff (n : e.Name) (p : e.Name × List UInt8) (t : List UInt8) :
    n.1 ++ [61] <+: e.pair p ++ t ↔ n = p.1 := by
  rw [pair_eq, List.append_assoc, List.cons_append,
    prefix_iff (not_mem_name (by decide) n) (not_mem_name (by decide) p.1), Subtype.ext_iff]

/-- Pairs with other names are skipped. -/
theorem find_further (n : e.Name) {before : List (e.Name × List UInt8)} (h : ∀ p ∈ before, n ≠ p.1) (l : List UInt8) :
    find (38 :: (n.1 ++ [61])) (e.further before ++ l) =
      (find (38 :: (n.1 ++ [61])) l).map (· + (e.further before).length) := by
  induction before with
  | nil => simp [Encoding.further]
  | cons p before ih =>
    rw [List.forall_mem_cons] at h
    have hsplit : e.further (p :: before) ++ l = 38 :: (e.pair p ++ (e.further before ++ l)) := by
      simp [Encoding.further]
    have hlength : (e.further (p :: before)).length = (e.pair p).length + 1 + (e.further before).length := by
      rw [Encoding.further, List.flatMap_cons, List.length_append, List.length_cons]
      rfl
    have hprefix : ¬ 38 :: (n.1 ++ [61]) <+: 38 :: (e.pair p ++ (e.further before ++ l)) := by
      rw [List.cons_prefix_cons, prefix_pair_iff]
      exact fun hp => h.1 hp.2
    rw [hsplit, find_cons_of_not_isPrefix hprefix, find_append_skip (not_mem_pair p), ih h.2, hlength]
    cases find (38 :: (n.1 ++ [61])) l with
    | none => rfl
    | some i =>
      simp only [Option.map_some, Option.some.injEq]
      omega

/-- The pair `p` is the first with its name, and it does not come first. -/
theorem find_form {first p : e.Name × List UInt8} {before after : List (e.Name × List UInt8)}
    (h : ∀ q ∈ before, p.1 ≠ q.1) :
    find (38 :: (p.1.1 ++ [61])) (e.form (first :: before ++ p :: after)) = some (e.form (first :: before)).length := by
  have hform : e.form (first :: before ++ p :: after) =
      e.pair first ++ (e.further before ++ e.further (p :: after)) := by
    rw [List.cons_append, form_cons, further_append]
  have hhere : 38 :: (p.1.1 ++ [61]) <+: e.further (p :: after) := by
    show 38 :: (p.1.1 ++ [61]) <+: 38 :: (e.pair p ++ e.further after)
    rw [List.cons_prefix_cons, prefix_pair_iff]
    exact ⟨rfl, rfl⟩
  rw [hform, find_append_skip (not_mem_pair first), find_further p.1 h, find_of_isPrefix hhere, form_cons,
    List.length_append]
  simp only [Option.map_some, Option.some.injEq]
  omega

/-- No pair has the name. -/
theorem find_form_none {n : e.Name} {first : e.Name × List UInt8} {pairs : List (e.Name × List UInt8)}
    (h : ∀ q ∈ pairs, n ≠ q.1) : find (38 :: (n.1 ++ [61])) (e.form (first :: pairs)) = none := by
  have hnil := find_further n h []
  rw [List.append_nil] at hnil
  rw [form_cons, find_append_skip (not_mem_pair first), hnil]
  rfl

end Form
