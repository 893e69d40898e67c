import IopHal.Library.Percent
import IopHal.Server.Arg

/-!
# `percentDecode` on any payload

On a view that is free of zeros and followed by a delimiter, `percentDecode` accepts what reads as a byte string with
escapes and gives that back.  The delimiter is no hexadecimal digit, so an escape that the view cuts off is refused, but
the two digits are fetched before they are looked at: behind a `%` at the very end of the payload the second one is
fetched from behind the terminator.  `percentDecode_iff` and `arg_inside_iff` say when that happens.
-/

namespace IopHal

open Find Percent

/-! ### The table -/

theorem tbl_eq (c : UInt8) : tbl c = (digit c).map UInt8.ofNat := by
  have hall : ∀ n : Fin 256, tbl (UInt8.ofNat n) = (digit (UInt8.ofNat n)).map UInt8.ofNat := by decide +kernel
  have hc := hall ⟨c.toNat, c.toNat_lt⟩
  rwa [UInt8.ofNat_toNat] at hc

theorem tbl_of_digit {c : UInt8} {m : Nat} (h : digit c = some m) : tbl c = some (UInt8.ofNat m) := by
  rw [tbl_eq, h]
  rfl

/-- The two digits of a byte, put together again. -/
theorem escaped_byte {m n : Nat} (hm : m < 16) (hn : n < 16) :
    UInt8.ofNat m <<< 4 ||| UInt8.ofNat n = UInt8.ofNat (16 * m + n) := by
  have hbyte := nibbles (UInt8.ofNat (16 * m + n))
  have hvalue : (UInt8.ofNat (16 * m + n)).toNat = 16 * m + n := by
    rw [UInt8.toNat_ofNat']
    omega
  have hhigh : (16 * m + n) / 16 = m := by omega
  have hlow : (16 * m + n) % 16 = n := by omega
  rwa [hvalue, hhigh, hlow] at hbyte

/-! ### The loop -/

variable {w v : Bytes}

/-- The loop runs through what reads as a byte string. -/
theorem decodeLoop_of_decodes (h : Decodes w v) (hnul : NUL ∉ w) (mem : Bytes) (left : Nat) (out : Bytes) :
    decodeLoop (w ++ mem) (w.length + left) out = decodeLoop mem left (out ++ v) := by
  induction h generalizing out with
  | nil =>
    rw [List.length_nil, Nat.zero_add, List.append_nil]
    rfl
  | @plain c t s hc _ ih =>
    rw [List.mem_cons, not_or] at hnul
    have hleft : (c :: t).length + left = (t.length + left) + 1 := by
      rw [List.length_cons]
      omega
    rw [hleft, List.cons_append, decodeLoop_plain (Ne.symm hnul.1) hc, ih hnul.2, List.append_assoc]
    rfl
  | @escape h l m n t s hh hl _ ih =>
    simp only [List.mem_cons, not_or] at hnul
    have hleft : (37 :: h :: l :: t).length + left = (t.length + left + 2) + 1 := by
      rw [List.length_cons, List.length_cons, List.length_cons]
      omega
    rw [hleft, List.cons_append, List.cons_append, List.cons_append,
      decodeLoop_percent (tbl_of_digit hh) (tbl_of_digit hl), escaped_byte (digit_lt hh) (digit_lt hl),
      Nat.add_sub_cancel, ih hnul.2.2.2, List.append_assoc]
    rfl

/-- The two bytes behind a `%` are fetched before they are looked at. -/
theorem decodeLoop_fetch (h l : UInt8) (mem : Bytes) (left : Nat) (out : Bytes) (hdigits : tbl h = none ∨ tbl l = none) :
    decodeLoop (37 :: h :: l :: mem) (left + 1) out = .returned none := by
  have h0 : (37 : UInt8) ≠ NUL := by decide
  rw [decodeLoop.eq_def]
  simp only [if_neg h0, if_true]
  rcases hdigits with hnone | hnone
  · rw [hnone]
  · rw [hnone]
    cases tbl h <;> rfl

theorem decodeLoop_short (mem : Bytes) (hmem : mem.length < 2) (left : Nat) (out : Bytes) :
    decodeLoop (37 :: mem) (left + 1) out = .undefined := by
  have h0 : (37 : UInt8) ≠ NUL := by decide
  rw [decodeLoop.eq_def]
  simp only [if_neg h0, if_true]
  cases mem with
  | nil => rfl
  | cons b mem =>
    cases mem with
    | nil => rfl
    | cons c mem =>
      rw [List.length_cons, List.length_cons] at hmem
      omega

/-- A `%` without its digits is refused, unless there is no memory left to fetch them from. -/
theorem decodeLoop_broken {u : Bytes} (hu : Broken u) {d : UInt8} (hd : tbl d = none) (rest : Bytes) (left : Nat)
    (out : Bytes) :
    decodeLoop (37 :: (u ++ d :: rest)) (left + 1) out = if u = [] ∧ rest = [] then .undefined else .returned none := by
  match u with
  | [] =>
    cases rest with
    | nil =>
      rw [if_pos ⟨rfl, rfl⟩]
      exact decodeLoop_short [d] (by simp) left out
    | cons b rest =>
      rw [if_neg fun h => absurd h.2 (List.cons_ne_nil b rest)]
      exact decodeLoop_fetch d b rest left out (.inl hd)
  | [h] =>
    rw [if_neg fun hnil => absurd hnil.1 (List.cons_ne_nil h [])]
    exact decodeLoop_fetch h d rest left out (.inr hd)
  | h :: l :: u =>
    rw [if_neg fun hnil => absurd hnil.1 (List.cons_ne_nil h _)]
    apply decodeLoop_fetch
    rw [tbl_eq, tbl_eq, Option.map_eq_none_iff, Option.map_eq_none_iff]
    by_contra hsome
    rw [not_or] at hsome
    obtain ⟨m, hm⟩ := Option.ne_none_iff_exists'.1 hsome.1
    obtain ⟨n, hn⟩ := Option.ne_none_iff_exists'.1 hsome.2
    exact hu h l u m n rfl hm hn

/-! ### Views -/

/-- The view ends with a `%` where an escape begins. -/
def EndsInPercent (view : Bytes) : Prop := ∃ w v, view = w ++ [37] ∧ Decodes w v

theorem percentDecode_of_decodes (h : Decodes w v) (hnul : NUL ∉ w) (d : UInt8) (rest : Bytes) :
    percentDecode (w ++ d :: rest) w.length = .returned (some v) := by
  have hloop := decodeLoop_of_decodes h hnul (d :: rest) 0 []
  rwa [Nat.add_zero, decodeLoop_end, List.nil_append] at hloop

/-- What an encoder writes is decoded. -/
theorem percentDecode_of_encodes (h : Encodes v w) (d : UInt8) (rest : Bytes) :
    percentDecode (w ++ d :: rest) w.length = .returned (some v) :=
  percentDecode_of_decodes h.decodes (h.not_mem (.inr rfl)) d rest

theorem percentDecode_of_broken {u : Bytes} (h : Decodes w v) (hu : Broken u) (hnul : NUL ∉ w) {d : UInt8}
    (hd : tbl d = none) (rest : Bytes) :
    percentDecode ((w ++ 37 :: u) ++ d :: rest) (w ++ 37 :: u).length =
      if u = [] ∧ rest = [] then .undefined else .returned none := by
  have hlength : (w ++ 37 :: u).length = w.length + (u.length + 1) := by
    rw [List.length_append, List.length_cons]
  unfold percentDecode
  rw [hlength, List.append_assoc, List.cons_append, decodeLoop_of_decodes h hnul, decodeLoop_broken hu hd]

theorem broken_nil : Broken [] := by
  intro h l rest m n hnil
  contradiction

theorem tbl_delimiter {d : UInt8} (hd : d = 38 ∨ d = NUL) : tbl d = none := by
  rcases hd with rfl | rfl <;> rfl

theorem not_endsInPercent_of_decodes (h : Decodes w v) : ¬ EndsInPercent w := by
  rintro ⟨front, value, rfl, hfront⟩
  obtain ⟨r, hr, -⟩ := hfront.drop h
  exact Decodes.not_broken broken_nil hr

/-- If the view ends in such a `%`, that is where its reading breaks off. -/
theorem endsInPercent_broken_iff {u : Bytes} (h : Decodes w v) (hu : Broken u) :
    EndsInPercent (w ++ 37 :: u) ↔ u = [] := by
  constructor
  · intro hend
    obtain ⟨w', v', heq, hw'⟩ := hend
    cases u using List.reverseRecOn with
    | nil => rfl
    | append_singleton u c =>
      rw [← List.cons_append, ← List.append_assoc] at heq
      rw [← (List.append_inj' heq rfl).1] at hw'
      obtain ⟨r, hr, -⟩ := h.drop hw'
      exact absurd hr (Decodes.not_broken hu.left)
  · rintro rfl
    exact ⟨w, v, rfl, h⟩

/-- A view that breaks off at a `%` without its digits does not read as a byte string. -/
theorem not_decodes_of_broken {u : Bytes} (h : Decodes w v) (hu : Broken u) (value : Bytes) :
    ¬ Decodes (w ++ 37 :: u) value := by
  intro hvalue
  obtain ⟨r, hr, -⟩ := h.drop hvalue
  exact Decodes.not_broken hu hr

/-- `percentDecode` follows its grammar exactly if it is not sent behind the memory by a `%` at the end of the view, and
undoes every encoder. -/
theorem percentDecode_iff (view : Bytes) (hview : NUL ∉ view) (d : UInt8) (hd : d = 38 ∨ d = NUL) (rest : Bytes) :
    ((∃ result, percentDecode (view ++ d :: rest) view.length = .returned result ∧
        ∀ value, result = some value ↔ Decodes view value) ↔
      rest ≠ [] ∨ ¬ EndsInPercent view) ∧
      ∀ s, Encodes s view → percentDecode (view ++ d :: rest) view.length = .returned (some s) := by
  constructor
  · rcases decodes_or_broken view with ⟨s, hs⟩ | ⟨w, s, u, rfl, hs, hu⟩
    · apply iff_of_true
      · refine ⟨some s, percentDecode_of_decodes hs hview d rest, fun value => ?_⟩
        constructor
        · intro h
          rwa [← Option.some.inj h]
        · intro h
          rw [hs.unique h]
      · exact .inr (not_endsInPercent_of_decodes hs)
    · have hw : NUL ∉ w := fun hmem => hview (List.mem_append_left _ hmem)
      rw [percentDecode_of_broken hs hu hw (tbl_delimiter hd), endsInPercent_broken_iff hs hu]
      by_cases hend : u = [] ∧ rest = []
      · apply iff_of_false
        · rintro ⟨result, h, -⟩
          rw [if_pos hend] at h
          contradiction
        · rw [hend.1, hend.2]
          exact fun h => h.elim (fun hne => hne rfl) fun hne => hne rfl
      · apply iff_of_true
        · refine ⟨none, if_neg hend, fun value => iff_of_false ?_ (not_decodes_of_broken hs hu value)⟩
          intro h
          contradiction
        · rw [not_and_or] at hend
          exact hend.symm
  · intro s hs
    exact percentDecode_of_encodes hs d rest

/-- An escape that the `&` behind the view cuts off. -/
theorem percentDecode_at_delimiter :
    ∃ result, percentDecode (ascii "a%" ++ 38 :: [NUL]) (ascii "a%").length = .returned result ∧
      ∀ value, result = some value ↔ Decodes (ascii "a%") value :=
  (percentDecode_iff (ascii "a%") (by decide) 38 (.inl rfl) [NUL]).1.2 (.inl (by decide))

/-- An escape that the terminator cuts off. -/
theorem percentDecode_at_terminator :
    ¬ ∃ result, percentDecode (ascii "%" ++ [NUL]) (ascii "%").length = .returned result ∧
      ∀ value, result = some value ↔ Decodes (ascii "%") value := by
  have hundefined : percentDecode (ascii "%" ++ [NUL]) (ascii "%").length = .undefined := rfl
  rw [hundefined]
  intro h
  obtain ⟨result, hresult, -⟩ := h
  contradiction

theorem decodeLoop_nul (mem : Bytes) (left : Nat) (out : Bytes) :
    decodeLoop (NUL :: mem) left out = .returned (some out) := by
  rw [decodeLoop.eq_def]
  simp only [if_true]

/-- Inside a view, a zero is as good as a terminator. -/
theorem percentDecode_of_nul {view : Bytes} (h : NUL ∈ view) {d : UInt8} (rest : Bytes) :
    percentDecode (view ++ d :: rest) view.length ≠ .undefined := by
  obtain ⟨u, t, rfl, hu⟩ := List.eq_append_cons_of_mem h
  have hlength : (u ++ NUL :: t).length = u.length + (t.length + 1) := by
    rw [List.length_append, List.length_cons]
  unfold percentDecode
  rw [hlength, List.append_assoc, List.cons_append]
  rcases decodes_or_broken u with ⟨s, hs⟩ | ⟨w, s, b, rfl, hs, hb⟩
  · rw [decodeLoop_of_decodes hs hu, decodeLoop_nul]
    exact Outcome.returned_ne_undefined _
  · have hw : NUL ∉ w := fun hmem => hu (List.mem_append_left _ hmem)
    have hleft : (w ++ 37 :: b).length + (t.length + 1) = w.length + ((b.length + (t.length + 1)) + 1) := by
      rw [List.length_append, List.length_cons]
      omega
    rw [hleft, List.append_assoc, List.cons_append, decodeLoop_of_decodes hs hw, decodeLoop_broken hb rfl, if_neg]
    · exact Outcome.returned_ne_undefined _
    · intro hnil
      exact absurd hnil.2 (List.append_ne_nil_of_right_ne_nil _ (List.cons_ne_nil _ _))

/-- When `percentDecode` reads behind the memory that ends with the delimiter and what follows it. -/
theorem percentDecode_undefined_iff (view : Bytes) {d : UInt8} (hd : d = 38 ∨ d = NUL) (rest : Bytes) :
    percentDecode (view ++ d :: rest) view.length = .undefined ↔ rest = [] ∧ NUL ∉ view ∧ EndsInPercent view := by
  by_cases hnul : NUL ∈ view
  · exact iff_of_false (percentDecode_of_nul hnul rest) fun h => h.2.1 hnul
  · rcases decodes_or_broken view with ⟨s, hs⟩ | ⟨w, s, u, rfl, hs, hu⟩
    · rw [percentDecode_of_decodes hs hnul]
      exact iff_of_false (Outcome.returned_ne_undefined _) fun h => not_endsInPercent_of_decodes hs h.2.2
    · have hw : NUL ∉ w := fun hmem => hnul (List.mem_append_left _ hmem)
      rw [percentDecode_of_broken hs hu hw (tbl_delimiter hd), endsInPercent_broken_iff hs hu]
      by_cases hend : u = [] ∧ rest = []
      · rw [if_pos hend]
        exact iff_of_true rfl ⟨hend.2, hnul, hend.1⟩
      · rw [if_neg hend]
        exact iff_of_false (Outcome.returned_ne_undefined _) fun h => hend ⟨h.2.2, h.1⟩

/-! ### The field that `arg` finds -/

/-- What `arg` makes of the text behind a name. -/
def decodeText (text : Bytes) : Outcome (Option Bytes) :=
  percentDecode (text ++ [NUL]) ((find (ascii "&") text).getD text.length)

theorem decodeText_eq {text : Bytes} (h : 38 ∉ text) : decodeText text = percentDecode (text ++ [NUL]) text.length := by
  have hascii : ascii "&" = [38] := rfl
  rw [decodeText, hascii, find_singleton_eq_none_iff.2 h]
  rfl

theorem decodeText_cut {text : Bytes} (h : 38 ∉ text) (behind : Bytes) :
    decodeText (text ++ 38 :: behind) = percentDecode (text ++ 38 :: (behind ++ [NUL])) text.length := by
  have hascii : ascii "&" = [38] := rfl
  have hfind : find [38] (text ++ 38 :: behind) = some text.length := by
    rw [List.append_cons]
    exact find_append_here h [] behind
  rw [decodeText, hascii, hfind, List.append_assoc]
  rfl

section Field

variable {conn : HttpConnection} {name : StaticString} {text before : Bytes}

theorem arg_of_first (h : conn.currentPayload = name.text ++ [61] ++ text) : conn.arg name = decodeText text := by
  have hfind : find (name.text ++ ascii "=") conn.currentPayload = some 0 := by
    rw [h]
    exact find_of_isPrefix (List.prefix_append _ _)
  have hview : substr conn.currentPayload (0 + (1 + name.text.length + 0)) = some text := by
    rw [h]
    apply substr_append
    rw [List.length_append, List.length_singleton]
    omega
  unfold HttpConnection.arg HttpConnection.argPosition
  rw [hfind]
  simp only [ne_eq, not_true_eq_false, if_false, hview]
  rfl

theorem argPosition_of_not_first (h : ¬ name.text ++ [61] <+: conn.currentPayload) :
    conn.argPosition name = find (38 :: (name.text ++ [61])) conn.currentPayload :=
  if_pos fun hzero => h (find_eq_zero_iff.1 hzero)

theorem arg_of_none (h : ¬ name.text ++ [61] <+: conn.currentPayload)
    (hfind : find (38 :: (name.text ++ [61])) conn.currentPayload = none) : conn.arg name = .returned none := by
  unfold HttpConnection.arg
  rw [argPosition_of_not_first h, hfind]

/-- Behind the first `&name=`, but the `=` is taken for text if nothing stands before it. -/
theorem arg_of_further (h : ¬ name.text ++ [61] <+: conn.currentPayload)
    (hpayload : conn.currentPayload = before ++ 38 :: (name.text ++ [61]) ++ text)
    (hfind : find (38 :: (name.text ++ [61])) conn.currentPayload = some before.length) :
    conn.arg name = decodeText (if before = [] then 61 :: text else text) := by
  unfold HttpConnection.arg
  rw [argPosition_of_not_first h, hfind]
  dsimp only
  by_cases hnil : before = []
  · subst hnil
    have hview : substr conn.currentPayload (1 + name.text.length) = some (61 :: text) := by
      have hsplit : conn.currentPayload = 38 :: name.text ++ 61 :: text := by
        rw [hpayload]
        simp
      rw [hsplit]
      apply substr_append
      rw [List.length_cons]
      omega
    simp only [List.length_nil, ne_eq, not_true_eq_false, if_false, Nat.zero_add, Nat.add_zero, if_true, hview]
    rfl
  · have hlength : before.length ≠ 0 := fun hzero => hnil (List.eq_nil_of_length_eq_zero hzero)
    have hview : substr conn.currentPayload (before.length + (1 + name.text.length + 1)) = some text := by
      rw [hpayload]
      apply substr_append
      rw [List.length_append, List.length_cons, List.length_append, List.length_singleton]
      omega
    rw [if_pos hlength, if_neg hnil, hview]
    rfl

/-- The payload ends with a `%` where an escape of the field that `arg` finds begins. -/
def CutOff (name payload : Bytes) : Prop :=
  ∃ text, 38 ∉ text ∧ NUL ∉ text ∧ EndsInPercent text ∧
    (payload = name ++ [61] ++ text ∨
      ¬ name ++ [61] <+: payload ∧ ∃ before, payload = before ++ 38 :: (name ++ [61]) ++ text ∧
        find (38 :: (name ++ [61])) payload = some before.length)

theorem endsInPercent_cons_iff {c : UInt8} (hc : c ≠ 37) : EndsInPercent (c :: text) ↔ EndsInPercent text := by
  constructor
  · intro h
    obtain ⟨w, v, heq, hw⟩ := h
    cases w with
    | nil => exact absurd (List.cons.inj heq).1 hc
    | cons d w =>
      obtain ⟨rfl, rfl⟩ := List.cons.inj heq
      obtain ⟨s, -, hs⟩ := hw.of_plain hc
      exact ⟨w, s, rfl, hs⟩
  · intro h
    obtain ⟨w, v, rfl, hw⟩ := h
    exact ⟨c :: w, c :: v, rfl, .plain hc hw⟩

theorem decodeText_undefined_iff : decodeText text = .undefined ↔ 38 ∉ text ∧ NUL ∉ text ∧ EndsInPercent text := by
  by_cases hand : 38 ∈ text
  · obtain ⟨view, behind, rfl, hview⟩ := List.eq_append_cons_of_mem hand
    rw [decodeText_cut hview, percentDecode_undefined_iff view (.inl rfl)]
    refine iff_of_false ?_ fun h => h.1 hand
    intro h
    exact absurd h.1 (List.append_ne_nil_of_right_ne_nil _ (List.cons_ne_nil _ _))
  · rw [decodeText_eq hand, percentDecode_undefined_iff text (.inr rfl)]
    exact ⟨fun h => ⟨hand, h.2⟩, fun h => ⟨rfl, h.2⟩⟩

/-- The `=` that may be taken for text changes nothing. -/
theorem decodeText_equals_undefined_iff : decodeText (61 :: text) = .undefined ↔ decodeText text = .undefined := by
  have hand : (38 : UInt8) ≠ 61 := by decide
  have hnul : NUL ≠ 61 := by decide
  have hends : EndsInPercent (61 :: text) ↔ EndsInPercent text := endsInPercent_cons_iff (by decide)
  rw [decodeText_undefined_iff, decodeText_undefined_iff, hends, List.mem_cons, List.mem_cons, not_or, not_or,
    and_iff_right hand, and_iff_right hnul]

theorem cutOff_of_first {name payload : Bytes} (h : payload = name ++ [61] ++ text) :
    CutOff name payload ↔ decodeText text = .undefined := by
  rw [decodeText_undefined_iff]
  constructor
  · rintro ⟨text', hand, hnul, hend, heq | ⟨hnot, -⟩⟩
    · obtain rfl := List.append_cancel_left (h.symm.trans heq)
      exact ⟨hand, hnul, hend⟩
    · exact absurd ⟨text, h.symm⟩ hnot
  · rintro ⟨hand, hnul, hend⟩
    exact ⟨text, hand, hnul, hend, .inl h⟩

theorem cutOff_of_further {name payload : Bytes} (hnot : ¬ name ++ [61] <+: payload)
    (h : payload = before ++ 38 :: (name ++ [61]) ++ text)
    (hfind : find (38 :: (name ++ [61])) payload = some before.length) :
    CutOff name payload ↔ decodeText text = .undefined := by
  rw [decodeText_undefined_iff]
  constructor
  · rintro ⟨text', hand, hnul, hend, heq | ⟨-, before', h', hfind'⟩⟩
    · exact absurd ⟨text', heq.symm⟩ hnot
    · have hlength : (before ++ 38 :: (name ++ [61])).length = (before' ++ 38 :: (name ++ [61])).length := by
        rw [List.length_append, List.length_append, Option.some.inj (hfind.symm.trans hfind')]
      rw [(List.append_inj (h.symm.trans h') hlength).2]
      exact ⟨hand, hnul, hend⟩
  · rintro ⟨hand, hnul, hend⟩
    exact ⟨text, hand, hnul, hend, .inr ⟨hnot, before, h, hfind⟩⟩

theorem not_cutOff {name payload : Bytes} (hnot : ¬ name ++ [61] <+: payload)
    (hfind : find (38 :: (name ++ [61])) payload = none) : ¬ CutOff name payload := by
  rintro ⟨text', -, -, -, heq | ⟨-, before, -, hsome⟩⟩
  · exact hnot ⟨text', heq.symm⟩
  · rw [hfind] at hsome
    contradiction

/-- `arg` stays inside of the payload and its terminator unless the payload breaks off inside the field. -/
theorem arg_inside_iff (conn : HttpConnection) (name : StaticString) :
    conn.arg name ≠ .undefined ↔ ¬ CutOff name.text conn.currentPayload := by
  apply not_congr
  by_cases hstarts : name.text ++ [61] <+: conn.currentPayload
  · obtain ⟨text, hpayload⟩ := hstarts
    rw [arg_of_first hpayload.symm, cutOff_of_first hpayload.symm]
  · cases hfind : find (38 :: (name.text ++ [61])) conn.currentPayload with
    | none =>
      rw [arg_of_none hstarts hfind]
      exact iff_of_false (Outcome.returned_ne_undefined _) (not_cutOff hstarts hfind)
    | some n =>
      obtain ⟨before, text, hpayload, rfl⟩ : ∃ before text,
          conn.currentPayload = before ++ 38 :: (name.text ++ [61]) ++ text ∧ before.length = n := by
        have hle := find_le hfind
        refine ⟨conn.currentPayload.take n, conn.currentPayload.drop _, find_split hfind, ?_⟩
        rw [List.length_take]
        omega
      rw [arg_of_further hstarts hpayload hfind, cutOff_of_further hstarts hpayload hfind]
      split
      · exact decodeText_equals_undefined_iff
      · exact Iff.rfl

/-- The second digit of a field that ends in `%` is read from behind the terminator. -/
theorem arg_cut_off :
    ({ HttpConnection.accepted 4 with currentPayload := ascii "a=%" }).arg ⟨ascii "a", by decide⟩ = .undefined := rfl

end Field

end IopHal
