import IopHal.Client.Parser
import IopHal.Library.Framing

/-!
# What the header loop collects

The header loop compares each key with the start of the remaining text, not with a field name.  `valueAt key b` is
the value it finds under `key` when a header line starts at the text `b`, and `collected keys b` what it adds for all
keys.

* (`collectKey_eq`) this is what the source computes whenever the search for the value stays inside the buffer;
* (`scanHead_line`, `scanHead_lines`) the loop passes whole lines and collects at each of them;
* (`valueAt_line`) for a key without CR only the line itself matters, not the text behind it;
* (`lookup_collectedLines`) a key is looked up at the first line where the text starts with it.
-/

namespace IopHal

open Find Framing

/-- An optional colon is skipped. -/
def skipColon (v : Bytes) : Bytes := if v.head? = some COLON then v.tail else v

/-- The text behind a key without colon and spaces -/
def afterKey (v : Bytes) : Bytes := (skipColon v).dropWhile (· = SP)

/-- The comparison of a key with the start of a text -/
def BeginsWith (key b : Bytes) : Prop := key.length + 2 ≤ b.length ∧ lower (b.take key.length) = cview key

instance (key b : Bytes) : Decidable (BeginsWith key b) := inferInstanceAs (Decidable (_ ∧ _))

/-- The text behind a key up to the end of the line -/
def valueBehind (key b : Bytes) : Bytes :=
  let v := afterKey (b.drop key.length)
  v.take ((find crlf v).getD v.length)

def valueAt (key b : Bytes) : Option Bytes := if BeginsWith key b then some (valueBehind key b) else none

/-- Add a value unless there is none. -/
def Headers.add (hs : Headers) (key : Bytes) (value : Option Bytes) : Headers := value.elim hs (hs.emplace key)

def collected (keys : List Bytes) (b : Bytes) (hs : Headers) : Headers :=
  keys.foldl (fun hs key => hs.add (cview key) (valueAt key b)) hs

/-- The headers collected at the lines `ls` when the text `t` follows. -/
def collectedLines (keys : List Bytes) : List Bytes → Bytes → Headers → Headers
  | [], _, hs => hs
  | l :: ls, t, hs => collectedLines keys ls t (collected keys (unlines crlf (l :: ls) ++ t) hs)

/-! ### Keys -/

theorem skipSpaces_eq {v beyond : Bytes} (h : (∃ c ∈ v, c ≠ SP) ∨ ∃ t, beyond = NUL :: t) :
    skipSpaces v beyond = .ok (v.dropWhile (· = SP)) := by
  induction v with
  | nil =>
    rcases h with ⟨c, hc, -⟩ | ⟨t, rfl⟩
    · simp at hc
    · have : ¬ (NUL = SP) := by decide
      simp [skipSpaces, this]
  | cons c v ih =>
    by_cases hc : c = SP
    · subst hc
      have h' : (∃ c ∈ v, c ≠ SP) ∨ ∃ t, beyond = NUL :: t := by
        rcases h with ⟨d, hd, hne⟩ | ht
        · rcases List.mem_cons.1 hd with rfl | hd
          · exact absurd rfl hne
          · exact Or.inl ⟨d, hd, hne⟩
        · exact Or.inr ht
      simp [skipSpaces, ih h']
    · simp [skipSpaces, hc]

/-- A key that matches the start of a text holds a CR if the text does so that early. -/
private theorem cr_mem_key {key b : Bytes} (h : lower (b.take key.length) = cview key) (hcr : CR ∈ b.take key.length) :
    CR ∈ key := by
  have hmem : CR ∈ lower (b.take key.length) := (mem_lower_iff (by decide)).2 hcr
  rw [h] at hmem
  exact (List.takeWhile_sublist _).subset hmem

/-- The search for a value stays inside the buffer: the buffer is not full, or a CR ends the line. -/
def Bounded (keys : List Bytes) (b : Bytes) : Prop := b.length < bufferSize ∨ CR ∈ b ∧ ∀ key ∈ keys, CR ∉ key

theorem collectKey_def (b beyond : Bytes) (hs : Headers) (key : Bytes) :
    collectKey b beyond hs key =
      if BeginsWith key b then
        (skipSpaces (skipColon (b.drop key.length)) beyond).map fun v =>
          hs.emplace (cview key) (v.take ((find crlf v).getD v.length))
      else .ok hs := by
  unfold collectKey
  by_cases hlen : b.length < key.length + 2
  · have hno : ¬ BeginsWith key b := fun h => absurd h.1 (by omega)
    rw [if_pos hlen, if_neg hno]
  · by_cases hpre : lower (b.take key.length) = cview key
    · have hyes : BeginsWith key b := ⟨by omega, hpre⟩
      have hcolon : (if (b.drop key.length).head? = some COLON then (b.drop key.length).tail else b.drop key.length) =
          skipColon (b.drop key.length) := rfl
      rw [if_neg hlen, if_neg (not_not.2 hpre), if_pos hyes]
      simp only [hcolon]
      cases skipSpaces (skipColon (b.drop key.length)) beyond <;> rfl
    · have hno : ¬ BeginsWith key b := fun h => hpre h.2
      rw [if_neg hlen, if_pos hpre, if_neg hno]

theorem mem_skipColon {c : UInt8} (hc : c ≠ COLON) {v : Bytes} (h : c ∈ v) : c ∈ skipColon v := by
  unfold skipColon
  cases v with
  | nil => simp at h
  | cons d v =>
    split
    · rename_i hd
      rw [List.head?_cons, Option.some.injEq] at hd
      subst hd
      exact (List.mem_cons.1 h).resolve_left hc
    · exact h

theorem collectKey_eq {keys : List Bytes} {b : Bytes} (hb : Bounded keys b) {key : Bytes} (hk : key ∈ keys)
    (hs : Headers) :
    collectKey b (List.replicate (bufferSize - b.length) NUL) hs key = .ok (hs.add (cview key) (valueAt key b)) := by
  rw [collectKey_def, valueAt]
  by_cases hbegin : BeginsWith key b
  · have hread : (∃ c ∈ skipColon (b.drop key.length), c ≠ SP) ∨
        ∃ t, List.replicate (bufferSize - b.length) NUL = NUL :: t := by
      rcases hb with hlt | ⟨hcr, hkeys⟩
      · obtain ⟨n, hn⟩ : ∃ n, bufferSize - b.length = n + 1 := ⟨bufferSize - b.length - 1, by omega⟩
        exact Or.inr ⟨List.replicate n NUL, by rw [hn, List.replicate_succ]⟩
      · rw [← List.take_append_drop key.length b, List.mem_append] at hcr
        have hdrop := hcr.resolve_left fun h => hkeys key hk (cr_mem_key hbegin.2 h)
        exact Or.inl ⟨CR, mem_skipColon (by decide) hdrop, by decide⟩
    rw [if_pos hbegin, if_pos hbegin, skipSpaces_eq hread]
    rfl
  · rw [if_neg hbegin, if_neg hbegin]
    rfl

theorem foldlM_collectKey {keys : List Bytes} {b : Bytes} (hb : Bounded keys b) (hs : Headers) :
    keys.foldlM (collectKey b (List.replicate (bufferSize - b.length) NUL)) hs = .ok (collected keys b hs) := by
  have h : ∀ keys' : List Bytes, keys' ⊆ keys → ∀ hs : Headers,
      keys'.foldlM (collectKey b (List.replicate (bufferSize - b.length) NUL)) hs = .ok (collected keys' b hs) := by
    intro keys'
    induction keys' with
    | nil => intro _ hs; rfl
    | cons key keys' ih =>
      intro hsub hs
      rw [List.foldlM_cons, collectKey_eq hb (hsub (List.mem_cons_self ..))]
      exact ih (fun k hk => hsub (List.mem_cons_of_mem _ hk)) _
  exact h keys (List.Subset.refl _) hs

/-- A key with a terminator inside never matches. -/
theorem cview_eq_of_valueAt {key b v : Bytes} (h : valueAt key b = some v) : cview key = key := by
  unfold valueAt at h
  split at h
  · rename_i hb
    have hlong := hb.1
    have hlen := congrArg List.length hb.2
    rw [length_lower, List.length_take] at hlen
    have hsub : (cview key).Sublist key := List.takeWhile_sublist _
    exact hsub.eq_of_length (by omega)
  · simp at h

theorem lookup_add {hs : Headers} {key b : Bytes} (k : Bytes) :
    (hs.add (cview key) (valueAt key b)).lookup k =
      (hs.lookup k).or (if k = key then valueAt k b else none) := by
  cases hv : valueAt key b with
  | none =>
    by_cases hk : k = key
    · subst hk; simp [Headers.add, hv]
    · simp [Headers.add, hk]
  | some v =>
    rw [cview_eq_of_valueAt hv]
    simp only [Headers.add, Option.elim_some, Headers.lookup_emplace]
    by_cases hk : k = key
    · subst hk; simp [hv]
    · simp [hk]

theorem lookup_collected (keys : List Bytes) (b : Bytes) (hs : Headers) (k : Bytes) :
    (collected keys b hs).lookup k = (hs.lookup k).or (if k ∈ keys then valueAt k b else none) := by
  induction keys generalizing hs with
  | nil => simp [collected]
  | cons key keys ih =>
    change (collected keys b (hs.add (cview key) (valueAt key b))).lookup k = _
    rw [ih, lookup_add]
    by_cases hk : k = key
    · subst hk
      cases hs.lookup k <;> cases valueAt k b <;> simp
    · simp [hk]

/-! ### Lines -/

theorem scanHead_nil (keys : List Bytes) (hs : Headers) : scanHead keys hs [] = .ok (hs, none) := by
  rw [scanHead]; simp

theorem scanHead_blank (keys : List Bytes) (hs : Headers) (t : Bytes) :
    scanHead keys hs (crlf ++ t) = .ok (hs, some t) := by
  have hf : find crlf (crlf ++ t) = some 0 := find_of_isPrefix (List.prefix_append _ _)
  rw [scanHead, dif_neg (by simp)]
  simp only [hf]
  simp

/-- Text without a line terminator is refused. -/
theorem scanHead_broken (keys : List Bytes) (hs : Headers) {p : Bytes} (hp : p ≠ []) (hlf : LF ∉ p) :
    scanHead keys hs p = .error ioError := by
  have hf : find crlf p = none := by
    rw [find_eq_none_iff]
    exact fun h => hlf (h.subset (by simp))
  rw [scanHead, dif_neg hp]
  simp only [hf]

/-- A whole line is passed and the keys are collected at its start. -/
theorem scanHead_line {keys : List Bytes} (hs : Headers) {l t : Bytes} (hl : l ≠ []) (hcr : CR ∉ l)
    (hb : Bounded keys (l ++ crlf ++ t)) :
    scanHead keys hs (l ++ crlf ++ t) = scanHead keys (collected keys (l ++ crlf ++ t) hs) t := by
  have hf : find crlf (l ++ crlf ++ t) = some l.length := find_append_here hcr [LF] t
  obtain ⟨i, hi⟩ : ∃ i, l.length = i + 1 := ⟨l.length - 1, by have := List.length_pos_iff.2 hl; omega⟩
  have hdrop : (l ++ crlf ++ t).drop (i + 1 + 2) = t := by
    rw [← hi, List.drop_left' (by simp)]
  rw [scanHead, dif_neg (by simp [hl])]
  simp only [hf, hi, foldlM_collectKey hb, hdrop]

theorem Bounded.drop {keys : List Bytes} {b t : Bytes} (h : Bounded keys (b ++ t)) (ht : CR ∈ t) : Bounded keys t := by
  rcases h with hlt | ⟨-, hk⟩
  · rw [List.length_append] at hlt
    exact Or.inl (by omega)
  · exact Or.inr ⟨ht, hk⟩

theorem scanHead_lines {keys ls : List Bytes} (hs : Headers) {t : Bytes} (hls : ∀ l ∈ ls, l ≠ [] ∧ CR ∉ l)
    (hb : Bounded keys (unlines crlf ls ++ t) ∨ ls = []) :
    scanHead keys hs (unlines crlf ls ++ t) = scanHead keys (collectedLines keys ls t hs) t := by
  induction ls generalizing hs with
  | nil => rfl
  | cons l ls ih =>
    have hb : Bounded keys (l ++ crlf ++ (unlines crlf ls ++ t)) := by
      simpa using hb.resolve_right (by simp)
    obtain ⟨hl, hcr⟩ := hls l (List.mem_cons_self ..)
    have hline := scanHead_line hs hl hcr hb
    rw [unlines_cons, List.append_assoc (l ++ crlf), hline, collectedLines, unlines_cons, List.append_assoc (l ++ crlf)]
    refine ih _ (fun l' hl' => hls l' (List.mem_cons_of_mem _ hl')) ?_
    cases ls with
    | nil => exact Or.inr rfl
    | cons l' ls => exact Or.inl (hb.drop (by simp))

/-! ### Keys without CR -/

private theorem find_crlf_dropWhile {l : Bytes} (hcr : CR ∉ l) (t : Bytes) :
    ((l ++ crlf ++ t).dropWhile (· = SP)).take ((find crlf ((l ++ crlf ++ t).dropWhile (· = SP))).getD
      ((l ++ crlf ++ t).dropWhile (· = SP)).length) = l.dropWhile (· = SP) := by
  have hdrop : (l ++ crlf ++ t).dropWhile (· = SP) = l.dropWhile (· = SP) ++ crlf ++ t := by
    rw [List.append_assoc, List.append_assoc, List.dropWhile_append]
    split
    · rename_i h
      have hnil : l.dropWhile (· = SP) = [] := by simpa using h
      have hsp : ¬ (CR = SP) := by decide
      simp [hnil, hsp]
    · rfl
  have hcr' : CR ∉ l.dropWhile (· = SP) := fun h => hcr ((List.dropWhile_sublist _).subset h)
  have hf : find crlf (l.dropWhile (· = SP) ++ crlf ++ t) = some (l.dropWhile (· = SP)).length :=
    find_append_here hcr' [LF] t
  rw [hdrop, hf, Option.getD_some, List.append_assoc, List.take_left']
  rfl

private theorem take_afterKey {v : Bytes} (hcr : CR ∉ v) (t : Bytes) :
    (afterKey (v ++ crlf ++ t)).take ((find crlf (afterKey (v ++ crlf ++ t))).getD
      (afterKey (v ++ crlf ++ t)).length) = afterKey v := by
  unfold afterKey skipColon
  cases v with
  | nil =>
    have hcolon : ¬ (CR = COLON) := by decide
    have := find_crlf_dropWhile (l := []) (by simp) t
    simpa [hcolon] using this
  | cons c v =>
    by_cases hc : c = COLON
    · subst hc
      have := find_crlf_dropWhile (l := v) (fun h => hcr (List.mem_cons_of_mem _ h)) t
      simpa using this
    · have := find_crlf_dropWhile hcr t
      simpa [hc] using this

/-- The value behind a key that lies inside the line ends with the line. -/
theorem valueBehind_line {key l : Bytes} (hlen : key.length ≤ l.length) (hcr : CR ∉ l) (t : Bytes) :
    valueBehind key (l ++ crlf ++ t) = afterKey (l.drop key.length) := by
  have hdrop : (l ++ crlf ++ t).drop key.length = l.drop key.length ++ crlf ++ t := by
    rw [List.append_assoc, List.drop_append_of_le_length hlen, List.append_assoc]
  have hcr' : CR ∉ l.drop key.length := fun h => hcr ((List.drop_sublist _ _).subset h)
  rw [valueBehind, hdrop]
  exact take_afterKey hcr' t

theorem beginsWith_line {key l : Bytes} (hlen : key.length ≤ l.length) (t : Bytes) :
    BeginsWith key (l ++ crlf ++ t) ↔ lower (l.take key.length) = cview key := by
  have htake : (l ++ crlf ++ t).take key.length = l.take key.length := by
    rw [List.append_assoc, List.take_append_of_le_length hlen]
  have hlong : key.length + 2 ≤ (l ++ crlf ++ t).length := by simp; omega
  rw [BeginsWith, htake]
  exact and_iff_right hlong

/-- A key without CR is compared with the line only. -/
theorem valueAt_line {key l : Bytes} (hkey : CR ∉ key) (hcr : CR ∉ l) (t : Bytes) :
    valueAt key (l ++ crlf ++ t) =
      if key.length ≤ l.length ∧ lower (l.take key.length) = cview key then some (afterKey (l.drop key.length))
      else none := by
  unfold valueAt
  by_cases hlen : key.length ≤ l.length
  · simp only [beginsWith_line hlen, hlen, true_and, valueBehind_line hlen hcr]
  · have hno : ¬ BeginsWith key (l ++ crlf ++ t) := by
      rintro ⟨-, h⟩
      apply hkey
      apply cr_mem_key h
      obtain ⟨n, hn⟩ : ∃ n, key.length = l.length + (n + 1) := ⟨key.length - l.length - 1, by omega⟩
      rw [hn, List.append_assoc, List.take_length_add_append]
      simp
    rw [if_neg hno, if_neg fun h => hlen h.1]

/-- The headers of a head whose lines are `ls`, for keys without CR. -/
def headersOf (keys ls : List Bytes) (hs : Headers) : Headers :=
  ls.foldl (fun hs l => collected keys (l ++ crlf) hs) hs

theorem headersOf_append (keys ls ls' : List Bytes) (hs : Headers) :
    headersOf keys (ls ++ ls') hs = headersOf keys ls' (headersOf keys ls hs) := by
  simp [headersOf]

private theorem collected_line {keys : List Bytes} (hkeys : ∀ key ∈ keys, CR ∉ key) {l : Bytes} (hcr : CR ∉ l)
    (t : Bytes) (hs : Headers) : collected keys (l ++ crlf ++ t) hs = collected keys (l ++ crlf) hs := by
  unfold collected
  induction keys generalizing hs with
  | nil => rfl
  | cons key keys ih =>
    have hkey := hkeys key (List.mem_cons_self ..)
    have hsame : valueAt key (l ++ crlf ++ t) = valueAt key (l ++ crlf) := by
      have hnil := valueAt_line hkey hcr []
      rw [List.append_nil] at hnil
      rw [valueAt_line hkey hcr, hnil]
    rw [List.foldl_cons, List.foldl_cons, hsame]
    exact ih (fun k hk => hkeys k (List.mem_cons_of_mem _ hk)) _

theorem collectedLines_eq {keys : List Bytes} (hkeys : ∀ key ∈ keys, CR ∉ key) {ls : List Bytes}
    (hls : ∀ l ∈ ls, CR ∉ l) (t : Bytes) (hs : Headers) : collectedLines keys ls t hs = headersOf keys ls hs := by
  induction ls generalizing hs with
  | nil => rfl
  | cons l ls ih =>
    rw [collectedLines, unlines_cons, List.append_assoc (l ++ crlf), collected_line hkeys (hls l (List.mem_cons_self ..))]
    exact ih (fun l' hl' => hls l' (List.mem_cons_of_mem _ hl')) _

/-! ### Lookups -/

/-- The value at the first line where the text starts with `k`. -/
def firstValueAt (k : Bytes) : List Bytes → Bytes → Option Bytes
  | [], _ => none
  | l :: ls, t => (valueAt k (unlines crlf (l :: ls) ++ t)).or (firstValueAt k ls t)

theorem lookup_collectedLines {keys : List Bytes} {k : Bytes} (hk : k ∈ keys) (ls : List Bytes) (t : Bytes)
    (hs : Headers) : (collectedLines keys ls t hs).lookup k = (hs.lookup k).or (firstValueAt k ls t) := by
  induction ls generalizing hs with
  | nil => simp [collectedLines, firstValueAt]
  | cons l ls ih => rw [collectedLines, ih, lookup_collected, if_pos hk, firstValueAt, Option.or_assoc]

end IopHal
