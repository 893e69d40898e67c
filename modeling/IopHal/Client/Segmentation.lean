import IopHal.Client.Collect
import IopHal.Message

/-!
# Responses cut into reads

A well-formed response reaches the client cut into reads at arbitrary places.  What the call makes of it depends on
where the head is cut: `outcome_message` gives the outcome for every cut.

* Cuts behind the CRLF of a head line and cuts in the body are harmless (`feed_head`, `feed_payload`).
* The first read that ends in the middle of a head line ends the call: with `IO_ERROR` when it has a newline in it,
  with a panic when it has none.
* The status code is read as a C string, which runs off a full buffer without a terminator (`Unterminated`).
-/

namespace IopHal

open Feed Find Framing

/-- The bytes that the reads deliver. -/
def bytes (cs : List (Chunk bufferSize)) : Bytes := (cs.map (·.1)).flatten

/-- The reads `cs`, followed by the end of the stream. -/
def reads (cs : List (Chunk bufferSize)) : List Recv := cs.map .data ++ [.eof]

@[simp] theorem bytes_nil : bytes [] = [] := rfl

@[simp] theorem bytes_cons (c : Chunk bufferSize) (cs : List (Chunk bufferSize)) :
    bytes (c :: cs) = c.1 ++ bytes cs := rfl

theorem feed_reads_cons {keys : List Bytes} {p q : Parser} {c : Chunk bufferSize} (h : p.read keys c.1 = .ok q)
    (cs : List (Chunk bufferSize)) :
    feed (Parser.step keys) p (reads (c :: cs)) = feed (Parser.step keys) q (reads cs) :=
  have hstep : Parser.step keys p (.data c) = .ok q := h
  feed_cons_ok hstep _

theorem feed_reads_error {keys : List Bytes} {p : Parser} {c : Chunk bufferSize} {o : Outcome Response}
    (h : p.read keys c.1 = .error o) (cs : List (Chunk bufferSize)) :
    feed (Parser.step keys) p (reads (c :: cs)) = .error o :=
  have hstep : Parser.step keys p (.data c) = .error o := h
  feed_cons_error hstep _

/-- The payload is what the reads deliver from there on. -/
theorem feed_payload (keys : List Bytes) (status : Status) (headers : Headers) (body : Bytes)
    (cs : List (Chunk bufferSize)) :
    feed (Parser.step keys) (.payload status headers body) (reads cs) =
      .error (.returned (.ofHeaders headers (body ++ bytes cs) status)) := by
  induction cs generalizing body with
  | nil => rw [bytes_nil, List.append_nil]; rfl
  | cons c cs ih => rw [feed_reads_cons rfl, ih, bytes_cons, List.append_assoc]

/-! ### The header loop on a read -/

/-- The header loop goes through a read only if it finds a newline in it. -/
theorem lf_mem_of_scanHead {keys : List Bytes} {hs : Headers} {b : Bytes} {r : Headers × Option Bytes}
    (h : scanHead keys hs b = .ok r) (hb : b ≠ []) : LF ∈ b := by
  by_contra hlf
  rw [scanHead_broken keys hs hb hlf] at h
  cases h

/-- The header loop on a part of a read that is the rest of a head `ls` and a body up to some cut: it reaches the
body, stops behind a line, or fails in the middle of one. -/
theorem scanHead_cut {keys ls : List Bytes} (hs : Headers) (hls : ∀ l ∈ ls, l ≠ [] ∧ IsLine l) {c t body : Bytes}
    (h : c ++ t = unlines crlf (ls ++ [[]]) ++ body)
    (hk : (∀ key ∈ keys, CR ∉ key) ∨ c.length < bufferSize) :
    (∃ headers b, body = b ++ t ∧ scanHead keys hs c = .ok (headers, some b) ∧
      ((∀ key ∈ keys, CR ∉ key) → headers = headersOf keys ls hs) ∧
      ∀ cs, firstBreak crlf (ls ++ [[]]) 0 (c :: cs) = none) ∨
    (∃ headers ls₁ ls₂, ls = ls₁ ++ ls₂ ∧ t = unlines crlf (ls₂ ++ [[]]) ++ body ∧
      scanHead keys hs c = .ok (headers, none) ∧
      ((∀ key ∈ keys, CR ∉ key) → headers = headersOf keys ls₁ hs) ∧
      ∀ cs, firstBreak crlf (ls ++ [[]]) 0 (c :: cs) = firstBreak crlf (ls₂ ++ [[]]) 0 cs) ∨
    (scanHead keys hs c = .error ioError ∧ ∀ cs, firstBreak crlf (ls ++ [[]]) 0 (c :: cs) = some c) := by
  have hd : crlf ≠ [] := by decide
  have hbounded : ∀ ls₁ t', c = unlines crlf ls₁ ++ t' → Bounded keys (unlines crlf ls₁ ++ t') ∨ ls₁ = [] := by
    rintro ls₁ t' rfl
    cases ls₁ with
    | nil => exact Or.inr rfl
    | cons l ls₁ =>
      rcases hk with hk | hlt
      · exact Or.inl (Or.inr ⟨by simp, hk⟩)
      · exact Or.inl (Or.inl hlt)
  have hreach : ∀ b, c = unlines crlf (ls ++ [[]]) ++ b → body = b ++ t →
      ∃ headers b, body = b ++ t ∧ scanHead keys hs c = .ok (headers, some b) ∧
        ((∀ key ∈ keys, CR ∉ key) → headers = headersOf keys ls hs) ∧
        ∀ cs, firstBreak crlf (ls ++ [[]]) 0 (c :: cs) = none := by
    intro b hc hbody
    have hc' : c = unlines crlf ls ++ (crlf ++ b) := by rw [hc]; simp
    refine ⟨collectedLines keys ls (crlf ++ b) hs, b, hbody, ?_, ?_, ?_⟩
    · rw [hc', scanHead_lines hs (fun l hl => ⟨(hls l hl).1, (hls l hl).2.1⟩) (hbounded _ _ hc'), scanHead_blank]
    · intro hkeys
      exact collectedLines_eq hkeys (fun l hl => (hls l hl).2.1) _ _
    · intro cs
      rw [hc]
      exact firstBreak_rest _ _ _ _
  rcases head_cases (fun l hl => (hls l hl).2) h with ⟨b, hc, hbody⟩ | ⟨ls₁, ls₂, rfl, hc, ht⟩ |
    ⟨ls₁, l, ls₂, p, q, hsplit, hmem, hc, hpq, hp, hq, hlf, -⟩
  · exact Or.inl (hreach b hc hbody)
  · refine Or.inr (Or.inl ⟨collectedLines keys ls₁ [] hs, ls₁, ls₂, rfl, ht, ?_, ?_, ?_⟩)
    · have hc' : c = unlines crlf ls₁ ++ [] := by simpa using hc
      have hls₁ : ∀ l ∈ ls₁, l ≠ [] ∧ CR ∉ l := fun l hl =>
        ⟨(hls l (List.mem_append_left _ hl)).1, (hls l (List.mem_append_left _ hl)).2.1⟩
      rw [hc', scanHead_lines hs hls₁ (hbounded _ _ hc'), scanHead_nil]
    · intro hkeys
      exact collectedLines_eq hkeys (fun l hl => (hls l (List.mem_append_left _ hl)).2.1) _ _
    · intro cs
      rw [hc, List.append_assoc]
      exact firstBreak_lines hd ls₁ (ls₂ ++ [[]]) cs
  · refine Or.inr (Or.inr ⟨?_, ?_⟩)
    · have hlines : ∀ l' ∈ ls₁, l' ≠ [] ∧ CR ∉ l' := fun l' hl' =>
        ⟨(hls l' (hmem l' hl')).1, (hls l' (hmem l' hl')).2.1⟩
      rw [hc, scanHead_lines hs hlines (hbounded _ _ hc)]
      exact scanHead_broken _ _ hp hlf
    · intro cs
      rw [hc, hsplit]
      exact firstBreak_broken hd ls₁ ls₂ hpq hp hq cs

/-! ### An open head -/

/-- How a call ends that would return `r` but for the read that broke a line. -/
def endOf (r : Response) : Option Bytes → Outcome Response
  | none => .returned r
  | some c => if LF ∈ c then ioError else headerLinePanic (pad c)

/-- An open head with the lines `ls` to come, of which the reads deliver a part, or all of them and a part of the body. -/
theorem feed_head {keys ls : List Bytes} (hls : ∀ l ∈ ls, l ≠ [] ∧ IsLine l) (status : Status) (hs : Headers)
    {body missing : Bytes} {cs : List (Chunk bufferSize)}
    (h : bytes cs ++ missing = unlines crlf (ls ++ [[]]) ++ body)
    (hk : (∀ key ∈ keys, CR ∉ key) ∨ ∀ c ∈ cs, c.1.length < bufferSize) :
    ∃ headers, ((∀ key ∈ keys, CR ∉ key) → (unlines crlf (ls ++ [[]])).length ≤ (bytes cs).length →
        headers = headersOf keys ls hs) ∧
      feed (Parser.step keys) (.head status hs) (reads cs) =
        .error (endOf (.ofHeaders headers ((bytes cs).drop (unlines crlf (ls ++ [[]])).length) status)
          (firstBreak crlf (ls ++ [[]]) 0 (cs.map (·.1)))) := by
  induction cs generalizing ls hs with
  | nil =>
    refine ⟨hs, ?_, ?_⟩
    · intro _ hle
      have hne : unlines crlf (ls ++ [[]]) ≠ [] := unlines_ne_nil (by decide) (by simp)
      exact absurd (List.length_eq_zero_iff.1 (Nat.le_zero.1 hle)) hne
    · rw [bytes_nil, List.drop_nil]
      rfl
  | cons c cs ih =>
    have hk' : (∀ key ∈ keys, CR ∉ key) ∨ c.1.length < bufferSize :=
      hk.imp_right fun h => h c (List.mem_cons_self ..)
    have hkcs : (∀ key ∈ keys, CR ∉ key) ∨ ∀ c ∈ cs, c.1.length < bufferSize :=
      hk.imp_right fun h c hc => h c (List.mem_cons_of_mem _ hc)
    rw [bytes_cons, List.append_assoc] at h
    rw [List.map_cons]
    rcases scanHead_cut hs hls h hk' with ⟨headers, b, rfl, hscan, hkeys, hbreak⟩ |
      ⟨headers, ls₁, ls₂, rfl, ht, hscan, hkeys, hbreak⟩ | ⟨hscan, hbreak⟩
    · refine ⟨headers, fun hcr _ => hkeys hcr, ?_⟩
      have hread : (Parser.head status hs).read keys c.1 = .ok (.payload status headers b) := by
        rw [read_head keys status hs (lf_mem_of_scanHead hscan c.2.1), hscan]
        rfl
      have hc : c.1 = unlines crlf (ls ++ [[]]) ++ b := by
        rw [← List.append_assoc (unlines crlf (ls ++ [[]])) b] at h
        exact List.append_cancel_right h
      rw [feed_reads_cons hread, feed_payload, hbreak, endOf, bytes_cons, hc, List.append_assoc, List.drop_left]
    · have hread : (Parser.head status hs).read keys c.1 = .ok (.head status headers) := by
        rw [read_head keys status hs (lf_mem_of_scanHead hscan c.2.1), hscan]
        rfl
      have hlines : unlines crlf (ls₁ ++ ls₂ ++ [[]]) = unlines crlf ls₁ ++ unlines crlf (ls₂ ++ [[]]) := by
        rw [List.append_assoc, unlines_append]
      have hc : c.1 = unlines crlf ls₁ := by
        rw [ht, hlines, List.append_assoc] at h
        exact List.append_cancel_right h
      obtain ⟨headers', hkeys', hrun⟩ := ih (fun l hl => hls l (List.mem_append_right _ hl)) headers ht hkcs
      refine ⟨headers', ?_, ?_⟩
      · intro hcr hle
        rw [bytes_cons, hc, hlines, List.length_append, List.length_append, Nat.add_le_add_iff_left] at hle
        rw [hkeys' hcr hle, hkeys hcr, headersOf_append]
      · rw [feed_reads_cons hread, hrun, hbreak, bytes_cons, hc, hlines, List.length_append,
          List.drop_length_add_append]
    · refine ⟨headersOf keys ls hs, fun _ _ => rfl, ?_⟩
      have hread : (Parser.head status hs).read keys c.1 =
          .error (if LF ∈ c.1 then ioError else headerLinePanic (pad c.1)) := by
        by_cases hlf : LF ∈ c.1
        · rw [read_head keys status hs hlf, hscan, if_pos hlf]; rfl
        · rw [read_of_not_newline keys rfl hlf, if_neg hlf]
      rw [feed_reads_error hread, hbreak, endOf]

/-! ### The status line -/

/-- A read that fills the buffer and has no terminator behind its first nine bytes: the status, which is read as a C
string, runs off the buffer. -/
def Unterminated (c : Bytes) : Prop := c.length = bufferSize ∧ NUL ∉ c.drop 9

instance (c : Bytes) : Decidable (Unterminated c) := inferInstanceAs (Decidable (_ ∧ _))

theorem cstring_pad_drop_eq_none_iff {c : Bytes} (hlen : c.length ≤ bufferSize) :
    cstring ((pad c).drop 9) = none ↔ Unterminated c := by
  rw [cstring_eq_none_iff]
  unfold Unterminated pad
  rw [List.drop_append, List.mem_append, List.drop_replicate, List.mem_replicate]
  constructor
  · intro h
    simp only [not_or] at h
    refine ⟨?_, h.1⟩
    by_contra hne
    apply h.2
    have hsize : bufferSize = 8192 := rfl
    refine ⟨?_, trivial⟩
    omega
  · rintro ⟨hfull, hnul⟩ (h | ⟨h, -⟩)
    · exact hnul h
    · omega

namespace HttpResponse

variable (m : HttpResponse)

def status : Status := ⟨digitsValue m.code, by have := m.code_pos; omega⟩

theorem length_statusLine : 10 ≤ m.statusLine.length := by
  have hpos := List.length_pos_iff.2 m.code_ne_nil
  have hversion := m.length_version
  simp only [statusLine, List.length_append, List.length_cons]
  omega

/-- The status line of a message at the start of the first read. -/
theorem scanStatus_eq {c : Bytes} (hlen : (m.statusLine ++ crlf ++ c).length ≤ bufferSize) :
    scanStatus (m.statusLine ++ crlf ++ c) =
      if Unterminated (m.statusLine ++ crlf ++ c) then .error .undefined else .ok (m.status, c) := by
  have hlong : ¬ (m.statusLine ++ crlf ++ c).length < 10 := by
    have := m.length_statusLine
    simp only [List.length_append]
    omega
  unfold scanStatus
  rw [if_neg hlong]
  cases hs : cstring ((pad (m.statusLine ++ crlf ++ c)).drop 9) with
  | none => rw [if_pos ((cstring_pad_drop_eq_none_iff hlen).1 hs)]
  | some s =>
    have hu : ¬ Unterminated (m.statusLine ++ crlf ++ c) := by
      rw [← cstring_pad_drop_eq_none_iff hlen, hs]
      simp
    have hcode : IsText m.code := isText_of_digits m.code_digits
    have hmem : (pad (m.statusLine ++ crlf ++ c)).drop 9 =
        (m.code ++ [SP]) ++ (m.reason ++ crlf ++ c ++
          List.replicate (bufferSize - (m.statusLine ++ crlf ++ c).length) NUL) := by
      have hline : m.statusLine ++ crlf ++ c = m.version ++ (m.code ++ [SP] ++ (m.reason ++ crlf ++ c)) := by
        simp [statusLine]
      rw [pad, hline, List.append_assoc m.version, List.drop_left' m.length_version]
      simp only [List.append_assoc]
    have hnul : NUL ∉ m.code ++ [SP] := by
      simp only [List.mem_append, List.mem_singleton, not_or]
      exact ⟨hcode.2, by decide⟩
    rw [hmem] at hs
    obtain ⟨t, rfl, -⟩ := cstring_eq_some_append hnul hs
    have hsp : SP ∉ m.code := fun h => absurd (m.code_digits _ h) (by decide)
    have hfind : find [SP] (m.code ++ [SP] ++ t) = some m.code.length := find_append_here hsp [] t
    have htake : (m.code ++ [SP] ++ t).take m.code.length = m.code := by
      rw [List.append_assoc, List.take_left' rfl]
    have hline : LF ∉ m.statusLine ++ [CR] := by
      simp only [List.mem_append, List.mem_singleton, not_or]
      exact ⟨m.statusLine_text.1.2, by decide⟩
    have hnewline : find [LF] (m.statusLine ++ crlf ++ c) = some (m.statusLine.length + 1) := by
      have := find_append_here hline [] c
      simpa using this
    have hdrop : (m.statusLine ++ crlf ++ c).drop (m.statusLine.length + 1 + 1) = c := by
      rw [List.drop_left' (by simp)]
    have hpos : (0 : Int) < digitsValue m.code := by have := m.code_pos; omega
    simp only [hfind, htake, atoi_digits m.code_digits m.code_length, hpos, hnewline, Option.elim_some, hdrop, hu]
    rfl

end HttpResponse

/-! ### Whole messages -/

/-- The first read ends the status string inside the buffer. -/
def Terminated (cs : List (Chunk bufferSize)) : Prop := ∀ c ∈ cs.head?, ¬ (LF ∈ c.1 ∧ Unterminated c.1)

instance (cs : List (Chunk bufferSize)) : Decidable (Terminated cs) :=
  match cs with
  | [] => isTrue (by simp [Terminated])
  | c :: _ => decidable_of_iff (¬ (LF ∈ c.1 ∧ Unterminated c.1)) (by simp [Terminated])

/-- The first read of a message that reaches behind the status line. -/
private theorem first_read_cases {l c t rest : Bytes} (hl : LF ∉ l) (h : c ++ t = l ++ crlf ++ rest) (hlf : LF ∈ c) :
    ∃ c', c = l ++ crlf ++ c' ∧ rest = c' ++ t := by
  rcases List.append_eq_append_iff.1 h with ⟨q, hq, ht⟩ | ⟨c', rfl, ht⟩
  · by_cases hq0 : q = []
    · subst hq0
      exact ⟨[], by simpa using hq.symm, by simpa using ht.symm⟩
    · exact absurd hlf (lf_not_mem_of_broken hl hq.symm hq0)
  · exact ⟨c', rfl, ht⟩

/-- A first read without a newline breaks the status line. -/
private theorem firstBreak_of_not_newline {m : HttpResponse} {c : Chunk bufferSize} {t : Bytes}
    (h : c.1 ++ t = m.render) (hlf : LF ∉ c.1) (cs : List Bytes) :
    firstBreak crlf m.headLines 0 (c.1 :: cs) = some c.1 := by
  have hnil : ∀ ls p, c.1 = unlines crlf ls ++ p → ls = [] := by
    intro ls p hc
    cases ls with
    | nil => rfl
    | cons l ls => exact absurd (by rw [hc]; simp) hlf
  rcases prefix_cases crlf m.headLines h with ⟨ls₁, ls₂, -, hc, -⟩ | ⟨b, hc, -, -⟩ |
    ⟨ls₁, l, ls₂, p, q, hsplit, hc, hpq, hp, hq, -⟩
  · have hls₁ := hnil ls₁ [] (by simpa using hc)
    exact absurd (by simpa [hls₁] using hc) c.2.1
  · exact absurd (hnil _ _ hc) (by simp [HttpResponse.headLines])
  · have hbreak := firstBreak_broken (d := crlf) (by decide) ls₁ ls₂ hpq hp hq cs
    rw [← hsplit, ← hc] at hbreak
    exact hbreak

theorem HttpResponse.head_eq (m : HttpResponse) :
    m.head = m.statusLine ++ crlf ++ unlines crlf (m.headerLines ++ [[]]) := by
  rw [head, headLines, unlines_cons]

/-- A message whose first read reaches behind the status line. -/
private theorem feed_first {keys : List Bytes} (m : HttpResponse) {c : Chunk bufferSize} {cs : List (Chunk bufferSize)}
    {c' missing : Bytes} (hc : c.1 = m.statusLine ++ crlf ++ c')
    (hrest : unlines crlf (m.headerLines ++ [[]]) ++ m.body = c' ++ (bytes cs ++ missing)) (hu : ¬ Unterminated c.1)
    (hk : (∀ key ∈ keys, CR ∉ key) ∨ ∀ d ∈ c :: cs, d.1.length < bufferSize) :
    ∃ headers, ((∀ key ∈ keys, CR ∉ key) → m.head.length ≤ (bytes (c :: cs)).length →
        headers = headersOf keys m.headerLines []) ∧
      feed (Parser.step keys) .statusLine (reads (c :: cs)) =
        .error (endOf (.ofHeaders headers ((bytes (c :: cs)).drop m.head.length) m.status)
          (firstBreak crlf m.headLines 0 (c.1 :: cs.map (·.1)))) := by
  have hlf : LF ∈ c.1 := by rw [hc]; simp
  have hlen := c.2.2
  rw [hc] at hlen
  have hread : Parser.statusLine.read keys c.1 = (scanHead keys [] c').map (.afterHead m.status) := by
    rw [read_statusLine keys hlf, hc, m.scanStatus_eq hlen, if_neg (hc ▸ hu)]
    rfl
  have hk' : (∀ key ∈ keys, CR ∉ key) ∨ c'.length < bufferSize := by
    refine hk.imp_right fun h => ?_
    have := h c (List.mem_cons_self ..)
    rw [hc, List.length_append] at this
    omega
  have hkcs : (∀ key ∈ keys, CR ∉ key) ∨ ∀ d ∈ cs, d.1.length < bufferSize :=
    hk.imp_right fun h d hd => h d (List.mem_cons_of_mem _ hd)
  have hls : ∀ l ∈ m.headerLines, l ≠ [] ∧ IsLine l := fun l hl => ⟨(m.headers_text l hl).1, (m.headers_text l hl).2.1⟩
  have hfirst := firstBreak_cons_line (d := crlf) (by decide) m.statusLine (m.headerLines ++ [[]]) c' (cs.map (·.1))
  have hclean : CleanCut crlf (m.headerLines ++ [[]]) c'.length ↔
      firstBreak crlf (m.headerLines ++ [[]]) 0 [c'] = none := by
    simp [firstBreak]
  have hbytes : bytes (c :: cs) = (m.statusLine ++ crlf) ++ (c' ++ bytes cs) := by
    rw [bytes_cons, hc, List.append_assoc]
  have hlength : ∀ t : Bytes, (m.statusLine ++ crlf ++ t).length = (m.statusLine ++ crlf).length + t.length :=
    fun t => List.length_append
  rw [← hc] at hfirst
  rw [HttpResponse.headLines, hfirst, hbytes, m.head_eq, hlength, hlength, Nat.add_le_add_iff_left,
    List.drop_length_add_append]
  rcases scanHead_cut [] hls hrest.symm hk' with ⟨headers, b, hbody, hscan, hkeys, hbreak⟩ |
    ⟨headers, ls₁, ls₂, hsplit, ht, hscan, hkeys, hbreak⟩ | ⟨hscan, hbreak⟩
  · have hread' : Parser.statusLine.read keys c.1 = .ok (.payload m.status headers b) := by rw [hread, hscan]; rfl
    have hc' : c' = unlines crlf (m.headerLines ++ [[]]) ++ b := by
      rw [hbody, ← List.append_assoc (unlines crlf (m.headerLines ++ [[]])) b] at hrest
      exact (List.append_cancel_right hrest).symm
    refine ⟨headers, fun hcr _ => hkeys hcr, ?_⟩
    rw [feed_reads_cons hread', feed_payload, if_pos (hclean.2 (hbreak [])), hbreak, endOf, hc', List.append_assoc,
      List.drop_left]
  · have hread' : Parser.statusLine.read keys c.1 = .ok (.head m.status headers) := by rw [hread, hscan]; rfl
    have hls₂ : ∀ l ∈ ls₂, l ≠ [] ∧ IsLine l := fun l hl => hls l (hsplit ▸ List.mem_append_right _ hl)
    have hlines : unlines crlf (m.headerLines ++ [[]]) = unlines crlf ls₁ ++ unlines crlf (ls₂ ++ [[]]) := by
      rw [hsplit, List.append_assoc, unlines_append]
    have hc' : c' = unlines crlf ls₁ := by
      rw [ht, hlines, List.append_assoc] at hrest
      exact (List.append_cancel_right hrest).symm
    obtain ⟨headers', hkeys', hrun⟩ := feed_head hls₂ m.status headers ht hkcs
    refine ⟨headers', ?_, ?_⟩
    · intro hcr hle
      rw [hc', hlines, List.length_append, List.length_append, Nat.add_le_add_iff_left] at hle
      rw [hkeys' hcr hle, hkeys hcr, ← headersOf_append, ← hsplit]
    · have hcut : CleanCut crlf (m.headerLines ++ [[]]) c'.length := hclean.2 (by rw [hbreak]; rfl)
      rw [feed_reads_cons hread', hrun, if_pos hcut, hbreak, hc', hlines, List.length_append,
        List.drop_length_add_append]
  · refine ⟨headersOf keys m.headerLines [], fun _ _ => rfl, ?_⟩
    have hbroken : ¬ CleanCut crlf (m.headerLines ++ [[]]) c'.length := by rw [hclean, hbreak]; simp
    have hread' : Parser.statusLine.read keys c.1 = .error ioError := by rw [hread, hscan]; rfl
    rw [feed_reads_error hread', if_neg hbroken, endOf, if_pos hlf]

/-- How a call ends for a well-formed response of which a part arrives, wherever that is cut.  The end of the stream ends
the body, and the head too. -/
theorem outcome_of_part (keys : List Bytes) (m : HttpResponse) {cs : List (Chunk bufferSize)} {missing : Bytes}
    (h : bytes cs ++ missing = m.render) (hcs : cs ≠ [])
    (hk : (∀ key ∈ keys, CR ∉ key) ∨ ∀ c ∈ cs, c.1.length < bufferSize) :
    ∃ headers, ((∀ key ∈ keys, CR ∉ key) → m.head.length ≤ (bytes cs).length →
        headers = headersOf keys m.headerLines []) ∧
      Parser.outcome keys .statusLine (reads cs) =
        if Terminated cs then
          endOf (.ofHeaders headers ((bytes cs).drop m.head.length) m.status)
            (firstBreak crlf m.headLines 0 (cs.map (·.1)))
        else .undefined := by
  have hrender : m.render = m.statusLine ++ crlf ++ (unlines crlf (m.headerLines ++ [[]]) ++ m.body) := by
    rw [HttpResponse.render, m.head_eq, List.append_assoc]
  cases cs with
  | nil => exact absurd rfl hcs
  | cons c cs =>
    rw [bytes_cons, List.append_assoc] at h
    by_cases hlf : LF ∈ c.1
    · obtain ⟨c', hc, hrest⟩ := first_read_cases m.statusLine_text.1.2 (h.trans hrender) hlf
      by_cases hu : Unterminated c.1
      · have hterm : ¬ Terminated (c :: cs) := by simp [Terminated, hlf, hu]
        have hlen := c.2.2
        rw [hc] at hlen
        have hread : Parser.statusLine.read keys c.1 = .error .undefined := by
          rw [read_statusLine keys hlf, hc, m.scanStatus_eq hlen, if_pos (hc ▸ hu)]
          rfl
        refine ⟨headersOf keys m.headerLines [], fun _ _ => rfl, ?_⟩
        rw [if_neg hterm]
        exact outcome_of_feed (feed_reads_error hread cs)
      · have hterm : Terminated (c :: cs) := by simp [Terminated, hu]
        obtain ⟨headers, hkeys, hrun⟩ := feed_first m hc hrest hu hk
        refine ⟨headers, hkeys, ?_⟩
        rw [if_pos hterm]
        exact outcome_of_feed hrun
    · have hterm : Terminated (c :: cs) := by simp [Terminated, hlf]
      have hread : Parser.statusLine.read keys c.1 = .error (headerLinePanic (pad c.1)) :=
        read_of_not_newline keys rfl hlf
      refine ⟨headersOf keys m.headerLines [], fun _ _ => rfl, ?_⟩
      rw [if_pos hterm, outcome_of_feed (feed_reads_error hread cs), List.map_cons, firstBreak_of_not_newline h hlf,
        endOf, if_neg hlf]

/-- How a call ends for a well-formed response, wherever its bytes are cut. -/
theorem outcome_message (keys : List Bytes) (m : HttpResponse) {cs : List (Chunk bufferSize)}
    (h : bytes cs = m.render) (hk : (∀ key ∈ keys, CR ∉ key) ∨ ∀ c ∈ cs, c.1.length < bufferSize) :
    ∃ headers, ((∀ key ∈ keys, CR ∉ key) → headers = headersOf keys m.headerLines []) ∧
      Parser.outcome keys .statusLine (reads cs) =
        if Terminated cs then
          endOf (.ofHeaders headers m.body m.status) (firstBreak crlf m.headLines 0 (cs.map (·.1)))
        else .undefined := by
  have hcs : cs ≠ [] := by
    rintro rfl
    rw [HttpResponse.render, m.head_eq] at h
    simp at h
  obtain ⟨headers, hkeys, hrun⟩ := outcome_of_part keys m ((List.append_nil _).trans h) hcs hk
  rw [h, HttpResponse.render, List.drop_left] at hrun
  refine ⟨headers, fun hcr => hkeys hcr ?_, hrun⟩
  rw [h, HttpResponse.render, List.length_append]
  exact Nat.le_add_right _ _

/-! ### Calls -/

/-- Every cut inside the head falls directly behind the CRLF of a line. -/
def LineAligned (m : HttpResponse) (cs : List (Chunk bufferSize)) : Prop :=
  ∀ pre c post, cs = pre ++ c :: post → CleanCut crlf m.headLines (bytes (pre ++ [c])).length

theorem lineAligned_iff {m : HttpResponse} {cs : List (Chunk bufferSize)} :
    LineAligned m cs ↔ firstBreak crlf m.headLines 0 (cs.map (·.1)) = none := by
  rw [firstBreak_eq_none_iff]
  constructor
  · intro h pre c post hcs
    obtain ⟨pre, cs', rfl, rfl, hcs'⟩ := List.map_eq_append_iff.1 hcs
    obtain ⟨c, post, rfl, rfl, rfl⟩ := List.map_eq_cons_iff.1 hcs'
    simpa [bytes] using h pre c post rfl
  · rintro h pre c post rfl
    simpa [bytes] using h (pre.map (·.1)) c.1 (post.map (·.1)) (by simp)

instance (m : HttpResponse) (cs : List (Chunk bufferSize)) : Decidable (LineAligned m cs) :=
  decidable_of_iff _ lineAligned_iff.symm

/-- The first read that ends in the middle of a head line has a newline in it. -/
def BreaksBehindNewline (m : HttpResponse) (cs : List (Chunk bufferSize)) : Prop :=
  ∃ c, firstBreak crlf m.headLines 0 (cs.map (·.1)) = some c ∧ LF ∈ c

theorem headerLinePanic_ne_returned (buffer : Bytes) (r : Response) : headerLinePanic buffer ≠ .returned r := by
  unfold headerLinePanic
  split <;> simp

/-- A response cut at line ends is decoded exactly. -/
theorem sendRequest_lineAligned (ctx : SessionContext) (method data : Bytes) (m : HttpResponse)
    {cs : List (Chunk bufferSize)} (h : bytes cs = m.render) (hshort : ∀ c ∈ cs, c.1.length < bufferSize)
    (hcut : LineAligned m cs) :
    ∃ r, (sendRequest ctx .gotIp method data (reads cs)).outcome = .returned r ∧ r.code = digitsValue m.code ∧
      r.promise = m.body := by
  obtain ⟨headers, -, hrun⟩ := outcome_message ctx.headersToCollect m h (Or.inr hshort)
  have hterm : Terminated cs := by
    intro c hc
    have := hshort c (List.mem_of_mem_head? hc)
    exact fun hu => absurd hu.2.1 (by omega)
  rw [if_pos hterm, lineAligned_iff.1 hcut, ← sendRequest_outcome ctx method data] at hrun
  exact ⟨_, hrun, rfl, rfl⟩

/-- An answer with a binary body to the request for an update -/
def updateResponse : HttpResponse where
  minor := 49
  code := ascii "200"
  reason := ascii "OK"
  headerLines := [ascii "LATEST_VERSION: a1"]
  body := [NUL, CR, LF, 255]
  minor_digit := isDigit_one
  code_digits := List.all_eq_true.1 (by decide)
  code_length := by decide
  code_pos := by decide
  reason_text := by decide
  headers_text := by decide

def updateSession : SessionContext where
  fd := 3
  headersToCollect := headersToCollect [ascii "LATEST_VERSION"]
  headers := []
  uri := ascii "http://127.0.0.1:4001/v1/update"
  bio := false
  opened := Or.inl (by decide)

theorem sendRequest_lineAligned_update :
    ∃ r, (sendRequest updateSession .gotIp (ascii "GET") [] (reads
      [⟨ascii "HTTP/1.1 200 OK\r\nLATEST_VERSION: a1\r\n", by decide⟩, ⟨crlf ++ [NUL, CR], by decide⟩,
        ⟨[LF, 255], by decide⟩])).outcome = .returned r ∧ r.code = 200 ∧ r.promise = [NUL, CR, LF, 255] :=
  sendRequest_lineAligned updateSession _ _ updateResponse (by decide) (by decide) (by decide)

/-- What a call returns for a well-formed response. -/
theorem sendRequest_returned_iff (ctx : SessionContext) (hkeys : ∀ key ∈ ctx.headersToCollect, CR ∉ key)
    (method data : Bytes) (m : HttpResponse) {cs : List (Chunk bufferSize)} (h : bytes cs = m.render) (r : Response) :
    (sendRequest ctx .gotIp method data (reads cs)).outcome = .returned r ↔
      Terminated cs ∧
        (LineAligned m cs ∧ r = .ofHeaders (headersOf ctx.headersToCollect m.headerLines []) m.body m.status ∨
          BreaksBehindNewline m cs ∧ r = .ofStatus .ioError) := by
  obtain ⟨headers, hheaders, hrun⟩ := outcome_message ctx.headersToCollect m h (Or.inl hkeys)
  rw [sendRequest_outcome, hrun, hheaders hkeys, lineAligned_iff, BreaksBehindNewline]
  generalize firstBreak crlf m.headLines 0 (cs.map (·.1)) = broken
  by_cases hterm : Terminated cs
  · rw [if_pos hterm]
    rcases broken with _ | c
    · simp [endOf, hterm, eq_comm]
    · by_cases hlf : LF ∈ c
      · simp [endOf, hlf, hterm, ioError, eq_comm]
      · have hne := headerLinePanic_ne_returned (pad c) r
        simp [endOf, hlf, hne]
  · simp [hterm]

/-- Two ways of cutting a response lead to the same result exactly when both keep to line ends, or both break a line
in a read that has a newline in it, and the status string ends inside the buffer. -/
theorem sendRequest_same_iff (ctx : SessionContext) (hkeys : ∀ key ∈ ctx.headersToCollect, CR ∉ key)
    (method data : Bytes) (m : HttpResponse) {cs cs' : List (Chunk bufferSize)} (h : bytes cs = m.render)
    (h' : bytes cs' = m.render) :
    (∃ r r', (sendRequest ctx .gotIp method data (reads cs)).outcome = .returned r ∧
        (sendRequest ctx .gotIp method data (reads cs')).outcome = .returned r' ∧ r.Same r') ↔
      Terminated cs ∧ Terminated cs' ∧
        (LineAligned m cs ∧ LineAligned m cs' ∨ BreaksBehindNewline m cs ∧ BreaksBehindNewline m cs') := by
  simp only [sendRequest_returned_iff ctx hkeys method data m h, sendRequest_returned_iff ctx hkeys method data m h']
  have hcode : (0 : Int) < (m.status : Int) := m.status.2
  constructor
  · rintro ⟨r, r', ⟨hterm, ⟨hcut, rfl⟩ | ⟨hcut, rfl⟩⟩, ⟨hterm', ⟨hcut', rfl⟩ | ⟨hcut', rfl⟩⟩, hsame⟩
    · exact ⟨hterm, hterm', Or.inl ⟨hcut, hcut'⟩⟩
    · -- a status is positive, the code of `IO_ERROR` is zero
      exact absurd hsame.1 hcode.ne'
    · exact absurd hsame.1 hcode.ne
    · exact ⟨hterm, hterm', Or.inr ⟨hcut, hcut'⟩⟩
  · rintro ⟨hterm, hterm', ⟨hcut, hcut'⟩ | ⟨hcut, hcut'⟩⟩
    · exact ⟨_, _, ⟨hterm, Or.inl ⟨hcut, rfl⟩⟩, ⟨hterm', Or.inl ⟨hcut', rfl⟩⟩, .refl _⟩
    · exact ⟨_, _, ⟨hterm, Or.inr ⟨hcut, rfl⟩⟩, ⟨hterm', Or.inr ⟨hcut', rfl⟩⟩, .refl _⟩

theorem sendRequest_same_update :
    ∃ r r',
      (sendRequest updateSession .gotIp (ascii "GET") [] (reads
        [⟨updateResponse.render, by decide⟩])).outcome = .returned r ∧
      (sendRequest updateSession .gotIp (ascii "GET") [] (reads
        [⟨ascii "HTTP/1.1 200 OK\r\n", by decide⟩, ⟨ascii "LATEST_VERSION: a1\r\n\r\n", by decide⟩,
          ⟨updateResponse.body, by decide⟩])).outcome = .returned r' ∧
      r.Same r' :=
  (sendRequest_same_iff updateSession (by decide) _ _ updateResponse (by decide) (by decide)).2
    ⟨by decide, by decide, Or.inl ⟨by decide, by decide⟩⟩

/-- A cut inside the status line makes the call panic. -/
theorem sendRequest_cut_status_line :
    let whole : List (Chunk bufferSize) := [⟨updateResponse.render, by decide⟩]
    let cut : List (Chunk bufferSize) := [⟨ascii "HTTP/1.1 2", by decide⟩,
      ⟨ascii "00 OK\r\nLATEST_VERSION: a1\r\n\r\n" ++ updateResponse.body, by decide⟩]
    bytes whole = updateResponse.render ∧ bytes cut = updateResponse.render ∧
      updateResponse.head.length < bufferSize ∧
      (∃ r, (sendRequest updateSession .gotIp (ascii "GET") [] (reads whole)).outcome = .returned r ∧ r.code = 200) ∧
      ¬ ∃ r r', (sendRequest updateSession .gotIp (ascii "GET") [] (reads whole)).outcome = .returned r ∧
        (sendRequest updateSession .gotIp (ascii "GET") [] (reads cut)).outcome = .returned r' ∧ r.Same r' := by
  intro whole cut
  have hwhole : bytes whole = updateResponse.render := by decide
  have hcut : bytes cut = updateResponse.render := by decide
  have hkeys : ∀ key ∈ updateSession.headersToCollect, CR ∉ key := by decide
  refine ⟨hwhole, hcut, by decide, ?_, ?_⟩
  · have hreturned := sendRequest_returned_iff updateSession hkeys (ascii "GET") [] updateResponse hwhole
    exact ⟨_, (hreturned _).2 ⟨by decide, Or.inl ⟨by decide, rfl⟩⟩, rfl⟩
  · rintro ⟨-, r', -, hr', -⟩
    obtain ⟨-, ⟨h, -⟩ | ⟨⟨c, hc, hlf⟩, -⟩⟩ :=
      (sendRequest_returned_iff updateSession hkeys (ascii "GET") [] updateResponse hcut r').1 hr'
    · revert h; decide
    · have hbreak : firstBreak crlf updateResponse.headLines 0 (cut.map (·.1)) = some (ascii "HTTP/1.1 2") := by decide
      rw [hbreak, Option.some.injEq] at hc
      subst hc
      revert hlf
      decide

end IopHal
