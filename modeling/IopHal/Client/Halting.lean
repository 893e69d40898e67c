import IopHal.Client.Segmentation

/-!
# Reads that halt the device

The receive loop panics on a read without a newline, whatever its length, and has two searches that may run off a full
buffer.  `ReadFits` says which reads are harmless while the head is open: `read_fits_iff` for one read and
`sendRequest_keeps_running_iff` for all sequences of reads.
-/

namespace IopHal

open Feed Find

/-- The search for the value behind a key finds only spaces up to the end of the text. -/
def RunsOff (key b : Bytes) : Prop := BeginsWith key b ∧ ∀ c ∈ skipColon (b.drop key.length), c = SP

/-- The search for a value runs off a full buffer. -/
def LineRunsOff (keys : List Bytes) (b : Bytes) : Prop :=
  b.length = bufferSize ∧ (∃ i, find crlf b = some (i + 1)) ∧ ∃ key ∈ keys, RunsOff key b

def SearchRunsOff (keys : List Bytes) (firstLine : Bool) (c : Bytes) : Prop :=
  if firstLine then Unterminated c else LineRunsOff keys c

/-- A read that neither halts the device while the head is open nor leaves the buffer, unless it fills the buffer with
a line without a newline. -/
def ReadFits (keys : List Bytes) (firstLine : Bool) (c : Bytes) : Prop :=
  LF ∈ c ∧ ¬ SearchRunsOff keys firstLine c ∨ LF ∉ c ∧ c.length = bufferSize ∧ NUL ∈ c

/-! ### The searches -/

private theorem skipSpaces_nil (v : Bytes) :
    skipSpaces v [] = if ∀ c ∈ v, c = SP then .error .undefined else .ok (v.dropWhile (· = SP)) := by
  induction v with
  | nil => simp [skipSpaces]
  | cons c v ih =>
    by_cases hc : c = SP
    · simp [skipSpaces, hc, ih]
    · simp [skipSpaces, hc]

private theorem collectKey_full (b : Bytes) (hs : Headers) (key : Bytes) :
    (RunsOff key b ∧ collectKey b [] hs key = .error .undefined) ∨
      (¬ RunsOff key b ∧ ∃ headers, collectKey b [] hs key = .ok headers) := by
  rw [collectKey_def, skipSpaces_nil]
  by_cases hbegin : BeginsWith key b
  · by_cases hsp : ∀ c ∈ skipColon (b.drop key.length), c = SP
    · refine Or.inl ⟨⟨hbegin, hsp⟩, ?_⟩
      rw [if_pos hbegin, if_pos hsp]
      rfl
    · refine Or.inr ⟨fun h => hsp h.2, ?_⟩
      rw [if_pos hbegin, if_neg hsp]
      exact ⟨_, rfl⟩
  · refine Or.inr ⟨fun h => hbegin h.1, ?_⟩
    rw [if_neg hbegin]
    exact ⟨_, rfl⟩

private theorem foldlM_collectKey_full (keys : List Bytes) (b : Bytes) (hs : Headers) :
    ((∃ key ∈ keys, RunsOff key b) ∧ keys.foldlM (collectKey b []) hs = .error .undefined) ∨
      ((¬ ∃ key ∈ keys, RunsOff key b) ∧ ∃ headers, keys.foldlM (collectKey b []) hs = .ok headers) := by
  induction keys generalizing hs with
  | nil => exact Or.inr ⟨by simp, hs, rfl⟩
  | cons key keys ih =>
    rw [List.foldlM_cons]
    rcases collectKey_full b hs key with ⟨hoff, hk⟩ | ⟨hon, headers, hk⟩
    · refine Or.inl ⟨⟨key, List.mem_cons_self .., hoff⟩, ?_⟩
      rw [hk]
      rfl
    · rw [hk]
      rcases ih headers with ⟨⟨key', hmem, hoff⟩, h⟩ | ⟨hnone, h⟩
      · exact Or.inl ⟨⟨key', List.mem_cons_of_mem _ hmem, hoff⟩, h⟩
      · refine Or.inr ⟨?_, h⟩
        rintro ⟨key', hmem, hoff⟩
        rcases List.mem_cons.1 hmem with rfl | hmem
        · exact hon hoff
        · exact hnone ⟨key', hmem, hoff⟩

/-- Zeros behind the text keep all searches inside the buffer. -/
theorem scanHead_short (keys : List Bytes) (hs : Headers) {b : Bytes} (hlen : b.length < bufferSize) :
    (∃ r, scanHead keys hs b = .ok r) ∨ scanHead keys hs b = .error ioError := by
  induction hn : b.length using Nat.strong_induction_on generalizing b hs with
  | _ n ih =>
    subst hn
    rw [scanHead]
    by_cases hb : b = []
    · exact Or.inl ⟨_, dif_pos hb⟩
    · rw [dif_neg hb]
      have hpos := List.length_pos_iff.2 hb
      rcases find crlf b with _ | i
      · exact Or.inr rfl
      · rcases i with _ | i
        · exact Or.inl ⟨_, rfl⟩
        · simp only [foldlM_collectKey (Or.inl hlen : Bounded keys b)]
          refine ih _ ?_ _ ?_ rfl <;> rw [List.length_drop] <;> omega

private theorem scanHead_cases (keys : List Bytes) (hs : Headers) {b : Bytes} (hlen : b.length ≤ bufferSize) :
    (LineRunsOff keys b ∧ scanHead keys hs b = .error .undefined) ∨
      (¬ LineRunsOff keys b ∧ ((∃ r, scanHead keys hs b = .ok r) ∨ scanHead keys hs b = .error ioError)) := by
  rcases Nat.lt_or_eq_of_le hlen with hlt | hfull
  · exact Or.inr ⟨fun h => absurd h.1 (by omega), scanHead_short keys hs hlt⟩
  · have hb : b ≠ [] := by
      rintro rfl
      simp [bufferSize] at hfull
    rw [scanHead, dif_neg hb]
    rcases hf : find crlf b with _ | i
    · refine Or.inr ⟨?_, Or.inr rfl⟩
      rintro ⟨-, ⟨i, hi⟩, -⟩
      simp [hf] at hi
    · rcases i with _ | i
      · refine Or.inr ⟨?_, Or.inl ⟨_, rfl⟩⟩
        rintro ⟨-, ⟨i, hi⟩, -⟩
        simp [hf] at hi
      · have hbeyond : List.replicate (bufferSize - b.length) NUL = [] := by simp [hfull]
        simp only [hbeyond]
        rcases foldlM_collectKey_full keys b hs with ⟨hoff, hk⟩ | ⟨hon, headers, hk⟩
        · refine Or.inl ⟨⟨hfull, ⟨i, hf⟩, hoff⟩, ?_⟩
          rw [hk]
        · refine Or.inr ⟨fun h => hon h.2.2, ?_⟩
          rw [hk]
          have hle := find_le hf
          simp only [List.length_cons, List.length_nil] at hle
          exact scanHead_short keys headers (by rw [List.length_drop]; omega)

private theorem scanStatus_cases {c : Bytes} (hlen : c.length ≤ bufferSize) (hlf : LF ∈ c) :
    (Unterminated c ∧ scanStatus c = .error .undefined) ∨
      (¬ Unterminated c ∧ (scanStatus c = .error ioError ∨
        ∃ status b, scanStatus c = .ok (status, b) ∧ b.length < bufferSize)) := by
  unfold scanStatus
  by_cases h10 : c.length < 10
  · refine Or.inr ⟨?_, Or.inl (if_pos h10)⟩
    intro hu
    have := hu.1
    simp only [bufferSize] at this
    omega
  · rw [if_neg h10]
    cases hs : cstring ((pad c).drop 9) with
    | none => exact Or.inl ⟨(cstring_pad_drop_eq_none_iff hlen).1 hs, rfl⟩
    | some s =>
      refine Or.inr ⟨?_, ?_⟩
      · intro hu
        rw [(cstring_pad_drop_eq_none_iff hlen).2 hu] at hs
        simp at hs
      · simp only
        cases hsp : find [SP] s with
        | none => exact Or.inl rfl
        | some codeEnd =>
          simp only
          by_cases hpos : 0 < atoi (s.take codeEnd)
          · rw [dif_pos hpos]
            refine Or.inr ⟨_, _, rfl, ?_⟩
            cases hf : find [LF] c with
            | none => exact absurd hlf (find_singleton_eq_none_iff.1 hf)
            | some n =>
              have hc := List.length_pos_of_mem hlf
              rw [Option.elim_some, List.length_drop]
              omega
          · rw [dif_neg hpos]
            exact Or.inl rfl

/-! ### One read -/

/-- What the property allows a read to end the call with. -/
def Allowed (c : Bytes) (o : Outcome Response) : Prop :=
  (∃ r, o = .returned r) ∨ (∃ msg, o = .panicked msg) ∧ c.length = bufferSize ∧ LF ∉ c

private theorem allowed_ioError (c : Bytes) : Allowed c ioError := Or.inl ⟨_, rfl⟩

private theorem not_allowed_undefined (c : Bytes) : ¬ Allowed c .undefined := by
  rintro (⟨r, h⟩ | ⟨⟨msg, h⟩, -⟩) <;> cases h

/-- The panic message is the buffer read as a C string, which runs off a full buffer. -/
theorem headerLinePanic_pad {c : Bytes} (hlen : c.length ≤ bufferSize) :
    (∃ msg, headerLinePanic (pad c) = .panicked msg) ↔ ¬ (c.length = bufferSize ∧ NUL ∉ c) := by
  have hnone : cstring (pad c) = none ↔ c.length = bufferSize ∧ NUL ∉ c := by
    rw [cstring_eq_none_iff, pad, List.mem_append, List.mem_replicate, not_or]
    constructor
    · rintro ⟨hc, hz⟩
      refine ⟨?_, hc⟩
      by_contra hne
      exact hz ⟨by omega, rfl⟩
    · rintro ⟨hfull, hc⟩
      exact ⟨hc, fun h => h.1 (by omega)⟩
  rw [← hnone, headerLinePanic]
  cases cstring (pad c) <;> simp

private theorem allowed_headerLinePanic {c : Bytes} (hlen : c.length ≤ bufferSize) (hlf : LF ∉ c) :
    Allowed c (headerLinePanic (pad c)) ↔ c.length = bufferSize ∧ NUL ∈ c := by
  have hne := headerLinePanic_ne_returned (pad c)
  constructor
  · rintro (⟨r, h⟩ | ⟨hmsg, hfull, -⟩)
    · exact absurd h (hne r)
    · refine ⟨hfull, ?_⟩
      by_contra hnul
      exact (headerLinePanic_pad hlen).1 hmsg ⟨hfull, hnul⟩
  · rintro ⟨hfull, hnul⟩
    exact Or.inr ⟨(headerLinePanic_pad hlen).2 fun h => h.2 hnul, hfull, hlf⟩

/-- The parser has not read anything yet. -/
def Parser.atStart : Parser → Bool
  | .statusLine => true
  | _ => false

/-- What a read with a newline does while the head is open. -/
theorem read_cases (keys : List Bytes) {p : Parser} (hp : p.inHead = true) {c : Bytes} (hlen : c.length ≤ bufferSize)
    (hlf : LF ∈ c) :
    (SearchRunsOff keys p.atStart c ∧ p.read keys c = .error .undefined) ∨
      (¬ SearchRunsOff keys p.atStart c ∧ ((∃ q, p.read keys c = .ok q) ∨ p.read keys c = .error ioError)) := by
  cases p with
  | statusLine =>
    simp only [SearchRunsOff, Parser.atStart, if_true]
    rw [read_statusLine keys hlf]
    rcases scanStatus_cases hlen hlf with ⟨hu, hs⟩ | ⟨hu, hs | ⟨status, b, hs, hb⟩⟩
    · exact Or.inl ⟨hu, by rw [hs]; rfl⟩
    · exact Or.inr ⟨hu, Or.inr (by rw [hs]; rfl)⟩
    · rcases scanHead_short keys [] hb with ⟨r, hr⟩ | hr
      · exact Or.inr ⟨hu, Or.inl ⟨.afterHead status r, by rw [hs, Except.bind, hr]; rfl⟩⟩
      · exact Or.inr ⟨hu, Or.inr (by rw [hs, Except.bind, hr]; rfl)⟩
  | head status headers =>
    simp only [SearchRunsOff, Parser.atStart, Bool.false_eq_true, if_false]
    rw [read_head keys status headers hlf]
    rcases scanHead_cases keys headers hlen with ⟨hoff, hs⟩ | ⟨hon, ⟨r, hs⟩ | hs⟩
    · exact Or.inl ⟨hoff, by rw [hs]; rfl⟩
    · exact Or.inr ⟨hon, Or.inl ⟨.afterHead status r, by rw [hs]; rfl⟩⟩
    · exact Or.inr ⟨hon, Or.inr (by rw [hs]; rfl)⟩
  | payload status headers body => simp [Parser.inHead] at hp

/-- A read fits exactly when it goes on or ends the call in an allowed way. -/
theorem read_fits_iff (keys : List Bytes) {p : Parser} (hp : p.inHead = true) {c : Bytes}
    (hlen : c.length ≤ bufferSize) :
    ReadFits keys p.atStart c ↔ ∀ o, p.read keys c = .error o → Allowed c o := by
  by_cases hlf : LF ∈ c
  · have hfits : ReadFits keys p.atStart c ↔ ¬ SearchRunsOff keys p.atStart c := by simp [ReadFits, hlf]
    rw [hfits]
    rcases read_cases keys hp hlen hlf with ⟨hoff, hread⟩ | ⟨hon, ⟨q, hread⟩ | hread⟩
    · exact iff_of_false (not_not.2 hoff) fun h => not_allowed_undefined c (h _ hread)
    · refine iff_of_true hon fun o ho => ?_
      rw [hread] at ho
      cases ho
    · refine iff_of_true hon fun o ho => ?_
      rw [hread] at ho
      cases ho
      exact allowed_ioError c
  · have hfits : ReadFits keys p.atStart c ↔ c.length = bufferSize ∧ NUL ∈ c := by simp [ReadFits, hlf]
    rw [hfits, ← allowed_headerLinePanic hlen hlf, read_of_not_newline keys hp hlf]
    constructor
    · rintro h o ⟨⟩
      exact h
    · exact fun h => h _ rfl

/-- No read ends the call by waiting. -/
private theorem read_ne_waiting (keys : List Bytes) {p : Parser} (hp : p.inHead = true) {c : Bytes}
    (hlen : c.length ≤ bufferSize) : p.read keys c ≠ .error .waiting := by
  intro h
  by_cases hlf : LF ∈ c
  · rcases read_cases keys hp hlen hlf with ⟨-, hread⟩ | ⟨-, ⟨q, hread⟩ | hread⟩ <;> rw [hread] at h <;> cases h
  · rw [read_of_not_newline keys hp hlf, headerLinePanic] at h
    split at h <;> cases h

/-! ### Runs -/

/-- A read that comes while the head is open. -/
def HeadRead (keys : List Bytes) (recvs : List Recv) (firstLine : Bool) (c : Bytes) : Prop :=
  ∃ pre d post s, recvs = pre ++ .data d :: post ∧ feed (round keys) .start pre = .ok s ∧ s.isPayload = false ∧
    s.firstLine = firstLine ∧ d.1 = c

/-- A head line without a newline fills the whole buffer. -/
def LineFillsBuffer (keys : List Bytes) (recvs : List Recv) : Prop :=
  ∃ firstLine c, HeadRead keys recvs firstLine c ∧ c.length = bufferSize ∧ LF ∉ c

private theorem atTop_of_feed {keys : List Bytes} {pre : List Recv} {s : Locals}
    (h : feed (round keys) .start pre = .ok s) : ∃ p, AtTop s p ∧ feed (Parser.step keys) .statusLine pre = .ok p := by
  have hrun := feed_matches keys pre
  rw [h] at hrun
  cases hp : feed (Parser.step keys) .statusLine pre with
  | error o => rw [hp] at hrun; exact hrun.elim
  | ok p => rw [hp] at hrun; exact ⟨p, hrun, rfl⟩

private theorem locals_of_feed {keys : List Bytes} {pre : List Recv} {p : Parser}
    (h : feed (Parser.step keys) .statusLine pre = .ok p) :
    ∃ s, feed (round keys) .start pre = .ok s ∧ s.isPayload = !p.inHead ∧ s.firstLine = p.atStart := by
  have hrun := feed_matches keys pre
  rw [h] at hrun
  cases hs : feed (round keys) .start pre with
  | error o => rw [hs] at hrun; exact hrun.elim
  | ok s =>
    rw [hs] at hrun
    obtain ⟨n, rfl⟩ := hrun
    exact ⟨_, rfl, by cases p <;> rfl, by cases p <;> rfl⟩

/-- The reads of the source's loop are the reads of the parser. -/
theorem headRead_iff {keys : List Bytes} {recvs : List Recv} {firstLine : Bool} {c : Bytes} :
    HeadRead keys recvs firstLine c ↔ ∃ pre d post p, recvs = pre ++ .data d :: post ∧
      feed (Parser.step keys) .statusLine pre = .ok p ∧ p.inHead = true ∧ p.atStart = firstLine ∧ d.1 = c := by
  constructor
  · rintro ⟨pre, d, post, s, hsplit, hrun, hpay, hfirst, hd⟩
    obtain ⟨p, ⟨n, rfl⟩, hp⟩ := atTop_of_feed hrun
    refine ⟨pre, d, post, p, hsplit, hp, ?_, ?_, hd⟩
    · cases p <;> simp_all [Parser.locals, Parser.inHead]
    · rw [← hfirst]
      cases p <;> rfl
  · rintro ⟨pre, d, post, p, hsplit, hp, hhead, hfirst, hd⟩
    obtain ⟨s, hs, hpay, hfirst'⟩ := locals_of_feed hp
    exact ⟨pre, d, post, s, hsplit, hs, by rw [hpay, hhead]; rfl, by rw [hfirst', hfirst], hd⟩

/-- A call comes back, or panics on a line that fills the buffer, exactly when every read that comes while the head is
open fits. -/
theorem sendRequest_keeps_running_iff (ctx : SessionContext) (wifi : StationStatus) (method data : Bytes)
    (recvs : List Recv) :
    ((∃ r, (sendRequest ctx wifi method data recvs).outcome = .returned r) ∨
        (sendRequest ctx wifi method data recvs).outcome = .waiting ∨
        (∃ msg, (sendRequest ctx wifi method data recvs).outcome = .panicked msg) ∧
          LineFillsBuffer ctx.headersToCollect recvs) ↔
      (wifi = .gotIp → ∀ firstLine c, HeadRead ctx.headersToCollect recvs firstLine c →
        ReadFits ctx.headersToCollect firstLine c) := by
  by_cases hwifi : wifi = .gotIp
  · subst hwifi
    rw [sendRequest_outcome]
    simp only [forall_const]
    generalize ctx.headersToCollect = keys
    constructor
    · intro h firstLine c hread
      obtain ⟨pre, d, post, p, rfl, hp, hhead, rfl, rfl⟩ := headRead_iff.1 hread
      rw [read_fits_iff keys hhead d.2.2]
      intro o ho
      have hrun : feed (Parser.step keys) .statusLine (pre ++ .data d :: post) = .error o :=
        feed_error_iff.2 ⟨pre, .data d, post, p, rfl, hp, ho⟩
      rw [outcome_of_feed hrun] at h
      rcases h with hret | hwait | ⟨hmsg, firstLine, c', hfull, hc', hlf⟩
      · exact Or.inl hret
      · subst hwait
        exact absurd ho (read_ne_waiting keys hhead d.2.2)
      · -- the read that filled the buffer is this one
        obtain ⟨pre', d', post', p', hsplit, hp', hhead', -, rfl⟩ := headRead_iff.1 hfull
        have hbad' : p'.step keys (.data d') = .error (headerLinePanic (pad d'.1)) :=
          read_of_not_newline keys hhead' hlf
        obtain ⟨-, hd⟩ := feed_error_unique hsplit hp ho hp' hbad'
        cases hd
        exact Or.inr ⟨hmsg, hc', hlf⟩
    · intro h
      rw [Parser.outcome]
      cases hrun : feed (Parser.step keys) .statusLine recvs with
      | ok p => exact Or.inr (Or.inl rfl)
      | error o =>
        obtain ⟨pre, r, post, p, hsplit, hp, hstep⟩ := feed_error_iff.1 hrun
        cases r with
        | failed errno => cases hstep; exact Or.inl ⟨_, rfl⟩
        | eof => cases hstep; exact Or.inl ⟨_, rfl⟩
        | data d =>
          have hhead : p.inHead = true := by
            cases p with
            | payload status headers body => cases hstep
            | _ => rfl
          have hread := headRead_iff.2 ⟨pre, d, post, p, hsplit, hp, hhead, rfl, rfl⟩
          rcases (read_fits_iff keys hhead d.2.2).1 (h _ _ hread) o hstep with hret | ⟨hmsg, hfull, hlf⟩
          · exact Or.inl hret
          · exact Or.inr (Or.inr ⟨hmsg, _, _, hread, hfull, hlf⟩)
  · refine iff_of_true (Or.inl ⟨.ofStatus .ioError, ?_⟩) fun h => absurd h hwifi
    simp [sendRequest, hwifi, ioError]

/-- A short first read without a newline halts the device. -/
theorem sendRequest_halts_on_short_read :
    let recvs : List Recv := [.data ⟨ascii "HTTP", by decide⟩, .eof]
    ¬ ((∃ r, (sendRequest updateSession .gotIp (ascii "GET") [] recvs).outcome = .returned r) ∨
      (sendRequest updateSession .gotIp (ascii "GET") [] recvs).outcome = .waiting ∨
      (∃ msg, (sendRequest updateSession .gotIp (ascii "GET") [] recvs).outcome = .panicked msg) ∧
        LineFillsBuffer updateSession.headersToCollect recvs) := by
  intro recvs
  have hlf : LF ∉ ascii "HTTP" := by decide
  have hread : Parser.statusLine.read updateSession.headersToCollect (ascii "HTTP") =
      .error (headerLinePanic (pad (ascii "HTTP"))) := read_of_not_newline _ rfl hlf
  obtain ⟨msg, hmsg⟩ : ∃ msg, headerLinePanic (pad (ascii "HTTP")) = .panicked msg :=
    (headerLinePanic_pad (by decide)).2 (by decide)
  have hout : (sendRequest updateSession .gotIp (ascii "GET") [] recvs).outcome = .panicked msg := by
    rw [sendRequest_outcome, ← hmsg]
    exact outcome_of_feed (feed_reads_error hread [])
  rw [hout]
  rintro (⟨r, h⟩ | h | ⟨-, firstLine, c, ⟨pre, d, post, s, hsplit, -, -, -, rfl⟩, hfull, -⟩)
  · cases h
  · cases h
  · have hmem : Recv.data d ∈ recvs := hsplit ▸ by simp
    simp only [recvs, List.mem_cons, Recv.data.injEq, reduceCtorEq, List.not_mem_nil, or_false] at hmem
    rw [hmem] at hfull
    revert hfull
    decide

end IopHal
