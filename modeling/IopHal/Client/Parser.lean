import IopHal.Client.SendRequest

/-!
# The receive loop as a parser

At the top of the receive loop the buffer is always empty and zeroed, so a round depends on the bytes of one read
and on what the earlier reads left behind: nothing, an open head, or a payload.  `Parser` is that state and
`Parser.step` the round on it; `round_simulates` proves that the loop of the source makes exactly these rounds, and
`sendRequest_outcome` that a call ends as the parser does.
-/

namespace IopHal

open Find Feed

/-- A status the loop has accepted -/
abbrev Status := { c : Int // 0 < c }

/-- What the loop has taken in at its top. -/
inductive Parser
  | statusLine
  | head (status : Status) (headers : Headers)
  | payload (status : Status) (headers : Headers) (body : Bytes)

/-- The buffer that holds the bytes `b` -/
def pad (b : Bytes) : Bytes := b ++ List.replicate (bufferSize - b.length) NUL

/-- The header loop over the bytes of a read: the headers collected, and the bytes behind the blank line if it is
there. -/
def scanHead (keys : List Bytes) (headers : Headers) (b : Bytes) :
    Except (Outcome Response) (Headers × Option Bytes) :=
  if _h : b = [] then .ok (headers, none)
  else
    match find crlf b with
    | none => .error ioError
    | some 0 => .ok (headers, some (b.drop 2))
    | some i =>
      match keys.foldlM (collectKey b (List.replicate (bufferSize - b.length) NUL)) headers with
      | .error o => .error o
      | .ok headers => scanHead keys headers (b.drop (i + 2))
termination_by b.length
decreasing_by
  have := List.length_pos_iff.2 _h
  simp only [List.length_drop]
  omega

/-- The state after the header loop -/
def Parser.afterHead (status : Status) : Headers × Option Bytes → Parser
  | (headers, none) => .head status headers
  | (headers, some body) => .payload status headers body

/-- The status line at the start of the first read: the status and the bytes behind the line. -/
def scanStatus (b : Bytes) : Except (Outcome Response) (Status × Bytes) :=
  if b.length < 10 then .error ioError
  else
    match cstring ((pad b).drop 9) with
    | none => .error .undefined
    | some statusStr =>
      match find [SP] statusStr with
      | none => .error ioError
      | some codeEnd =>
        if h : 0 < atoi (statusStr.take codeEnd) then
          .ok (⟨_, h⟩, b.drop ((find [LF] b).elim 0 (· + 1)))
        else .error ioError

/-- A round on the bytes of a read. -/
def Parser.read (keys : List Bytes) (p : Parser) (b : Bytes) : Except (Outcome Response) Parser :=
  match p with
  | .statusLine =>
    if LF ∈ b then do
      let (status, b) ← scanStatus b
      return .afterHead status (← scanHead keys [] b)
    else .error (headerLinePanic (pad b))
  | .head status headers =>
    if LF ∈ b then return .afterHead status (← scanHead keys headers b)
    else .error (headerLinePanic (pad b))
  | .payload status headers body => .ok (.payload status headers (body ++ b))

/-- The response that the end of the stream leads to. -/
def Parser.close : Parser → Response
  | .statusLine => .ofCode 1000
  | .head status headers => .ofHeaders headers [] status
  | .payload status headers body => .ofHeaders headers body status

def Parser.step (keys : List Bytes) (p : Parser) : Recv → Except (Outcome Response) Parser
  | .failed _ => .error ioError
  | .eof => .error (.returned p.close)
  | .data c => p.read keys c.1

/-- The head is not complete yet. -/
def Parser.inHead : Parser → Bool
  | .payload .. => false
  | _ => true

theorem read_statusLine (keys : List Bytes) {b : Bytes} (h : LF ∈ b) :
    Parser.statusLine.read keys b = (scanStatus b).bind fun r => (scanHead keys [] r.2).map (.afterHead r.1) := by
  simp only [Parser.read, if_pos h]
  rfl

theorem read_head (keys : List Bytes) (status : Status) (headers : Headers) {b : Bytes} (h : LF ∈ b) :
    (Parser.head status headers).read keys b = (scanHead keys headers b).map (.afterHead status) := by
  simp only [Parser.read, if_pos h]
  rfl

/-- A read without a newline panics while the head is not complete. -/
theorem read_of_not_newline (keys : List Bytes) {p : Parser} (hp : p.inHead = true) {b : Bytes} (h : LF ∉ b) :
    p.read keys b = .error (headerLinePanic (pad b)) := by
  cases p with
  | statusLine => simp only [Parser.read, if_neg h]
  | head status headers => simp only [Parser.read, if_neg h]
  | payload status headers body => simp [Parser.inHead] at hp

/-! ### The buffer -/

/-- The variables `s` with the bytes `b` in the buffer. -/
def Locals.holding (s : Locals) (b : Bytes) : Locals := { s with buffer := pad b, size := b.length }

@[simp] theorem buffer_holding (s : Locals) (b : Bytes) : (s.holding b).buffer = pad b := rfl

@[simp] theorem size_holding (s : Locals) (b : Bytes) : (s.holding b).size = b.length := rfl

@[simp] theorem firstLine_holding (s : Locals) (b : Bytes) : (s.holding b).firstLine = s.firstLine := rfl

@[simp] theorem isPayload_holding (s : Locals) (b : Bytes) : (s.holding b).isPayload = s.isPayload := rfl

@[simp] theorem buff_holding (s : Locals) (b : Bytes) : (s.holding b).buff = b := by
  simp [Locals.buff, Locals.holding, pad]

@[simp] theorem beyond_holding (s : Locals) (b : Bytes) :
    (s.holding b).beyond = List.replicate (bufferSize - b.length) NUL := by
  simp [Locals.beyond, Locals.holding, pad]

private theorem shiftChars_pad {b : Bytes} {n : Nat} (hn : n ≤ b.length) :
    shiftChars (pad b) n (b.length - n) = pad (b.drop n) := by
  have htake : ((pad b).drop n).take (b.length - n) = b.drop n := by
    rw [pad, List.drop_append_of_le_length hn, List.take_append_of_le_length (by simp), List.take_of_length_le (by simp)]
  simp only [shiftChars, memsetTail, memmove, htake]
  rw [List.take_append_of_le_length (by simp), List.take_of_length_le (by simp), pad, List.length_drop]

theorem shift_holding (s : Locals) {b : Bytes} {n : Nat} (hn : n ≤ b.length) :
    (s.holding b).shift n = s.holding (b.drop n) := by
  simp [Locals.shift, Locals.holding, shiftChars_pad hn]

/-! ### The header loop -/

/-- The variables after the header loop -/
private def afterLoop (s : Locals) : Headers × Option Bytes → Locals
  | (headers, none) => { s with responseHeaders := headers }.holding []
  | (headers, some body) => { s with responseHeaders := headers, isPayload := true }.holding body

private theorem headerLoop_payload (keys : List Bytes) {s : Locals} (h : s.isPayload = true) :
    headerLoop keys s = .ok s := by
  rw [headerLoop]; simp [h]

private theorem headerLoop_holding (keys : List Bytes) (s : Locals) (hp : s.isPayload = false) (b : Bytes) :
    headerLoop keys (s.holding b) = (scanHead keys s.responseHeaders b).map (afterLoop s) := by
  induction hn : b.length using Nat.strong_induction_on generalizing b s with
  | _ n ih =>
    subst hn
    rw [headerLoop, scanHead]
    by_cases hb : b = []
    · simp [hb, Locals.holding, Except.map, afterLoop]
    · have hpos := List.length_pos_iff.2 hb
      have hsize : (s.holding b).size > 0 ∧ (!(s.holding b).isPayload) = true := ⟨hpos, by simp [Locals.holding, hp]⟩
      rw [dif_pos hsize, dif_neg hb, buff_holding, beyond_holding]
      rcases hf : find crlf b with _ | i
      · rfl
      · have hle := find_le hf
        simp only [List.length_cons, List.length_nil] at hle
        rcases i with _ | i
        · simp only
          rw [shift_holding s (by omega), headerLoop_payload keys rfl]
          rfl
        · simp only
          cases hk : keys.foldlM (collectKey b (List.replicate (bufferSize - b.length) NUL)) s.responseHeaders with
          | error o => simp only [Locals.holding] at hk ⊢; rw [hk]; rfl
          | ok headers =>
            simp only [Locals.holding] at hk ⊢
            rw [hk]
            have := ih (b.drop (i + 1 + 2)).length (by simp; omega) { s with responseHeaders := headers } hp _ rfl
            rw [← shift_holding _ (by omega)] at this
            exact this

/-! ### Rounds -/

/-- The variables at the top of the loop, where `signedSize` is left over from the last read. -/
def Parser.locals (p : Parser) (signedSize : Nat) : Locals :=
  match p with
  | .statusLine => { Locals.start with buffer := pad [], signedSize := signedSize }
  | .head status headers => ⟨pad [], signedSize, 0, false, false, some status.1, headers, []⟩
  | .payload status headers body => ⟨pad [], signedSize, 0, false, true, some status.1, headers, body⟩

theorem locals_eq_holding (p : Parser) (n : Nat) : p.locals n = (p.locals n).holding [] := by
  cases p <;> rfl

/-- The loop stands at its top in the state `p`. -/
def AtTop (s : Locals) (p : Parser) : Prop := ∃ n, s = p.locals n

private theorem round_data (keys : List Bytes) (p : Parser) (n : Nat) (c : Chunk bufferSize) :
    round keys (p.locals n) (.data c) = afterRecv keys ((p.locals c.1.length).holding c.1) := by
  have hbuf : List.drop c.1.length (pad []) = List.replicate (bufferSize - c.1.length) NUL := by
    simp [pad]
  have hsize : ((p.locals n).holding []).size < bufferSize := by simp [Locals.holding, bufferSize]
  rw [locals_eq_holding, round, if_pos hsize]
  cases p <;> simp only [Parser.locals, Locals.holding, List.length_nil, List.take_zero, List.nil_append,
    Nat.zero_add, hbuf] <;> rfl

private theorem appendPayload_afterLoop {s : Locals} (hp : s.isPayload = false) (hs : s.responsePayload = [])
    (status : Status) (hstatus : s.status = some status.1) (hf : s.firstLine = false)
    (r : Headers × Option Bytes) : AtTop (appendPayload (afterLoop s r)) (.afterHead status r) := by
  obtain ⟨headers, _ | body⟩ := r
  · refine ⟨s.signedSize, ?_⟩
    simp [appendPayload, afterLoop, Locals.holding, Parser.afterHead, Parser.locals, hp, hs, hstatus, hf]
  · refine ⟨s.signedSize, ?_⟩
    by_cases hb : body = []
    · simp [appendPayload, afterLoop, Locals.holding, Parser.afterHead, Parser.locals, hs, hstatus, hf, hb]
    · have hpos := List.length_pos_iff.2 hb
      have hbuff : (({ s with responseHeaders := headers, isPayload := true } : Locals).holding body).buff = body :=
        buff_holding _ _
      simp only [appendPayload, afterLoop, hbuff]
      simp [Locals.holding, Parser.afterHead, Parser.locals, hs, hstatus, hf, hpos, memsetTail, pad]

/-- The status line is cut off and its code tested. -/
private theorem readStatus_holding {s : Locals} (hf : s.firstLine = true) {b : Bytes} (hb : b ≠ []) :
    ((readStatus (s.holding b)).bind fun t => (checkStatus t).map fun _ => t) =
      (scanStatus b).map fun r => { s with status := some r.1.1, firstLine := false }.holding r.2 := by
  have hpos := List.length_pos_iff.2 hb
  have hle : (find [LF] b).elim 0 (· + 1) ≤ b.length := by
    rcases hn : find [LF] b with _ | n
    · simp
    · have := find_le hn
      simpa using this
  unfold readStatus scanStatus
  simp only [buff_holding, buffer_holding, size_holding, firstLine_holding, hf, hpos, true_and, if_true]
  by_cases h10 : b.length < 10
  · simp [h10, Except.map, Except.bind]
  · simp only [h10, if_false]
    cases cstring ((pad b).drop 9) with
    | none => rfl
    | some statusStr =>
      cases hc : find [SP] statusStr with
      | none => simp [hc, Except.map, Except.bind]
      | some codeEnd =>
        simp only [hc, Except.bind, checkStatus, Option.elim_some, decide_eq_true_eq, shift_holding s hle]
        by_cases hs : 0 < atoi (statusStr.take codeEnd)
        · simp only [hs, Int.not_le.2 hs, Except.map, if_false, dif_pos]; rfl
        · simp [hs, Int.not_lt.1 hs, Except.map]

private theorem checkNewline_holding {s : Locals} (hp : s.isPayload = false) (b : Bytes) :
    checkNewline (s.holding b) = if LF ∈ b then .ok () else .error (headerLinePanic (pad b)) := by
  unfold checkNewline
  by_cases h : LF ∈ b
  · have hf : find [LF] b ≠ none := fun e => find_singleton_eq_none_iff.1 e h
    simp [h, hf]
  · have hf : find [LF] b = none := find_singleton_eq_none_iff.2 h
    simp [h, hf, hp]

private theorem afterRecv_holding (keys : List Bytes) (s : Locals) {b : Bytes} (hb : b ≠ [])
    (hlen : b.length ≤ bufferSize) :
    afterRecv keys (s.holding b) = (do
      let t := findPayload (s.holding b)
      checkNewline t
      let t ← readStatus t
      checkStatus t
      let t ← headerLoop keys t
      pure (appendPayload t)) := by
  have hpos : b.length ≠ 0 := by simpa using hb
  have hsize : (s.holding b).size = b.length := rfl
  rw [afterRecv, hsize]
  simp [hpos, Nat.not_lt.2 hlen]

private theorem readStatus_of_not_firstLine {s : Locals} (hf : s.firstLine = false) : readStatus s = .ok s := by
  simp [readStatus, hf]

private theorem checkStatus_of_status {s : Locals} {status : Status} (h : s.status = some status.1) :
    checkStatus s = .ok () := by
  have := status.2
  simp [checkStatus, h, Int.not_le.2 this]

private theorem bind_checkStatus {ρ : Type} (x : Except (Outcome Response) Locals)
    (f : Locals → Except (Outcome Response) ρ) :
    (x.bind fun t => (checkStatus t).bind fun _ => f t) =
      (x.bind fun t => (checkStatus t).map fun _ => t).bind f := by
  cases x with
  | error o => rfl
  | ok t => cases h : checkStatus t <;> simp [Except.bind, Except.map, h]

/-- The header loop and the payload, from an accepted status on. -/
private theorem headerLoop_atTop (keys : List Bytes) {s : Locals} {status : Status} (hp : s.isPayload = false)
    (hs : s.responsePayload = []) (hstatus : s.status = some status.1) (hf : s.firstLine = false) (b : Bytes) :
    Match AtTop ((headerLoop keys (s.holding b)).map appendPayload)
      ((scanHead keys s.responseHeaders b).map (.afterHead status)) := by
  rw [headerLoop_holding keys s hp]
  cases scanHead keys s.responseHeaders b with
  | error o => rfl
  | ok r => exact appendPayload_afterLoop hp hs status hstatus hf r

private theorem afterRecv_statusLine (keys : List Bytes) (m : Nat) {b : Bytes} (hb : b ≠ [])
    (hlen : b.length ≤ bufferSize) :
    Match AtTop (afterRecv keys ((Parser.statusLine.locals m).holding b)) (Parser.statusLine.read keys b) := by
  have hfind : findPayload ((Parser.statusLine.locals m).holding b) = (Parser.statusLine.locals m).holding b := rfl
  rw [afterRecv_holding keys _ hb hlen, hfind]
  simp only [checkNewline_holding (show (Parser.statusLine.locals m).isPayload = false from rfl)]
  unfold Parser.read
  by_cases hlf : LF ∈ b
  · simp only [hlf, if_true]
    have hread := readStatus_holding (show (Parser.statusLine.locals m).firstLine = true from rfl) hb
    have hbind := bind_checkStatus (readStatus ((Parser.statusLine.locals m).holding b))
      fun t => (headerLoop keys t).map appendPayload
    rw [hread] at hbind
    change Match AtTop ((readStatus ((Parser.statusLine.locals m).holding b)).bind fun t =>
      (checkStatus t).bind fun _ => (headerLoop keys t).map appendPayload) _
    rw [hbind]
    cases scanStatus b with
    | error o => rfl
    | ok r =>
      let s : Locals := { Parser.statusLine.locals m with status := some r.1.1, firstLine := false }
      exact headerLoop_atTop keys (s := s) rfl rfl rfl rfl r.2
  · simp only [hlf, if_false]
    rfl

/-- Once the payload flag is set, a round only appends. -/
private theorem rest_of_isPayload (keys : List Bytes) {t : Locals} {status : Status} (hp : t.isPayload = true)
    (hf : t.firstLine = false) (hstatus : t.status = some status.1) :
    (do
      checkNewline t
      let t ← readStatus t
      checkStatus t
      let t ← headerLoop keys t
      pure (appendPayload t)) = (.ok (appendPayload t) : Except (Outcome Response) Locals) := by
  have hnewline : checkNewline t = .ok () := by simp [checkNewline, hp]
  simp only [hnewline, readStatus_of_not_firstLine hf, checkStatus_of_status hstatus, headerLoop_payload keys hp, bind,
    Except.bind, pure, Except.pure]

private theorem afterRecv_payload (keys : List Bytes) (status : Status) (headers : Headers) (body : Bytes) (m : Nat)
    {b : Bytes} (hb : b ≠ []) (hlen : b.length ≤ bufferSize) :
    Match AtTop (afterRecv keys (((Parser.payload status headers body).locals m).holding b))
      ((Parser.payload status headers body).read keys b) := by
  rw [afterRecv_holding keys _ hb hlen]
  generalize hs : ((Parser.payload status headers body).locals m).holding b = t
  have hp : t.isPayload = true := by rw [← hs]; rfl
  have hf : t.firstLine = false := by rw [← hs]; rfl
  have hstatus : t.status = some status.1 := by rw [← hs]; rfl
  have hfind : findPayload t = t := by simp [findPayload, hp]
  have hpos := List.length_pos_iff.2 hb
  rw [hfind, rest_of_isPayload keys hp hf hstatus, ← hs]
  refine ⟨m, ?_⟩
  have hp' : ((Parser.payload status headers body).locals m).isPayload = true := rfl
  simp only [appendPayload, buff_holding, size_holding, isPayload_holding, hp', hpos, and_self, if_true]
  simp [Parser.locals, Locals.holding, memsetTail, pad]

private theorem afterRecv_head (keys : List Bytes) (status : Status) (headers : Headers) (m : Nat) {b : Bytes}
    (hb : b ≠ []) (hlen : b.length ≤ bufferSize) :
    Match AtTop (afterRecv keys (((Parser.head status headers).locals m).holding b))
      ((Parser.head status headers).read keys b) := by
  rw [afterRecv_holding keys _ hb hlen]
  unfold Parser.read
  generalize hs : (Parser.head status headers).locals m = s
  have hp : s.isPayload = false := by rw [← hs]; rfl
  have hf : s.firstLine = false := by rw [← hs]; rfl
  have hstatus : s.status = some status.1 := by rw [← hs]; rfl
  have hheaders : s.responseHeaders = headers := by rw [← hs]; rfl
  have hbody : s.responsePayload = [] := by rw [← hs]; rfl
  by_cases hcrlf : find crlf b = some 0
  · -- a blank line at the start of the read: the header loop finds the payload flag already set
    have hpre := find_eq_zero_iff.1 hcrlf
    have hlf : LF ∈ b := hpre.subset (by simp)
    have h2 : 2 ≤ b.length := hpre.length_le
    have hfind : findPayload (s.holding b) = { s with isPayload := true }.holding (b.drop 2) := by
      simp only [findPayload, firstLine_holding, isPayload_holding, buff_holding, hf, hp, hcrlf, Bool.not_false,
        and_self, if_true, shift_holding s h2]
      rfl
    have hscan : scanHead keys headers b = .ok (headers, some (b.drop 2)) := by
      rw [scanHead, dif_neg hb]
      simp only [hcrlf]
    simp only [hfind, hlf, if_true, hscan]
    have hrest := rest_of_isPayload keys (t := { s with isPayload := true }.holding (b.drop 2)) rfl hf hstatus
    rw [hrest]
    have hafter := appendPayload_afterLoop (s := s) hp hbody status hstatus hf (headers, some (b.drop 2))
    simp only [afterLoop, ← hheaders] at hafter
    rw [← hheaders]
    exact hafter
  · have hfind : findPayload (s.holding b) = s.holding b := by simp [findPayload, hcrlf]
    simp only [hfind, checkNewline_holding hp]
    by_cases hlf : LF ∈ b
    · simp only [hlf, if_true, readStatus_of_not_firstLine (s := s.holding b) hf,
        checkStatus_of_status (s := s.holding b) hstatus, bind, Except.bind]
      have := headerLoop_atTop keys hp hbody hstatus hf b
      rw [hheaders] at this
      exact this
    · simp only [hlf, if_false]
      rfl

/-- The loop of the source makes the rounds of the parser. -/
theorem round_simulates (keys : List Bytes) {s : Locals} {p : Parser} (h : AtTop s p) (r : Recv) :
    Match AtTop (round keys s r) (p.step keys r) := by
  obtain ⟨n, rfl⟩ := h
  cases r with
  | failed errno => cases p <;> rfl
  | eof => cases p <;> rfl
  | data c =>
    rw [round_data]
    cases p with
    | statusLine => exact afterRecv_statusLine keys _ c.2.1 c.2.2
    | head status headers => exact afterRecv_head keys status headers _ c.2.1 c.2.2
    | payload status headers body => exact afterRecv_payload keys status headers body _ c.2.1 c.2.2

/-! ### The call -/

/-- How a call ends after the reads `recvs`. -/
def Parser.outcome (keys : List Bytes) (p : Parser) (recvs : List Recv) : Outcome Response :=
  match feed (Parser.step keys) p recvs with
  | .error o => o
  | .ok _ => .waiting

theorem outcome_of_feed {keys : List Bytes} {p : Parser} {recvs : List Recv} {o : Outcome Response}
    (h : feed (Parser.step keys) p recvs = .error o) : Parser.outcome keys p recvs = o := by
  rw [Parser.outcome, h]

/-- The source's loop and the parser stand at corresponding places behind the same reads. -/
theorem feed_matches (keys : List Bytes) (pre : List Recv) :
    Feed.Match AtTop (feed (round keys) .start pre) (feed (Parser.step keys) .statusLine pre) := by
  have hstart : AtTop .start .statusLine := ⟨0, by simp [Locals.start, Parser.locals, pad]⟩
  exact feed_simulates (fun s p r h => round_simulates keys h r) hstart pre

/-- A connected session reads as the parser does. -/
theorem sendRequest_outcome (ctx : SessionContext) (method data : Bytes) (recvs : List Recv) :
    (sendRequest ctx .gotIp method data recvs).outcome = Parser.outcome ctx.headersToCollect .statusLine recvs := by
  have hrun := feed_matches ctx.headersToCollect recvs
  simp only [sendRequest, ne_eq, not_true_eq_false, if_false, ctx.opened, Parser.outcome]
  cases hs : feed (round ctx.headersToCollect) .start recvs with
  | error o =>
    cases hp : feed (Parser.step ctx.headersToCollect) .statusLine recvs with
    | error o' => rw [hs, hp] at hrun; exact hrun
    | ok p => rw [hs, hp] at hrun; exact hrun.elim
  | ok s =>
    cases hp : feed (Parser.step ctx.headersToCollect) .statusLine recvs with
    | error o' => rw [hs, hp] at hrun; exact hrun.elim
    | ok p => rfl

end IopHal
