import IopHal.Server.HandleClient
import IopHal.Message

/-!
# The server's view of a request

What a call makes of the first read that delivers bytes depends on these bytes alone.  `HttpServer.scan` is that
function on texts and `handleClient_data` proves that the source, with its buffer and its loop, computes it.

* (`skipHead_isSome_iff`) the header loop gets through a text exactly when the text is empty, ends with CRLF or holds
  CRLFCRLF (`HeadEnds`);
* (`skipHead_lines`, `skipHead_blank`) it passes header lines, and stops behind the blank line that follows a line.
-/

namespace IopHal

open Find Feed Framing

namespace HttpServer

/-- The header loop on a text: what it leaves as payload, or `none` where the source panics. -/
def skipHead (b : Bytes) : Option Bytes :=
  if _h : b = [] then some []
  else
    match find crlf b with
    | none => none
    | some i => if some i = find (crlf ++ crlf) b then some (b.drop (i + 4)) else skipHead (b.drop (i + 2))
termination_by b.length
decreasing_by
  have := List.length_pos_iff.2 _h
  simp only [List.length_drop]
  omega

/-- What the server makes of a text. -/
inductive Scan
  | noMethod
  | noRoute
  | noNewline
  | badCode
  | request (route payload : Bytes)
  deriving DecidableEq

def scan (b : Bytes) : Scan :=
  match methodWord b with
  | none => .noMethod
  | some word =>
    match routeAt (offset word) b with
    | none => .noRoute
    | some route =>
      match find crlf b with
      | none => .noNewline
      | some i => (skipHead (b.drop (i + 2))).elim .badCode (.request route)

/-- The connection that a handler sees. -/
def connection (fd : Nat) (route payload : Bytes) : HttpConnection :=
  { HttpConnection.accepted fd with currentRoute := route, currentPayload := payload }

/-- How a call ends that has read the text `b`. -/
def serve (server : HttpServer) (fd : Nat) (b : Bytes) : Outcome Served :=
  match scan b with
  | .noMethod => server.leave (.accepted fd) []
  | .noRoute => .terminated
  | .noNewline => .panicked (tooLong b)
  | .badCode => .panicked (ascii "Bad code")
  | .request route payload => server.dispatch (connection fd route payload)

/-! ### The buffer -/

/-- The buffer starts with the text `b`; what is behind it does not matter. -/
def Holds (s : Locals) (b : Bytes) : Prop := s.buff = b ∧ s.len = b.length

theorem Holds.shift {s : Locals} {b : Bytes} (h : Holds s b) {n : Nat} (hn : n ≤ b.length) :
    Holds (s.shift n) (b.drop n) := by
  obtain ⟨hbuff, hlen⟩ := h
  have hmem : s.len ≤ s.buffer.length := by
    have := congrArg List.length hbuff
    rw [Locals.buff, List.length_take] at this
    omega
  have hmoved : ((s.buffer.drop n).take (s.len - n)).length = s.len - n := by
    rw [List.length_take, List.length_drop]
    omega
  refine ⟨?_, by simp only [Locals.shift, List.length_drop, hlen]⟩
  rw [← hbuff]
  simp only [Locals.buff, Locals.shift, memmove]
  rw [List.take_left' hmoved, List.drop_take]

private theorem skipHeaders_payload {s : Locals} (h : s.isPayload = true) : skipHeaders s = .ok s := by
  rw [skipHeaders]; simp [h]

private theorem skipHeaders_holds {s : Locals} {b : Bytes} (h : Holds s b) (hp : s.isPayload = false) :
    (skipHead b = none ∧ skipHeaders s = .error (.panicked (ascii "Bad code"))) ∨
      ∃ payload t, skipHead b = some payload ∧ skipHeaders s = .ok t ∧ Holds t payload ∧ t.conn = s.conn := by
  induction hn : b.length using Nat.strong_induction_on generalizing b s with
  | _ n ih =>
    subst hn
    rw [skipHeaders, skipHead]
    by_cases hb : b = []
    · have hlen : ¬ (s.len > 0 ∧ (!s.isPayload) = true) := by simp [h.2, hb]
      refine Or.inr ⟨[], s, ?_, ?_, ?_, rfl⟩
      · rw [dif_pos hb]
      · rw [dif_neg hlen]
      · rwa [hb] at h
    · have hpos := List.length_pos_iff.2 hb
      have hlen : s.len > 0 ∧ (!s.isPayload) = true := ⟨by rw [h.2]; exact hpos, by simp [hp]⟩
      rw [dif_pos hlen, dif_neg hb, h.1]
      cases hf : find crlf b with
      | none => exact Or.inl ⟨rfl, rfl⟩
      | some i =>
        have hle := find_le hf
        simp only [List.length_cons, List.length_nil] at hle
        by_cases hblank : some i = find (crlf ++ crlf) b
        · have hle' := find_le hblank.symm
          simp only [List.length_append, List.length_cons, List.length_nil] at hle'
          have hshift := h.shift (n := i + 4) (by omega)
          refine Or.inr ⟨_, { s.shift (i + 4) with isPayload := true }, if_pos hblank, ?_, hshift, rfl⟩
          simp only [if_pos hblank]
          exact skipHeaders_payload rfl
        · simp only [if_neg hblank]
          exact ih _ (by rw [List.length_drop]; omega) (h.shift (by omega)) hp rfl

private theorem readRequestLine_holds (server : HttpServer) {s : Locals} {fd : Nat} {b : Bytes} (h : Holds s b)
    (hb : b ≠ []) (hf : s.firstLine = true) (hp : s.isPayload = false) (hconn : s.conn = .accepted fd) :
    (match (server.readRequestLine s).bind skipHeaders with
      | .error o => o
      | .ok s => server.dispatch { s.conn with currentPayload := s.conn.currentPayload ++ s.buff }) =
      serve server fd b := by
  have hpos := List.length_pos_iff.2 hb
  have hlen : s.len > 0 ∧ s.firstLine = true := ⟨by rw [h.2]; exact hpos, hf⟩
  rw [readRequestLine, if_pos hlen, h.1, serve, scan, hconn]
  cases methodWord b with
  | none => rfl
  | some word =>
    simp only
    cases routeAt (offset word) b with
    | none => rfl
    | some route =>
      simp only
      cases hi : find crlf b with
      | none => rfl
      | some i =>
        have hle := find_le hi
        simp only [List.length_cons, List.length_nil] at hle
        have hshift := h.shift (n := i + 2) (by omega)
        generalize ht : ({ s.shift (i + 2) with
          conn := { HttpConnection.accepted fd with currentRoute := route }, firstLine := false } : Locals) = t
        have hholds : Holds t (b.drop (i + 2)) := by rw [← ht]; exact hshift
        have htp : t.isPayload = false := by rw [← ht]; exact hp
        have htconn : t.conn = { HttpConnection.accepted fd with currentRoute := route } := by rw [← ht]
        have hstep : ({ s.shift (i + 2) with conn.currentRoute := route, firstLine := false } : Locals) = t := by
          rw [← ht]
          simp only [Locals.shift, hconn]
        simp only [hstep, Except.bind]
        rcases skipHeaders_holds hholds htp with ⟨hskip, hloop⟩ | ⟨payload, u, hskip, hloop, hu, huconn⟩
        · simp only [hskip, hloop, Option.elim_none]
        · simp only [hskip, hloop, Option.elim_some, huconn, htconn, hu.1]
          rfl

theorem afterRead_holds (server : HttpServer) {s : Locals} {fd : Nat} {b : Bytes} (h : Holds s b) (hb : b ≠ [])
    (hlen : b.length ≤ maxSize) (hf : s.firstLine = true) (hp : s.isPayload = false)
    (hconn : s.conn = .accepted fd) : server.afterRead s = serve server fd b := by
  have hpos := List.length_pos_iff.2 hb
  have h0 : ¬ s.len = 0 := by rw [h.2]; omega
  have hmax : ¬ s.len > maxSize := by rw [h.2]; omega
  rw [afterRead, if_neg fun h => h0 h.2, if_neg h0, if_neg hmax]
  exact readRequestLine_holds server h hb hf hp hconn

/-! ### Calls -/

/-- The server listens and is between two calls. -/
structure Ready (server : HttpServer) : Prop where
  address : server.address ≠ none
  maybeFD : server.maybeFD ≠ none
  idle : server.isHandlingRequest = false

/-- The server during a call -/
def busy (server : HttpServer) : HttpServer := { server with isHandlingRequest := true }

private theorem feed_again (server : HttpServer) (fd n : Nat) :
    ∃ signedLen, feed server.round (.start fd) (List.replicate n .again) =
      .ok { Locals.start fd with signedLen := signedLen } := by
  induction n with
  | zero => exact ⟨0, rfl⟩
  | succ n ih =>
    obtain ⟨signedLen, hrun⟩ := ih
    refine ⟨-1, ?_⟩
    rw [List.replicate_succ', feed_append_ok hrun]
    have hstep : server.round { Locals.start fd with signedLen := signedLen } .again =
        .ok { Locals.start fd with signedLen := -1 } := by
      have hlen : (Locals.start fd).len < maxSize := Nat.succ_pos 4095
      rw [round, if_pos hlen]
    rw [feed_cons_ok hstep, feed_nil]

/-- The first read that delivers bytes decides how the call ends. -/
theorem handleClient_data {server : HttpServer} (hready : server.Ready) (fd n : Nat) (c : Chunk maxSize)
    (rest : List ReadResult) :
    server.handleClient (.client fd) (List.replicate n .again ++ .data c :: rest) = serve server.busy fd c.1 := by
  obtain ⟨signedLen, hrun⟩ := feed_again server.busy fd n
  have hround : server.busy.round { Locals.start fd with signedLen := signedLen } (.data c) =
      .error (serve server.busy fd c.1) := by
    have hlen : (Locals.start fd).len < maxSize := Nat.succ_pos 4095
    rw [round, if_pos hlen]
    refine congrArg Except.error (afterRead_holds _ ?_ c.2.1 c.2.2 rfl rfl rfl)
    refine ⟨?_, by simp [Locals.start]⟩
    simp [Locals.start, Locals.buff]
  have hbusy : ¬ server.isHandlingRequest = true := by simp [hready.idle]
  rw [handleClient, if_neg hready.address, if_neg hbusy, if_neg hready.maybeFD]
  change (match feed server.busy.round (.start fd) _ with | .error o => o | .ok _ => .waiting) = _
  rw [feed_append_ok hrun, feed_cons_error hround]

/-! ### The header loop -/

/-- The texts that the header loop gets through. -/
def HeadEnds (t : Bytes) : Prop := t = [] ∨ crlf <:+ t ∨ crlf ++ crlf <:+: t

instance (t : Bytes) : Decidable (HeadEnds t) := inferInstanceAs (Decidable (_ ∨ _))

/-- A CRLF is the first one or stands behind it. -/
private theorem crlf_position {b : Bytes} {i n : Nat} (hi : find crlf b = some i) (hn : crlf <+: b.drop n) :
    n = i ∨ i + 2 ≤ n := by
  obtain ⟨⟨t, ht⟩, hfirst⟩ := find_eq_some_iff.1 hi
  have hle : i ≤ n := Nat.le_of_not_lt fun hlt => hfirst n hlt hn
  by_contra hno
  have hn1 : n = i + 1 := by omega
  have hlf : b.drop n = LF :: t := by
    rw [hn1, ← List.drop_drop, ← ht]
    rfl
  rw [hlf] at hn
  exact absurd (List.cons_prefix_cons.1 hn).1 (by decide)

private theorem headEnds_drop {b : Bytes} (hb : b ≠ []) {i : Nat} (hi : find crlf b = some i)
    (hblank : some i ≠ find (crlf ++ crlf) b) : HeadEnds (b.drop (i + 2)) ↔ HeadEnds b := by
  have hpos := List.length_pos_iff.2 hb
  have hle := find_le hi
  simp only [List.length_cons, List.length_nil] at hle
  have hsuf : b.drop (i + 2) <:+ b := List.drop_suffix _ _
  have hsplit := find_split hi
  have hdrop : ∀ n, i + 2 ≤ n → b.drop n = (b.drop (i + 2)).drop (n - (i + 2)) := by
    intro n hn
    rw [List.drop_drop, Nat.add_sub_cancel' hn]
  constructor
  · rintro (h | h | h)
    · have hend : b = b.take i ++ crlf := by simpa [h] using hsplit
      exact Or.inr (Or.inl ⟨_, hend.symm⟩)
    · exact Or.inr (Or.inl (h.trans hsuf))
    · exact Or.inr (Or.inr (h.trans hsuf.isInfix))
  · rintro (h | h | h)
    · exact absurd h hb
    · have hend : crlf = b.drop (b.length - 2) := List.suffix_iff_eq_drop.1 h
      have hpre : crlf <+: b.drop (b.length - 2) := ⟨[], by rw [List.append_nil, ← hend]⟩
      rcases crlf_position hi hpre with hn | hn
      · exact Or.inl (List.drop_eq_nil_of_le (by omega))
      · rw [hdrop _ hn] at hend
        exact Or.inr (Or.inl (hend ▸ List.drop_suffix _ _))
    · obtain ⟨n, hn⟩ := infix_iff_exists_drop.1 h
      have hcrlf : crlf <+: b.drop n := (List.prefix_append _ _).trans hn
      rcases crlf_position hi hcrlf with rfl | hle
      · refine absurd ?_ hblank
        refine (find_eq_some_iff.2 ⟨hn, fun m hm h => ?_⟩).symm
        exact (find_eq_some_iff.1 hi).2 m hm ((List.prefix_append _ _).trans h)
      · rw [hdrop _ hle] at hn
        exact Or.inr (Or.inr (infix_iff_exists_drop.2 ⟨_, hn⟩))

theorem skipHead_isSome_iff (b : Bytes) : (skipHead b).isSome ↔ HeadEnds b := by
  induction hn : b.length using Nat.strong_induction_on generalizing b with
  | _ n ih =>
    subst hn
    rw [skipHead]
    by_cases hb : b = []
    · simp [hb, HeadEnds]
    · have hpos := List.length_pos_iff.2 hb
      rw [dif_neg hb]
      cases hi : find crlf b with
      | none =>
        have hno := find_eq_none_iff.1 hi
        refine iff_of_false (by simp) ?_
        rintro (h | h | h)
        · exact hb h
        · exact hno h.isInfix
        · exact hno ((List.prefix_append _ _).isInfix.trans h)
      | some i =>
        by_cases hblank : some i = find (crlf ++ crlf) b
        · have hinf : crlf ++ crlf <:+: b := find_isSome_iff.1 (by rw [← hblank]; rfl)
          simp only [if_pos hblank]
          exact iff_of_true rfl (Or.inr (Or.inr hinf))
        · simp only [if_neg hblank]
          rw [ih _ (by rw [List.length_drop]; omega) _ rfl]
          exact headEnds_drop hb hi hblank

/-- The payload is shorter than the text, unless there is no text. -/
theorem length_skipHead_lt {b payload : Bytes} (hb : b ≠ []) (h : skipHead b = some payload) :
    payload.length < b.length := by
  induction hn : b.length using Nat.strong_induction_on generalizing b with
  | _ n ih =>
    subst hn
    have hpos := List.length_pos_iff.2 hb
    rw [skipHead, dif_neg hb] at h
    cases hi : find crlf b with
    | none => simp [hi] at h
    | some i =>
      simp only [hi] at h
      split at h
      · obtain rfl := Option.some.inj h
        rw [List.length_drop]
        omega
      · by_cases hd : b.drop (i + 2) = []
        · have hnil : skipHead [] = some [] := by rw [skipHead]; simp
          rw [hd, hnil] at h
          obtain rfl := Option.some.inj h
          exact hpos
        · have hlt : (b.drop (i + 2)).length < b.length := by rw [List.length_drop]; omega
          have := ih _ hlt hd h rfl
          omega

theorem skipHead_nil : skipHead [] = some [] := by rw [skipHead]; simp

/-- Text without a line terminator is refused. -/
theorem skipHead_broken {p : Bytes} (hp : p ≠ []) (hlf : LF ∉ p) : skipHead p = none := by
  have hf : find crlf p = none := find_eq_none_iff.2 fun h => hlf (h.subset (by simp))
  rw [skipHead, dif_neg hp, hf]

theorem skipHead_line {l t : Bytes} (hcr : CR ∉ l) (ht : ¬ crlf <+: t) :
    skipHead (l ++ crlf ++ t) = skipHead t := by
  have hf : find crlf (l ++ crlf ++ t) = some l.length := find_append_here hcr [LF] t
  have hdrop : (l ++ crlf ++ t).drop (l.length + 2) = t := List.drop_left' (by simp)
  have hblank : ¬ some l.length = find (crlf ++ crlf) (l ++ crlf ++ t) := by
    intro h
    have hpre := (find_eq_some_iff.1 h.symm).1
    rw [List.append_assoc, List.drop_left' rfl] at hpre
    exact ht ((List.prefix_append_right_inj crlf).1 hpre)
  rw [skipHead, dif_neg (by simp)]
  simp only [hf, if_neg hblank, hdrop]

/-- The blank line behind a line ends the head. -/
theorem skipHead_blank {l : Bytes} (hcr : CR ∉ l) (body : Bytes) :
    skipHead (l ++ crlf ++ (crlf ++ body)) = some body := by
  have hf : find crlf (l ++ crlf ++ (crlf ++ body)) = some l.length := find_append_here hcr [LF] (crlf ++ body)
  have hblank : find (crlf ++ crlf) (l ++ crlf ++ (crlf ++ body)) = some l.length := by
    have := find_append_here hcr [LF, CR, LF] body
    simpa using this
  have hdrop : (l ++ crlf ++ (crlf ++ body)).drop (l.length + 4) = body := by
    rw [← List.append_assoc]
    exact List.drop_left' (by simp)
  rw [skipHead, dif_neg (by simp)]
  simp only [hf, hblank, if_true, hdrop]

private theorem not_crlf_prefix {l t : Bytes} (hl : l ≠ []) (hcr : CR ∉ l) : ¬ crlf <+: l ++ t := by
  cases l with
  | nil => exact absurd rfl hl
  | cons c l =>
    intro h
    exact hcr ((List.cons_prefix_cons.1 h).1 ▸ List.mem_cons_self ..)

/-- Header lines are passed. -/
theorem skipHead_lines {ls : List Bytes} (hls : ∀ l ∈ ls, l ≠ [] ∧ CR ∉ l) {t : Bytes} (ht : ¬ crlf <+: t) :
    skipHead (unlines crlf ls ++ t) = skipHead t := by
  induction ls with
  | nil => rfl
  | cons l ls ih =>
    have hls' : ∀ l' ∈ ls, l' ≠ [] ∧ CR ∉ l' := fun l' hl' => hls l' (List.mem_cons_of_mem _ hl')
    have hnext : ¬ crlf <+: unlines crlf ls ++ t := by
      cases ls with
      | nil => exact ht
      | cons l' ls =>
        obtain ⟨hl', hcr'⟩ := hls' l' (List.mem_cons_self ..)
        rw [unlines_cons, List.append_assoc, List.append_assoc]
        exact not_crlf_prefix hl' hcr'
    rw [unlines_cons, List.append_assoc, skipHead_line (hls l (List.mem_cons_self ..)).2 hnext, ih hls']

/-- A head with a header line ends with its blank line. -/
theorem skipHead_head {ls : List Bytes} (hne : ls ≠ []) (hls : ∀ l ∈ ls, l ≠ [] ∧ CR ∉ l) (body : Bytes) :
    skipHead (unlines crlf (ls ++ [[]]) ++ body) = some body := by
  obtain ⟨ls, l, rfl⟩ := (List.eq_nil_or_concat ls).resolve_left hne
  rw [List.concat_eq_append] at hls ⊢
  obtain ⟨hl, hcr⟩ := hls l (by simp)
  have htext : unlines crlf (ls ++ [l] ++ [[]]) ++ body = unlines crlf ls ++ (l ++ crlf ++ (crlf ++ body)) := by simp
  have hnext : ¬ crlf <+: l ++ crlf ++ (crlf ++ body) := by
    rw [List.append_assoc]
    exact not_crlf_prefix hl hcr
  rw [htext, skipHead_lines (fun l' hl' => hls l' (List.mem_append_left _ hl')) hnext, skipHead_blank hcr]

end HttpServer

end IopHal
