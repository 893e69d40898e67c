import IopHal.Client.Collect

/-!
# The arithmetic of the receive loop

The receive loop once more, with a guard at every place where it could go wrong: a round that does not read, a
subtraction from `size` that wraps, a shift that leaves the buffer, a view that is read at its end, a header loop that
does not come to an end.  `receive_guarded` says that no guard ever fails: the guarded loop is the loop of the source.

What reads the status code is the one search without a bound.  `statusReads_iff` says when it stays inside of what was
received.
-/

namespace IopHal

open Find Feed

/-- What the loop must not do. -/
inductive Fault
  /-- a round without `recv` -/
  | unread
  /-- `size -= n` below zero -/
  | wraps
  /-- `shiftChars` beyond the buffer -/
  | outside
  /-- `size` beyond `bufferSize` -/
  | overfull
  /-- `*view.begin()` of an empty view -/
  | pastEnd
  /-- more header lines than bytes -/
  | endless
  deriving DecidableEq

abbrev Guarded (α : Type) := Except (Fault ⊕ Outcome Response) α

namespace Guarded

def check (fault : Fault) (p : Prop) [Decidable p] : Guarded Unit := if p then .ok () else .error (.inl fault)

/-- What the loop of the source does. -/
def lift {α : Type} (x : Except (Outcome Response) α) : Guarded α := x.mapError .inr

/-- `size -= n`, and `shiftChars`, which moves the bytes from `n` to `n + size` and clears those from `size` on -/
def shift (s : Locals) (n : Nat) : Guarded Locals := do
  check .wraps (n ≤ s.size)
  check .outside (n + (s.size - n) ≤ bufferSize ∧ s.size - n ≤ bufferSize)
  return s.shift n

def findPayload (s : Locals) : Guarded Locals :=
  if !s.firstLine ∧ !s.isPayload ∧ find crlf s.buff = some 0 then do
    let s ← shift s 2
    return { s with isPayload := true }
  else return s

def readStatus (s : Locals) : Guarded Locals :=
  if s.firstLine ∧ s.size < 10 then .error (.inr ioError)
  else if s.firstLine ∧ s.size > 0 then
    match cstring (s.buffer.drop 9) with
    | none => .error (.inr .undefined)
    | some statusStr =>
      match find [SP] statusStr with
      | none => .error (.inr ioError)
      | some codeEnd => do
        let t ← shift s ((find [LF] s.buff).elim 0 (· + 1))
        return { t with status := some (atoi (statusStr.take codeEnd)), firstLine := false }
  else return s

def skipSpaces : Bytes → Guarded Bytes
  | [] => .error (.inl .pastEnd)
  | c :: v => if c = SP then skipSpaces v else .ok (c :: v)

def collectKey (buff : Bytes) (headers : Headers) (key : Bytes) : Guarded Headers :=
  if buff.length < key.length + 2 then return headers
  else if lower (buff.take key.length) ≠ cview key then return headers
  else do
    let valueView := buff.drop key.length
    check .pastEnd (valueView ≠ [])
    let valueView ← skipSpaces (if valueView.head? = some COLON then valueView.tail else valueView)
    return headers.emplace (cview key) (valueView.take ((find crlf valueView).getD valueView.length))

/-- The header loop, with the number of rounds that it is given. -/
def headerLoop (keys : List Bytes) : Nat → Locals → Guarded Locals
  | rounds, s =>
    if s.size > 0 ∧ !s.isPayload then
      match rounds with
      | 0 => .error (.inl .endless)
      | rounds + 1 =>
        match find crlf s.buff with
        | some 0 => do
          let t ← shift s 2
          headerLoop keys rounds { t with isPayload := true }
        | some i => do
          let headers ← keys.foldlM (collectKey s.buff) s.responseHeaders
          let t ← shift s (i + 2)
          headerLoop keys rounds { t with responseHeaders := headers }
        | none => .error (.inr ioError)
    else return s

def afterRecv (keys : List Bytes) (s : Locals) : Guarded Locals :=
  if s.firstLine ∧ s.size = 0 then .error (.inr (.returned (.ofCode (s.status.getD 500))))
  else if s.size = 0 then .error (.inr (finish s))
  else do
    check .overfull (s.size ≤ bufferSize)
    let s ← findPayload s
    lift (checkNewline s)
    let s ← readStatus s
    lift (checkStatus s)
    let s ← headerLoop keys s.size s
    return appendPayload s

def round (keys : List Bytes) (s : Locals) (r : Recv) : Guarded Locals := do
  check .unread (s.size < bufferSize)
  match r with
  | .failed _ => .error (.inr ioError)
  | .eof => afterRecv keys { s with signedSize := 0 }
  | .data c =>
    afterRecv keys
      { s with
        buffer := s.buffer.take s.size ++ c.1 ++ s.buffer.drop (s.size + c.1.length)
        signedSize := c.1.length
        size := s.size + c.1.length }

/-! ### The guards hold -/

theorem lift_bind {α β : Type} (x : Except (Outcome Response) α) (f : α → Except (Outcome Response) β) :
    lift (x.bind f) = (lift x).bind fun a => lift (f a) := by
  cases x <;> rfl

theorem lift_eq_ok_iff {α : Type} {x : Except (Outcome Response) α} {a : α} : lift x = .ok a ↔ x = .ok a := by
  cases x <;> simp [lift, Except.mapError]

theorem bind_congr_ok {α β : Type} {x : Guarded α} {f g : α → Guarded β} (h : ∀ a, x = .ok a → f a = g a) :
    x.bind f = x.bind g := by
  cases x with
  | error e => rfl
  | ok a => exact h a rfl

theorem check_pos {fault : Fault} {p : Prop} [Decidable p] (h : p) : check fault p = .ok () := if_pos h

/-- The buffer holds `size` bytes and is zero behind them. -/
def Clean (s : Locals) : Prop := ∃ b : Bytes, b.length ≤ bufferSize ∧ s.buffer = pad b ∧ s.size = b.length

theorem clean_holding (s : Locals) {b : Bytes} (hb : b.length ≤ bufferSize) : Clean (s.holding b) := ⟨b, hb, rfl, rfl⟩

section Clean

variable {s : Locals}

theorem Clean.holding (h : Clean s) : ∃ b : Bytes, b.length ≤ bufferSize ∧ s = s.holding b := by
  obtain ⟨b, hb, hbuffer, hsize⟩ := h
  refine ⟨b, hb, ?_⟩
  unfold Locals.holding
  rw [← hbuffer, ← hsize]

theorem Clean.size_eq (h : Clean s) : s.size = s.buff.length := by
  obtain ⟨b, -, hs⟩ := h.holding
  rw [hs, buff_holding, size_holding]

theorem shift_eq (h : Clean s) {n : Nat} (hn : n ≤ s.size) : shift s n = .ok (s.shift n) ∧ Clean (s.shift n) := by
  obtain ⟨b, hb, hs⟩ := h.holding
  have hsize : s.size = b.length := by
    rw [hs]
    rfl
  constructor
  · unfold shift
    rw [check_pos hn, check_pos ⟨by omega, by omega⟩]
    rfl
  · rw [hs, shift_holding s (by omega)]
    apply clean_holding
    rw [List.length_drop]
    omega

theorem findPayload_eq (h : Clean s) :
    findPayload s = .ok (IopHal.findPayload s) ∧ Clean (IopHal.findPayload s) := by
  unfold findPayload IopHal.findPayload
  split
  · rename_i hblank
    have htwo : 2 ≤ s.size := by
      rw [h.size_eq]
      exact (find_eq_zero_iff.1 hblank.2.2).length_le
    obtain ⟨hshift, hclean⟩ := shift_eq h htwo
    rw [hshift]
    exact ⟨rfl, hclean⟩
  · exact ⟨rfl, h⟩

theorem readStatus_eq (h : Clean s) :
    readStatus s = lift (IopHal.readStatus s) ∧ ∀ t, IopHal.readStatus s = .ok t → Clean t := by
  unfold readStatus IopHal.readStatus
  split
  · exact ⟨rfl, fun t ht => by contradiction⟩
  · split
    · cases cstring (s.buffer.drop 9) with
      | none => exact ⟨rfl, fun t ht => by contradiction⟩
      | some statusStr =>
        dsimp only
        cases find [SP] statusStr with
        | none => exact ⟨rfl, fun t ht => by contradiction⟩
        | some codeEnd =>
          dsimp only
          have hle : (find [LF] s.buff).elim 0 (· + 1) ≤ s.size := by
            rw [h.size_eq]
            cases hfind : find [LF] s.buff with
            | none => exact Nat.zero_le _
            | some n => exact find_le hfind
          obtain ⟨hshift, hclean⟩ := shift_eq h hle
          rw [hshift]
          refine ⟨rfl, fun t ht => ?_⟩
          rw [← Except.ok.inj ht]
          exact hclean
    · refine ⟨rfl, fun t ht => ?_⟩
      rwa [← Except.ok.inj ht]

end Clean

theorem skipSpaces_eq {v : Bytes} (h : ∃ c ∈ v, c ≠ SP) : skipSpaces v = .ok (v.dropWhile (· = SP)) := by
  induction v with
  | nil =>
    obtain ⟨c, hc, -⟩ := h
    contradiction
  | cons c v ih =>
    by_cases hc : c = SP
    · subst hc
      have h' : ∃ c ∈ v, c ≠ SP := by
        obtain ⟨d, hd, hne⟩ := h
        rcases List.mem_cons.1 hd with rfl | hd
        · exact absurd rfl hne
        · exact ⟨d, hd, hne⟩
      simp [skipSpaces, ih h']
    · simp [skipSpaces, hc]

/-- Behind a key that is free of line ends, the line end that was found is still to come. -/
theorem lf_mem_drop {buff key : Bytes} {i : Nat} (hfind : find crlf buff = some i) (hkey : ¬ crlf <:+: key)
    (hmatch : lower (buff.take key.length) = cview key) : LF ∈ buff.drop key.length := by
  have hle : i + 2 ≤ buff.length := find_le hfind
  have hhead : (buff.take i).length = i := by
    rw [List.length_take]
    omega
  have hsplit : buff = buff.take i ++ crlf ++ buff.drop (i + 2) := find_split hfind
  by_cases hlength : key.length ≤ i + 1
  · have hline : buff = (buff.take i ++ [CR]) ++ LF :: buff.drop (i + 2) := by
      rw [List.append_assoc]
      rwa [List.append_assoc] at hsplit
    rw [hline, List.drop_append_of_le_length (by rw [List.length_append, hhead]; exact hlength)]
    exact List.mem_append_right _ List.mem_cons_self
  · -- the key reaches over the line end
    exfalso
    apply hkey
    have htake : crlf <:+: lower (buff.take key.length) := by
      have hcrlf : lower crlf = crlf := by decide
      rw [hsplit, List.take_append, List.take_of_length_le (by rw [List.length_append, hhead]; simp; omega)]
      refine ⟨lower (buff.take i), lower ((buff.drop (i + 2)).take (key.length - (buff.take i ++ crlf).length)), ?_⟩
      unfold lower at hcrlf ⊢
      rw [List.map_append, List.map_append, hcrlf]
    rw [hmatch] at htake
    exact htake.trans (List.takeWhile_prefix _).isInfix

section Keys

variable {buff : Bytes} {i : Nat}

theorem collectKey_eq (hfind : find crlf buff = some i) {key : Bytes} (hkey : ¬ crlf <:+: key) (beyond : Bytes)
    (headers : Headers) : collectKey buff headers key = lift (IopHal.collectKey buff beyond headers key) := by
  unfold collectKey IopHal.collectKey
  split
  · rfl
  · split
    · rfl
    · rename_i hshort hmatch
      have hlf := lf_mem_drop hfind hkey (not_not.1 hmatch)
      have hspaces : ∃ c ∈ skipColon (buff.drop key.length), c ≠ SP := ⟨LF, mem_skipColon (by decide) hlf, by decide⟩
      have hguarded := skipSpaces_eq hspaces
      have hsource : IopHal.skipSpaces (skipColon (buff.drop key.length)) beyond = _ :=
        IopHal.skipSpaces_eq (Or.inl hspaces)
      unfold skipColon at hguarded hsource
      dsimp only
      rw [check_pos (List.ne_nil_of_mem hlf), hguarded, hsource]
      rfl

theorem foldlM_collectKey (hfind : find crlf buff = some i) {keys : List Bytes} (hkeys : ∀ key ∈ keys, ¬ crlf <:+: key)
    (beyond : Bytes) (headers : Headers) :
    keys.foldlM (collectKey buff) headers = lift (keys.foldlM (IopHal.collectKey buff beyond) headers) := by
  induction keys generalizing headers with
  | nil => rfl
  | cons key keys ih =>
    rw [List.forall_mem_cons] at hkeys
    rw [List.foldlM_cons, List.foldlM_cons, collectKey_eq hfind hkeys.1 beyond]
    cases IopHal.collectKey buff beyond headers key with
    | error o => rfl
    | ok headers => exact ih hkeys.2 headers

end Keys

section Loop

variable {keys : List Bytes} (hkeys : ∀ key ∈ keys, ¬ crlf <:+: key)

include hkeys

theorem headerLoop_eq {rounds : Nat} {s : Locals} (h : Clean s) (hrounds : s.size ≤ rounds) :
    headerLoop keys rounds s = lift (IopHal.headerLoop keys s) := by
  induction rounds generalizing s with
  | zero =>
    have hempty : ¬ (s.size > 0 ∧ (!s.isPayload) = true) := fun hpos => absurd hpos.1 (by omega)
    rw [headerLoop, IopHal.headerLoop, if_neg hempty, dif_neg hempty]
    rfl
  | succ rounds ih =>
    rw [headerLoop, IopHal.headerLoop]
    by_cases hgo : s.size > 0 ∧ (!s.isPayload) = true
    · rw [if_pos hgo, dif_pos hgo]
      dsimp only
      cases hfind : find crlf s.buff with
      | none => rfl
      | some i =>
        have hle : i + 2 ≤ s.size := by
          rw [h.size_eq]
          exact find_le hfind
        cases i with
        | zero =>
          obtain ⟨hshift, hclean⟩ := shift_eq h hle
          show (shift s 2).bind _ = _
          rw [hshift]
          refine ih (s := { s.shift 2 with isPayload := true }) hclean ?_
          show s.size - 2 ≤ rounds
          omega
        | succ i =>
          obtain ⟨hshift, hclean⟩ := shift_eq h hle
          show (keys.foldlM (collectKey s.buff) s.responseHeaders).bind _ = _
          rw [foldlM_collectKey hfind hkeys s.beyond]
          cases keys.foldlM (IopHal.collectKey s.buff s.beyond) s.responseHeaders with
          | error o => rfl
          | ok headers =>
            show (shift s (i + 1 + 2)).bind _ = _
            rw [hshift]
            refine ih (s := { s.shift (i + 1 + 2) with responseHeaders := headers }) hclean ?_
            show s.size - (i + 1 + 2) ≤ rounds
            omega
    · rw [if_neg hgo, dif_neg hgo]
      rfl

theorem afterRecv_eq {s : Locals} (h : Clean s) : afterRecv keys s = lift (IopHal.afterRecv keys s) := by
  have hsize : s.size ≤ bufferSize := by
    obtain ⟨b, hb, -, hs⟩ := h
    omega
  unfold afterRecv IopHal.afterRecv
  split
  · rfl
  · split
    · rfl
    · have hfull : ¬ s.size > bufferSize := by omega
      rw [if_neg hfull, check_pos hsize]
      obtain ⟨hpayload, hclean⟩ := findPayload_eq h
      generalize IopHal.findPayload s = t at hpayload hclean
      show (findPayload s).bind _ = _
      rw [hpayload]
      show (lift (checkNewline t)).bind _ = lift ((checkNewline t).bind _)
      rw [lift_bind]
      refine bind_congr_ok fun _ _ => ?_
      obtain ⟨hread, hcleanAfter⟩ := readStatus_eq hclean
      show (readStatus t).bind _ = lift ((IopHal.readStatus t).bind _)
      rw [hread, lift_bind]
      refine bind_congr_ok fun u hu => ?_
      show (lift (checkStatus u)).bind _ = lift ((checkStatus u).bind _)
      rw [lift_bind]
      refine bind_congr_ok fun _ _ => ?_
      show (headerLoop keys u.size u).bind _ = lift ((IopHal.headerLoop keys u).bind _)
      rw [headerLoop_eq hkeys (hcleanAfter u (lift_eq_ok_iff.1 hu)) (Nat.le_refl _), lift_bind]
      rfl

omit hkeys in
/-- The bytes of a read, as `recv` leaves them in the empty buffer. -/
theorem clean_received (p : Parser) (n : Nat) (c : Chunk bufferSize) :
    Clean { p.locals n with
      buffer := (p.locals n).buffer.take (p.locals n).size ++ c.1 ++ (p.locals n).buffer.drop ((p.locals n).size + c.1.length)
      signedSize := c.1.length
      size := (p.locals n).size + c.1.length } := by
  refine ⟨c.1, c.2.2, ?_, ?_⟩
  · cases p <;> simp [Parser.locals, Locals.start, pad]
  · cases p <;> simp [Parser.locals, Locals.start]

omit hkeys in
theorem size_locals (p : Parser) (n : Nat) : (p.locals n).size = 0 := by
  cases p <;> rfl

theorem round_eq {s : Locals} {p : Parser} (h : AtTop s p) (r : Recv) :
    round keys s r = lift (IopHal.round keys s r) := by
  obtain ⟨n, rfl⟩ := h
  have hread : (p.locals n).size < bufferSize := by
    rw [size_locals]
    decide
  unfold round IopHal.round
  rw [check_pos hread, if_pos hread]
  cases r with
  | failed errno => rfl
  | eof =>
    refine afterRecv_eq hkeys ?_
    exact ⟨[], by simp, by cases p <;> simp [Parser.locals], size_locals p n⟩
  | data c => exact afterRecv_eq hkeys (clean_received p n c)

/-- A round of the guarded loop is one of the loop of the source, and comes back to the top. -/
theorem match_round (s t : Locals) (r : Recv) (h : s = t ∧ ∃ p, AtTop t p) :
    Match (fun s t => s = t ∧ ∃ p, AtTop t p) (round keys s r) ((IopHal.round keys t r).mapError .inr) := by
  obtain ⟨rfl, p, hp⟩ := h
  rw [round_eq hkeys hp]
  have hmatch := round_simulates keys hp r
  cases hs : IopHal.round keys s r with
  | error o => rfl
  | ok u =>
    cases hq : p.step keys r with
    | error o =>
      rw [hs, hq] at hmatch
      exact hmatch.elim
    | ok q =>
      rw [hs, hq] at hmatch
      exact ⟨rfl, q, hmatch⟩

/-- No guard fails, whatever the reads: the guarded loop is the loop of the source, its buffer is empty whenever it comes
to its top, and there the next read is made and ends the loop if it brings nothing. -/
theorem receive_guarded (recvs : List Recv) :
    feed (round keys) .start recvs = lift (feed (IopHal.round keys) .start recvs) ∧
      ∀ s, feed (IopHal.round keys) .start recvs = .ok s → s.size = 0 ∧
        (∃ o, IopHal.round keys s .eof = .error o) ∧ ∀ errno, IopHal.round keys s (.failed errno) = .error ioError := by
  have hstart : AtTop .start .statusLine := ⟨0, by simp [Locals.start, Parser.locals, pad]⟩
  constructor
  · have hfeed := feed_simulates (match_round hkeys) ⟨rfl, _, hstart⟩ recvs
    rw [feed_mapError] at hfeed
    exact eq_of_match (fun s t hst => hst.1) hfeed
  · intro s hs
    have hmatch := feed_matches keys recvs
    rw [hs] at hmatch
    cases hp : feed (Parser.step keys) .statusLine recvs with
    | error o =>
      rw [hp] at hmatch
      exact hmatch.elim
    | ok p =>
      rw [hp] at hmatch
      obtain ⟨n, rfl⟩ := hmatch
      refine ⟨size_locals p n, ?_, fun errno => ?_⟩
      · exact ⟨_, error_of_match (round_simulates keys ⟨n, rfl⟩ .eof)⟩
      · exact error_of_match (round_simulates keys ⟨n, rfl⟩ (.failed errno))

end Loop

theorem latest_version_key : ∀ key ∈ headersToCollect [ascii "LATEST_VERSION"], ¬ crlf <:+: key := by
  decide

/-- A header line of the updater whose value is spaces. -/
theorem receive_guarded_update :
    feed (round (headersToCollect [ascii "LATEST_VERSION"])) .start
        [.data ⟨ascii "HTTP/1.1 200 OK\r\nLATEST_VERSION:   \r\n", by decide⟩, .eof] =
      lift (feed (IopHal.round (headersToCollect [ascii "LATEST_VERSION"])) .start
        [.data ⟨ascii "HTTP/1.1 200 OK\r\nLATEST_VERSION:   \r\n", by decide⟩, .eof]) :=
  (receive_guarded latest_version_key _).1

end Guarded

/-! ### The status code -/

/-- The positions that `strlen` reads, from the memory behind the first of them. -/
def strlenReads : Bytes → Nat → List Nat
  | [], pos => [pos]
  | b :: mem, pos => if b = NUL then [pos] else pos :: strlenReads mem (pos + 1)

/-- The loop behind its first `recv` -/
def firstRead (b : Bytes) : Locals :=
  { Locals.start with
    buffer := b ++ Locals.start.buffer.drop b.length
    signedSize := b.length
    size := b.length }

/-- The positions of the buffer that are read for the status code: `statusStr` ends at the first terminator. -/
def statusReads (s : Locals) : List Nat := strlenReads (s.buffer.drop 9) 9

/-- The first round goes on from what its `recv` leaves. -/
theorem round_start (keys : List Bytes) (c : Chunk bufferSize) :
    round keys .start (.data c) = afterRecv keys (firstRead c.1) := by
  have hsize : Locals.start.size < bufferSize := by decide
  rw [round, if_pos hsize]
  simp [firstRead, Locals.start]

/-- `strlen` reads the string and its terminator, or all of the memory and on behind it. -/
theorem strlenReads_eq (mem : Bytes) (pos : Nat) :
    strlenReads mem pos = List.range' pos (((cstring mem).getD mem).length + 1) := by
  induction mem generalizing pos with
  | nil => rfl
  | cons b mem ih =>
    by_cases hb : b = NUL
    · rw [strlenReads, if_pos hb, cstring, if_pos hb]
      rfl
    · have hlength : ((cstring (b :: mem)).getD (b :: mem)).length = ((cstring mem).getD mem).length + 1 := by
        rw [cstring, if_neg hb]
        cases cstring mem <;> rfl
      rw [strlenReads, if_neg hb, ih, hlength, List.range'_succ (s := pos)]

/-- The status is undefined exactly where no terminator ends the search. -/
theorem readStatus_firstRead {b : Bytes} (h10 : 10 ≤ b.length) :
    readStatus (firstRead b) = .error .undefined ↔ cstring ((firstRead b).buffer.drop 9) = none := by
  have hshort : ¬ ((firstRead b).firstLine = true ∧ (firstRead b).size < 10) := fun h => Nat.not_lt.2 h10 h.2
  have hlong : (firstRead b).firstLine = true ∧ (firstRead b).size > 0 := ⟨rfl, Nat.lt_of_lt_of_le (by decide) h10⟩
  rw [readStatus, if_neg hshort, if_pos hlong]
  cases hstatus : cstring ((firstRead b).buffer.drop 9) with
  | none => exact iff_of_true rfl rfl
  | some statusStr =>
    dsimp only
    cases find [SP] statusStr <;> simp [ioError]

/-- Where a first read leaves no terminator behind the version, the round is undefined, as soon as it has a line. -/
theorem round_unterminated (keys : List Bytes) (c : Chunk bufferSize) (h10 : 10 ≤ c.1.length) (hline : LF ∈ c.1)
    (hnone : cstring ((firstRead c.1).buffer.drop 9) = none) : round keys .start (.data c) = .error .undefined := by
  have hsize : (firstRead c.1).size ≠ 0 := Nat.ne_of_gt (Nat.lt_of_lt_of_le (by decide) h10)
  have hempty : ¬ ((firstRead c.1).firstLine = true ∧ (firstRead c.1).size = 0) := fun h => hsize h.2
  have hroom : ¬ (firstRead c.1).size > bufferSize := Nat.not_lt.2 c.2.2
  have hpayload : findPayload (firstRead c.1) = firstRead c.1 := rfl
  have hbuff : (firstRead c.1).buff = c.1 := by simp [Locals.buff, firstRead]
  have hnewline : checkNewline (firstRead c.1) = .ok () := by
    have hfound : find [LF] c.1 ≠ none := fun hnot => find_singleton_eq_none_iff.1 hnot hline
    rw [checkNewline, hbuff, if_neg fun h => hfound h.2]
  rw [round_start, afterRecv, if_neg hempty, if_neg hsize, if_neg hroom]
  dsimp only
  rw [hpayload, hnewline, (readStatus_firstRead h10).2 hnone]
  rfl

theorem cstring_append_nul {u : Bytes} (h : NUL ∉ u) (rest : Bytes) : cstring (u ++ NUL :: rest) = some u := by
  induction u with
  | nil => rfl
  | cons c u ih =>
    rw [List.mem_cons, not_or] at h
    rw [List.cons_append, cstring, if_neg (Ne.symm h.1), ih h.2]
    rfl

/-- Behind the bytes received, the buffer is as it was cleared before the loop. -/
theorem buffer_firstRead {b : Bytes} (h : 9 ≤ b.length) :
    (firstRead b).buffer.drop 9 = b.drop 9 ++ List.replicate (bufferSize - b.length) NUL := by
  have hrest : Locals.start.buffer.drop b.length = List.replicate (bufferSize - b.length) NUL := by
    simp [Locals.start]
  show (b ++ Locals.start.buffer.drop b.length).drop 9 = _
  rw [hrest, List.drop_append_of_le_length h]

/-- The search for the status code keeps to the bytes received, and to the zero behind them, exactly if they do not fill
the buffer or hold a zero themselves. -/
theorem statusReads_iff (b : Bytes) (h10 : 10 ≤ b.length) (hmax : b.length ≤ bufferSize) :
    ((∀ pos ∈ statusReads (firstRead b), pos < b.length ∨ b.length < bufferSize ∧ pos = b.length) ∧
        ∃ statusStr, cstring ((firstRead b).buffer.drop 9) = some statusStr) ↔
      b.length < bufferSize ∨ NUL ∈ b.drop 9 := by
  have hlength : (b.drop 9).length = b.length - 9 := List.length_drop
  have hterminated : (∃ statusStr, cstring ((firstRead b).buffer.drop 9) = some statusStr) ↔
      NUL ∈ (firstRead b).buffer.drop 9 := by
    rw [← Option.ne_none_iff_exists', Ne, cstring_eq_none_iff, not_not]
  unfold statusReads
  rw [hterminated, buffer_firstRead (by omega), List.mem_append, strlenReads_eq]
  by_cases hnul : NUL ∈ b.drop 9
  · refine iff_of_true ⟨?_, .inl hnul⟩ (.inr hnul)
    obtain ⟨u, t, hdrop, hu⟩ := List.eq_append_cons_of_mem hnul
    intro pos hpos
    have hsplit : b.drop 9 ++ List.replicate (bufferSize - b.length) NUL =
        u ++ NUL :: (t ++ List.replicate (bufferSize - b.length) NUL) := by
      rw [hdrop, List.append_assoc, List.cons_append]
    rw [hsplit, cstring_append_nul hu, Option.getD_some, List.mem_range'_1] at hpos
    rw [hdrop, List.length_append, List.length_cons] at hlength
    left
    omega
  · by_cases hfull : b.length < bufferSize
    · obtain ⟨n, hn⟩ : ∃ n, bufferSize - b.length = n + 1 := ⟨bufferSize - b.length - 1, by omega⟩
      rw [hn, List.replicate_succ]
      refine iff_of_true ⟨?_, .inr List.mem_cons_self⟩ (.inl hfull)
      intro pos hpos
      rw [cstring_append_nul hnul, Option.getD_some, List.mem_range'_1, hlength] at hpos
      omega
    · apply iff_of_false
      · rintro ⟨-, hmem | hmem⟩
        · exact hnul hmem
        · have hzero : bufferSize - b.length = 0 := by omega
          rw [hzero, List.replicate_zero] at hmem
          contradiction
      · rw [not_or]
        exact ⟨hfull, hnul⟩

/-- A status line that came with a read of ordinary size. -/
theorem statusReads_short :
    (∀ pos ∈ statusReads (firstRead (ascii "HTTP/1.1 200 OK\r\n")), pos < (ascii "HTTP/1.1 200 OK\r\n").length ∨
        (ascii "HTTP/1.1 200 OK\r\n").length < bufferSize ∧ pos = (ascii "HTTP/1.1 200 OK\r\n").length) ∧
      ∃ statusStr, cstring ((firstRead (ascii "HTTP/1.1 200 OK\r\n")).buffer.drop 9) = some statusStr :=
  (statusReads_iff (ascii "HTTP/1.1 200 OK\r\n") (by decide) (by decide)).2 (.inl (by decide))

/-- The first read of a long page: a status line and text up to the end of the buffer. -/
def fullRead : Bytes := ascii "HTTP/1.1 200 OK\r\n" ++ List.replicate 8175 97

theorem statusReads_full :
    fullRead.length = bufferSize ∧ LF ∈ fullRead ∧ cstring ((firstRead fullRead).buffer.drop 9) = none ∧
      bufferSize ∈ statusReads (firstRead fullRead) := by
  have hlength : fullRead.length = bufferSize := by
    rw [fullRead, List.length_append, List.length_replicate]
    rfl
  have hnul : NUL ∉ fullRead.drop 9 := by
    rw [fullRead, List.drop_append_of_le_length (by decide), List.mem_append, List.mem_replicate, not_or]
    exact ⟨by decide, fun h => absurd h.2 (by decide)⟩
  have hbuffer : (firstRead fullRead).buffer.drop 9 = fullRead.drop 9 := by
    rw [buffer_firstRead (by rw [hlength]; decide), hlength, Nat.sub_self, List.replicate_zero, List.append_nil]
  refine ⟨hlength, List.mem_append_left _ (by decide), ?_, ?_⟩
  · rw [hbuffer, cstring_eq_none_iff]
    exact hnul
  · unfold statusReads
    rw [hbuffer, strlenReads_eq, cstring_eq_none_iff.2 hnul, Option.getD_none, List.length_drop, hlength, List.mem_range'_1]
    decide

end IopHal
