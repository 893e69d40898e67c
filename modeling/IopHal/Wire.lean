import IopHal.Client.Request
import IopHal.Server.Respond

/-!
# Short writes

Both ends hand their messages to a `send` of their own, piece by piece.  The client's is a single write, and the
server's waits for one that takes something; what a write takes of its piece is not looked at by any caller.

`delivered_iff` says what that amounts to over all answers of the socket: the peer gets the pieces as they were passed
exactly if each write takes the whole of its piece.
-/

namespace IopHal

/-! ### The client -/

/-- `send` of the client -/
def Session.send (received msg : Bytes) : WriteResult → Bytes
  | .failed _ => received
  | .accepted n => received ++ msg.take n

/-- What the peer has received behind one `send` after the other. -/
def Session.sendAll (received : Bytes) : List Bytes → List WriteResult → Bytes
  | msg :: msgs, result :: results => sendAll (send received msg result) msgs results
  | _, _ => received

/-- A write takes at least one byte and at most the whole piece, which may be empty. -/
def Accepts (msg : Bytes) (n : Nat) : Prop := n ≤ msg.length ∧ (msg ≠ [] → 1 ≤ n)

instance (msg : Bytes) (n : Nat) : Decidable (Accepts msg n) := inferInstanceAs (Decidable (_ ∧ _))

/-- What is missing from a piece is not made up for by those behind it. -/
theorem take_append_eq_iff {msg got rest : Bytes} {n : Nat} (hn : n ≤ msg.length) (hgot : got.length ≤ rest.length) :
    msg.take n ++ got = msg ++ rest ↔ n = msg.length ∧ got = rest := by
  constructor
  · intro h
    have hlength := congrArg List.length h
    rw [List.length_append, List.length_append, List.length_take] at hlength
    have hwhole : n = msg.length := by omega
    rw [hwhole, List.take_length, List.append_cancel_left_eq] at h
    exact ⟨hwhole, h⟩
  · rintro ⟨rfl, rfl⟩
    rw [List.take_length]

theorem Session.sendAll_accepted {msgs : List Bytes} {amounts : List Nat} (h : List.Forall₂ Accepts msgs amounts)
    (received : Bytes) :
    ∃ got, sendAll received msgs (amounts.map .accepted) = received ++ got ∧ got.length ≤ msgs.flatten.length ∧
      (got = msgs.flatten ↔ amounts = msgs.map List.length) := by
  induction h generalizing received with
  | nil => exact ⟨[], (List.append_nil _).symm, Nat.le_refl _, iff_of_true rfl rfl⟩
  | @cons msg n msgs amounts hn _ ih =>
    obtain ⟨got, hsend, hlength, hwhole⟩ := ih (received ++ msg.take n)
    refine ⟨msg.take n ++ got, ?_, ?_, ?_⟩
    · rw [← List.append_assoc]
      exact hsend
    · rw [List.flatten_cons, List.length_append, List.length_append, List.length_take]
      omega
    · rw [List.flatten_cons, take_append_eq_iff hn.1 hlength, hwhole, List.map_cons, List.cons.injEq]

/-! ### The server -/

/-- What the socket answers to one `send`: `EAGAIN` some times, then a write that takes some bytes. -/
structure Taking where
  waits : Nat
  taken : Nat

def Taking.results (t : Taking) : List WriteResult := List.replicate t.waits (.failed EAGAIN) ++ [.accepted t.taken]

/-- In front of the first empty piece, which is not allowed, each write takes its whole piece and is not waited for too
long. -/
def Whole (msgs : List Bytes) (takings : List Taking) : Prop :=
  ∀ x ∈ (msgs.zip takings).takeWhile (·.1 ≠ []), x.2.taken = x.1.length ∧ x.2.waits ≤ 1000000

instance (msgs : List Bytes) (takings : List Taking) : Decidable (Whole msgs takings) :=
  inferInstanceAs (Decidable (∀ x ∈ (msgs.zip takings).takeWhile (·.1 ≠ []),
    x.2.taken = x.1.length ∧ x.2.waits ≤ 1000000))

theorem whole_cons_empty (msgs : List Bytes) (t : Taking) (takings : List Taking) :
    Whole ([] :: msgs) (t :: takings) := by
  intro x hx
  rw [List.zip_cons_cons, List.takeWhile_cons_of_neg (by simp)] at hx
  cases hx

theorem whole_cons_iff {msg : Bytes} (hmsg : msg ≠ []) (msgs : List Bytes) (t : Taking) (takings : List Taking) :
    Whole (msg :: msgs) (t :: takings) ↔ (t.taken = msg.length ∧ t.waits ≤ 1000000) ∧ Whole msgs takings := by
  rw [Whole, List.zip_cons_cons, List.takeWhile_cons_of_pos (by simpa using hmsg), List.forall_mem_cons]
  rfl

section Server

variable (strerror : Nat → Bytes)

/-- While it has not waited too long, the loop of `send` goes on to the write behind. -/
theorem Socket.sendLoop_waits (msg : Bytes) (s : Socket) (results : List WriteResult) {k count : Nat} (errno : Nat)
    (h : count + k ≤ 1000000) :
    ∃ errno', sendLoop strerror msg s count errno (List.replicate k (.failed EAGAIN) ++ results) =
      sendLoop strerror msg s (count + k) errno' results := by
  induction k generalizing count errno with
  | zero => exact ⟨errno, rfl⟩
  | succ k ih =>
    have hnext : count + 1 + k ≤ 1000000 := by omega
    obtain ⟨errno', hloop⟩ := ih EAGAIN hnext
    refine ⟨errno', ?_⟩
    rw [List.replicate_succ, List.cons_append, sendLoop, if_pos rfl, if_pos (by omega), hloop]
    congr 1
    omega

theorem Socket.sendLoop_waits_too_long (msg : Bytes) (s : Socket) (results : List WriteResult) {k count : Nat}
    (errno : Nat) (hcount : count ≤ 1000000) (h : 1000000 < count + k) :
    ∃ s', sendLoop strerror msg s count errno (List.replicate k (.failed EAGAIN) ++ results) =
      (s', .panicked (ascii "Waited too long")) ∧ s'.passed = s.passed ∧ s'.received = s.received := by
  induction k generalizing count errno with
  | zero => omega
  | succ k ih =>
    rw [List.replicate_succ, List.cons_append, sendLoop, if_pos rfl]
    by_cases hlast : count < 1000000
    · rw [if_pos hlast]
      exact ih EAGAIN hlast (by omega)
    · rw [if_neg hlast]
      exact ⟨_, rfl, rfl, rfl⟩

theorem Socket.send_eq {s : Socket} {t : Taking} {results : List WriteResult} (hs : s.results = t.results ++ results)
    (msg : Bytes) :
    s.send strerror msg = sendLoop strerror msg { s with passed := s.passed ++ [msg] } 0 s.errno
      (List.replicate t.waits (.failed EAGAIN) ++ .accepted t.taken :: results) := by
  unfold send
  congr 1
  rw [hs, Taking.results, List.append_assoc]
  rfl

/-- A `send` that comes back has written what was taken. -/
theorem Socket.send_taking {s : Socket} {t : Taking} {results : List WriteResult} (hs : s.results = t.results ++ results)
    (htaken : 1 ≤ t.taken) (hwaits : t.waits ≤ 1000000) (msg : Bytes) :
    ∃ errno, s.send strerror msg = (⟨results, errno, s.passed ++ [msg], s.received ++ msg.take t.taken⟩,
      .returned ()) := by
  have h : 0 + t.waits ≤ 1000000 := by omega
  obtain ⟨errno, hloop⟩ := sendLoop_waits strerror msg { s with passed := s.passed ++ [msg] }
    (.accepted t.taken :: results) s.errno h
  have hpos : t.taken > 0 := htaken
  exact ⟨errno, by rw [send_eq strerror hs, hloop, sendLoop, if_pos hpos]⟩

/-- Otherwise it panics and has written nothing. -/
theorem Socket.send_panicked {s : Socket} {t : Taking} {results : List WriteResult}
    (hs : s.results = t.results ++ results) (h : t.taken = 0 ∨ 1000000 < t.waits) (msg : Bytes) :
    ∃ s' text, s.send strerror msg = (s', .panicked text) ∧ s'.passed = s.passed ++ [msg] ∧
      s'.received = s.received := by
  rw [send_eq strerror hs]
  by_cases hwaits : 1000000 < t.waits
  · have hlong : 1000000 < 0 + t.waits := by omega
    obtain ⟨s', hloop, hpassed, hreceived⟩ := sendLoop_waits_too_long strerror msg { s with passed := s.passed ++ [msg] }
      (.accepted t.taken :: results) s.errno (Nat.zero_le _) hlong
    exact ⟨s', _, hloop, hpassed, hreceived⟩
  · have htaken : t.taken = 0 := h.resolve_right hwaits
    have hshort : 0 + t.waits ≤ 1000000 := by omega
    obtain ⟨errno, hloop⟩ := sendLoop_waits strerror msg { s with passed := s.passed ++ [msg] }
      (.accepted t.taken :: results) s.errno hshort
    rw [hloop, htaken, sendLoop, if_neg (Nat.lt_irrefl 0)]
    exact ⟨_, _, rfl, rfl, rfl⟩

theorem Socket.sendAll_taking {msgs : List Bytes} {takings : List Taking} {s : Socket}
    (h : List.Forall₂ (fun msg (t : Taking) => Accepts msg t.taken) msgs takings)
    (hs : s.results = takings.flatMap Taking.results) :
    ∃ passed got, (s.sendAll strerror msgs).1.passed = s.passed ++ passed ∧
      (s.sendAll strerror msgs).1.received = s.received ++ got ∧ got.length ≤ passed.flatten.length ∧
      (got = passed.flatten ↔ Whole msgs takings) := by
  induction h generalizing s with
  | nil =>
    refine ⟨[], [], (List.append_nil _).symm, (List.append_nil _).symm, Nat.le_refl _, iff_of_true rfl ?_⟩
    intro x hx
    cases hx
  | @cons msg t msgs takings ht _ ih =>
    rw [List.flatMap_cons] at hs
    by_cases hmsg : msg = []
    · -- the run ends with the empty piece
      subst hmsg
      have htaken : t.taken = 0 := Nat.le_zero.1 ht.1
      obtain ⟨s', text, hsend, hpassed, hreceived⟩ := send_panicked strerror hs (Or.inl htaken) []
      refine ⟨[[]], [], ?_, ?_, Nat.le_refl _, iff_of_true rfl (whole_cons_empty msgs t takings)⟩
      · rw [sendAll, hsend]
        exact hpassed
      · rw [sendAll, hsend, List.append_nil]
        exact hreceived
    · have hwhole := whole_cons_iff hmsg msgs t takings
      by_cases hwaits : 1000000 < t.waits
      · obtain ⟨s', text, hsend, hpassed, hreceived⟩ := send_panicked strerror hs (Or.inr hwaits) msg
        refine ⟨[msg], [], ?_, ?_, Nat.zero_le _, iff_of_false ?_ ?_⟩
        · rw [sendAll, hsend]
          exact hpassed
        · rw [sendAll, hsend, List.append_nil]
          exact hreceived
        · intro hnil
          rw [List.flatten_singleton] at hnil
          exact hmsg hnil.symm
        · rw [hwhole]
          intro hall
          omega
      · obtain ⟨errno, hsend⟩ := send_taking strerror hs (ht.2 hmsg) (Nat.le_of_not_lt hwaits) msg
        obtain ⟨passed, got, hpassed, hreceived, hlength, hgot⟩ :=
          ih (s := ⟨takings.flatMap Taking.results, errno, s.passed ++ [msg], s.received ++ msg.take t.taken⟩) rfl
        refine ⟨msg :: passed, msg.take t.taken ++ got, ?_, ?_, ?_, ?_⟩
        · rw [sendAll, hsend, Writing.bind_returned, hpassed, List.append_assoc]
          rfl
        · rw [sendAll, hsend, Writing.bind_returned, hreceived, List.append_assoc]
        · rw [List.flatten_cons, List.length_append, List.length_append, List.length_take]
          omega
        · rw [List.flatten_cons, take_append_eq_iff ht.1 hlength, hgot, hwhole]
          constructor
          · rintro ⟨hall, hrest⟩
            exact ⟨⟨hall, Nat.le_of_not_lt hwaits⟩, hrest⟩
          · rintro ⟨⟨hall, -⟩, hrest⟩
            exact ⟨hall, hrest⟩

end Server

/-- At both ends the peer receives the pieces that `send` is called with exactly if each write takes its whole piece. -/
theorem delivered_iff (ctx : SessionContext) (wifi : StationStatus) (method data : Bytes) (recvs : List Recv)
    {amounts : List Nat} (hclient : List.Forall₂ Accepts (sendRequest ctx wifi method data recvs).sent amounts)
    (strerror : Nat → Bytes) (conn : HttpConnection) (calls : List HandlerCall) (errno : Nat) {takings : List Taking}
    (hserver : List.Forall₂ (fun msg (t : Taking) => Accepts msg t.taken) (handlerPieces conn calls) takings) :
    (Session.sendAll [] (sendRequest ctx wifi method data recvs).sent (amounts.map .accepted) =
        (sendRequest ctx wifi method data recvs).sent.flatten ↔
      amounts = (sendRequest ctx wifi method data recvs).sent.map List.length) ∧
    ((runHandler strerror conn ⟨takings.flatMap Taking.results, errno, [], []⟩ calls).1.received =
        (runHandler strerror conn ⟨takings.flatMap Taking.results, errno, [], []⟩ calls).1.passed.flatten ↔
      Whole (handlerPieces conn calls) takings) := by
  constructor
  · obtain ⟨got, hsend, -, hwhole⟩ := Session.sendAll_accepted hclient []
    rw [hsend, List.nil_append, hwhole]
  · obtain ⟨passed, got, hpassed, hreceived, -, hwhole⟩ :=
      Socket.sendAll_taking strerror (s := ⟨takings.flatMap Taking.results, errno, [], []⟩) hserver rfl
    rw [runHandler_fst, hpassed, hreceived, List.nil_append, List.nil_append, hwhole]

/-- The two chunks of a page -/
def pageCalls : List HandlerCall := portalPage.chunks.map .sendData

/-- The answers of a socket that takes all of a report and, once it is ready, of what a handler sends. -/
theorem delivered_report :
    Session.sendAll [] (sendRequest reportSession .gotIp (ascii "POST") (ascii "{}") []).sent
        ([4, 1, 7, 11, 16, 1, 2, 13, 2, 11, 2, 3, 2, 1, 2, 2, 2].map .accepted) =
          (sendRequest reportSession .gotIp (ascii "POST") (ascii "{}") []).sent.flatten ∧
      (runHandler (fun _ => []) (.accepted 4) ⟨[⟨1, 3⟩, ⟨0, 4⟩].flatMap Taking.results, 0, [], []⟩
        pageCalls).1.received = ascii "<p></p>" := by
  have hclient : List.Forall₂ Accepts (sendRequest reportSession .gotIp (ascii "POST") (ascii "{}") []).sent
      [4, 1, 7, 11, 16, 1, 2, 13, 2, 11, 2, 3, 2, 1, 2, 2, 2] := by decide
  have hserver : List.Forall₂ (fun msg (t : Taking) => Accepts msg t.taken) (handlerPieces (.accepted 4) pageCalls)
      [⟨1, 3⟩, ⟨0, 4⟩] := by decide
  have h := delivered_iff reportSession .gotIp (ascii "POST") (ascii "{}") [] hclient (fun _ => []) (.accepted 4)
    pageCalls 0 hserver
  refine ⟨h.1.2 rfl, (h.2.2 (by decide)).trans ?_⟩
  decide

/-- The last write of a report takes one byte of two, and that of a page three bytes of four. -/
theorem delivered_short :
    (List.Forall₂ Accepts (sendRequest reportSession .gotIp (ascii "POST") (ascii "{}") []).sent
        [4, 1, 7, 11, 16, 1, 2, 13, 2, 11, 2, 3, 2, 1, 2, 2, 1] ∧
      Session.sendAll [] (sendRequest reportSession .gotIp (ascii "POST") (ascii "{}") []).sent
        ([4, 1, 7, 11, 16, 1, 2, 13, 2, 11, 2, 3, 2, 1, 2, 2, 1].map .accepted) ≠
          (sendRequest reportSession .gotIp (ascii "POST") (ascii "{}") []).sent.flatten) ∧
      runHandler (fun _ => []) (.accepted 4) ⟨[.accepted 3, .accepted 3], 0, [], []⟩ pageCalls =
        (⟨[], 0, [ascii "<p>", ascii "</p>"], ascii "<p></p"⟩, .returned (.accepted 4)) := by
  refine ⟨⟨by decide, by decide⟩, by decide⟩

end IopHal
