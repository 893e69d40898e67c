import IopHal.Exchange
import IopHal.Server.Cuts

/-!
# What an exchange can come to

`Kept` is the invariant of an exchange: the bytes of the request are on their way or in the one read that the server handles,
the bytes of the answer are on their way or in the reads of the client, and the client is where these reads have brought its
loop.  Every step keeps it (`kept_step`), whoever makes it, so it holds behind every run (`kept_of_run`).  From it follows
what the call of the client can come to (`Kept.ended`): the handler that is called is that of the path and sees the beginning
of the data, and the client returns the answer of that call or no answer at all.
-/

namespace IopHal

open Find Feed Framing Transitions HttpServer

namespace Setting

variable (x : Setting)

/-! ### The server -/

/-- A read that delivers bytes calls a handler exactly if they are scanned as a request. -/
theorem serve_eq (again : Nat) (c : Chunk maxSize) :
    x.serve again c = match scan c.1 with
      | .request route payload => .called (connection x.fd route payload)
      | _ => .gone := by
  unfold Setting.serve
  rw [handleClient_data x.ready x.fd again c [], HttpServer.serve]
  cases scan c.1 with
  | noMethod =>
    obtain ⟨served, hleave, hnone, -⟩ := leave_returned x.server.busy (.accepted x.fd)
    simp only [hleave, hnone]
    rfl
  | noRoute => rfl
  | noNewline => rfl
  | badCode => rfl
  | request route payload =>
    obtain ⟨served, hdispatch, hhandled, -⟩ := dispatch_returned x.server.busy (connection x.fd route payload)
    simp only [hdispatch, hhandled]
    rfl

theorem serve_called {again : Nat} {c : Chunk maxSize} {conn : HttpConnection} (h : x.serve again c = .called conn) :
    ∃ route payload, scan c.1 = .request route payload ∧ conn = connection x.fd route payload := by
  rw [serve_eq] at h
  cases hscan : scan c.1 with
  | request route payload =>
    rw [hscan] at h
    exact ⟨route, payload, rfl, (ServerSide.called.inj h).symm⟩
  | noMethod => rw [hscan] at h; cases h
  | noRoute => rw [hscan] at h; cases h
  | noNewline => rw [hscan] at h; cases h
  | badCode => rw [hscan] at h; cases h

/-- The handler is called because of a read that has delivered the beginning of the request. -/
def Calls (conn : HttpConnection) : Prop :=
  ∃ again c rest, x.serve again c = .called conn ∧ c.1 ++ rest = x.request.message.render

variable {x} {conn : HttpConnection}

theorem Calls.fresh (h : x.Calls conn) : conn.Fresh := by
  obtain ⟨again, c, rest, hserve, -⟩ := h
  obtain ⟨route, payload, -, rfl⟩ := x.serve_called hserve
  exact ⟨rfl, rfl, rfl⟩

/-- The route is the path and the payload the beginning of the data, if the method of the request is read as its own. -/
theorem Calls.request (h : x.Calls conn)
    (hmethod : methodWord x.request.message.render = some x.request.method.word) :
    conn.currentRoute = x.request.path ∧ conn.currentPayload <+: x.request.data := by
  obtain ⟨again, c, rest, hserve, hcut⟩ := h
  obtain ⟨route, payload, hscan, rfl⟩ := x.serve_called hserve
  have hroute : ∀ word, methodWord c.1 = some word → Misreads x.request.method word →
      routeFor x.request.message word = x.request.path := by
    intro word hword hmis
    have hown := methodWord_of_prefix ⟨rest, hcut⟩ hword hmis hmethod
    exact (routeFor_eq_target_iff x.request.message hmis).2 (Or.inl hown)
  rcases scan_cut x.request.headerLines_ne c.2.1 hcut with ⟨b, word, hbody, hword, hmis, hreq⟩ |
    ⟨-, -, word, hword, hmis, hreq⟩ | ⟨-, -, hrefused⟩
  · rw [hscan] at hreq
    obtain ⟨rfl, rfl⟩ := Scan.request.inj hreq
    exact ⟨hroute word hword hmis, ⟨rest, hbody.symm⟩⟩
  · rw [hscan] at hreq
    obtain ⟨rfl, rfl⟩ := Scan.request.inj hreq
    exact ⟨hroute word hword hmis, List.nil_prefix⟩
  · exact absurd hscan (hrefused route payload)

/-! ### The invariant -/

/-- What is on the way to the server, or has been read by it. -/
def RequestKept (x : Setting) (w : World) : Prop :=
  match w.server with
  | .reading _ => w.toServer ++ w.unsent.flatten = x.request.message.render
  | .called conn => x.Calls conn
  | .gone => True

/-- No more of the request is on the way than there is. -/
def RequestBound (x : Setting) (w : World) : Prop :=
  w.toServer.length + w.unsent.flatten.length ≤ x.request.message.render.length

/-- What is on the way to the client, or has been read by it. -/
def AnswerKept (x : Setting) (w : World) : Prop :=
  match w.server with
  | .called conn => bytes w.received ++ (w.toClient ++ w.unanswered.flatten) = (x.reply conn).message.render
  | _ => w.received = [] ∧ w.toClient = [] ∧ w.unanswered = []

/-- The connection has been closed, and the client has read all there was. -/
def Closed (w : World) : Prop := w.hungUp = true ∧ w.toClient = []

/-- Where the client stands behind its reads. -/
inductive ClientKept (x : Setting) (w : World) : Prop
  | reads : w.reset = false →
      w.client = feed (round x.request.ctx.headersToCollect) .start (w.received.map .data) → ClientKept x w
  | ended (o : Outcome Response) : w.reset = false → Closed w → w.client = .error o →
      feed (round x.request.ctx.headersToCollect) .start (IopHal.reads w.received) = .error o → ClientKept x w
  | reset : w.reset = true → w.hungUp = true → w.client = .error ioError ∨ w.client = .error .terminated →
      ClientKept x w

structure Kept (x : Setting) (w : World) : Prop where
  request : RequestKept x w
  bound : RequestBound x w
  answer : AnswerKept x w
  client : ClientKept x w

theorem hungUp_iff {w : World} : w.hungUp = true ↔ (∀ again, w.server ≠ .reading again) ∧ w.unanswered = [] := by
  unfold World.hungUp
  cases w.server with
  | reading again => exact iff_of_false Bool.false_ne_true fun h => h.1 again rfl
  | called conn => simp
  | gone => simp

theorem kept_start (x : Setting) : Kept x x.start := by
  have hflat := x.request.flatten_pieces
  refine ⟨hflat, ?_, ⟨rfl, rfl, rfl⟩, .reads rfl rfl⟩
  show 0 + x.request.pieces.flatten.length ≤ _
  rw [hflat, Nat.zero_add]

/-- Writing moves bytes from what is left to what is on the way. -/
theorem writeSome_append {room n : Nat} {way way' : Bytes} {pieces pieces' : List Bytes}
    (h : writeSome room way pieces n = some (way', pieces')) : way' ++ pieces'.flatten = way ++ pieces.flatten := by
  cases pieces with
  | nil => cases h
  | cons piece pieces =>
    simp only [writeSome] at h
    split at h
    · rename_i hroom
      obtain ⟨rfl, rfl⟩ := Prod.mk.inj (Option.some.inj h)
      split
      · rename_i hn
        rw [hn, List.take_length, List.flatten_cons, List.append_assoc]
      · rw [List.flatten_cons, List.flatten_cons, List.append_assoc, ← List.append_assoc (piece.take n),
          List.take_append_drop]
    · cases h

theorem writeSome_ne_nil {room n : Nat} {way : Bytes} {pieces : List Bytes} {p : Bytes × List Bytes}
    (h : writeSome room way pieces n = some p) : pieces ≠ [] := by
  rintro rfl
  cases h

theorem kept_clientWrites {w w' : World} {n : Nat} (h : Kept x w) (hstep : x.step w (.clientWrites n) = some w') :
    Kept x w' := by
  obtain ⟨hrequest, hbound, hanswer, hclient⟩ := h
  obtain ⟨⟨way, pieces⟩, hwrite, rfl⟩ := Option.map_eq_some_iff.1 hstep
  have happend := writeSome_append hwrite
  refine ⟨?_, ?_, hanswer, ?_⟩
  · unfold RequestKept at hrequest ⊢
    dsimp only
    cases hserver : w.server with
    | reading again =>
      rw [hserver] at hrequest
      exact happend.trans hrequest
    | called conn =>
      rw [hserver] at hrequest
      exact hrequest
    | gone => trivial
  · have hlength := congrArg List.length happend
    rw [List.length_append, List.length_append] at hlength
    unfold RequestBound at hbound ⊢
    dsimp only
    omega
  · cases hclient with
    | reads hreset hleft => exact .reads hreset hleft
    | ended o hreset hclosed herror hread => exact .ended o hreset hclosed herror hread
    | reset hreset hhung herror => exact .reset hreset hhung herror

theorem serve_ne_reading (again again' : Nat) (c : Chunk maxSize) : x.serve again c ≠ .reading again' := by
  rw [serve_eq]
  cases scan c.1 <;> exact fun h => by cases h

/-- A client that is still in its loop has been brought there by its reads. -/
theorem ClientKept.left {w : World} (h : ClientKept x w) {s : Locals} (hclient : w.client = .ok s) :
    w.reset = false ∧ feed (round x.request.ctx.headersToCollect) .start (w.received.map .data) = .ok s := by
  cases h with
  | reads hreset hleft => exact ⟨hreset, hleft.symm.trans hclient⟩
  | ended o hreset hclosed herror hread =>
    rw [hclient] at herror
    cases herror
  | reset hreset hhung herror =>
    rw [hclient] at herror
    rcases herror with herror | herror <;> cases herror

/-- As long as the server has something to do, the client is where its reads have brought its loop. -/
theorem ClientKept.open {w : World} (h : ClientKept x w) (hhung : w.hungUp = false) :
    w.reset = false ∧ w.client = feed (round x.request.ctx.headersToCollect) .start (w.received.map .data) := by
  cases h with
  | reads hreset hleft => exact ⟨hreset, hleft⟩
  | ended o hreset hclosed herror hread => exact absurd hclosed.1 (by rw [hhung]; exact Bool.false_ne_true)
  | reset hreset hclosed herror => exact absurd hclosed (by rw [hhung]; exact Bool.false_ne_true)

theorem hungUp_of_reading {w : World} {again : Nat} (h : w.server = .reading again) : w.hungUp = false := by
  unfold World.hungUp
  rw [h]

theorem kept_serverReads {w w' : World} {n : Nat} (h : Kept x w) (hstep : x.serverReads w n = some w') : Kept x w' := by
  obtain ⟨hrequest, hbound, hanswer, hclient⟩ := h
  unfold serverReads at hstep
  cases hserver : w.server with
  | called conn =>
    rw [hserver] at hstep
    cases hstep
  | gone =>
    rw [hserver] at hstep
    cases hstep
  | reading again =>
    simp only [hserver] at hstep
    simp only [RequestKept, hserver] at hrequest
    simp only [AnswerKept, hserver] at hanswer
    obtain ⟨hreceived, htoClient, hunanswered⟩ := hanswer
    obtain ⟨hreset, hleft⟩ := hclient.open (hungUp_of_reading hserver)
    split at hstep
    · rename_i hchunk
      obtain rfl := Option.some.inj hstep
      -- the read has delivered the beginning of the request
      have hcut : w.toServer.take n ++ (w.toServer.drop n ++ w.unsent.flatten) = x.request.message.render := by
        rw [← List.append_assoc, List.take_append_drop]
        exact hrequest
      have hbound' : (w.toServer.drop n).length + w.unsent.flatten.length ≤ x.request.message.render.length := by
        unfold RequestBound at hbound
        rw [List.length_drop]
        omega
      cases hserve : x.serve again ⟨w.toServer.take n, hchunk⟩ with
      | reading again' => exact absurd hserve (serve_ne_reading again again' _)
      | called conn =>
        have hcalls : x.Calls conn := ⟨again, ⟨w.toServer.take n, hchunk⟩, _, hserve, hcut⟩
        refine ⟨?_, hbound', ?_, .reads hreset hleft⟩
        · simp only [RequestKept]
          exact hcalls
        · simp only [AnswerKept]
          rw [hreceived, htoClient]
          exact (x.reply conn).flatten_pieces hcalls.fresh
      | gone =>
        refine ⟨?_, hbound', ?_, .reads hreset hleft⟩
        · simp only [RequestKept]
        · simp only [AnswerKept]
          exact ⟨hreceived, htoClient, rfl⟩
    · split at hstep
      · obtain rfl := Option.some.inj hstep
        exact ⟨by simp only [RequestKept]; exact hrequest, hbound, ⟨hreceived, htoClient, hunanswered⟩,
          .reads hreset hleft⟩
      · cases hstep

theorem kept_serverWrites {w w' : World} {n : Nat} (h : Kept x w) (hstep : x.step w (.serverWrites n) = some w') :
    Kept x w' := by
  obtain ⟨hrequest, hbound, hanswer, hclient⟩ := h
  obtain ⟨⟨way, pieces⟩, hwrite, rfl⟩ := Option.map_eq_some_iff.1 hstep
  have happend := writeSome_append hwrite
  have hopen := writeSome_ne_nil hwrite
  have hhung : w.hungUp = false := by
    rw [← Bool.not_eq_true, hungUp_iff]
    exact fun hdone => hopen hdone.2
  obtain ⟨hreset, hleft⟩ := hclient.open hhung
  refine ⟨hrequest, hbound, ?_, .reads hreset hleft⟩
  unfold AnswerKept at hanswer ⊢
  dsimp only
  cases hserver : w.server with
  | called conn =>
    simp only [hserver] at hanswer
    rw [happend]
    exact hanswer
  | reading again =>
    simp only [hserver] at hanswer
    exact absurd hanswer.2.2 hopen
  | gone =>
    simp only [hserver] at hanswer
    exact absurd hanswer.2.2 hopen

/-- A read of the client changes nothing but its loop. -/
theorem clientReads_some {w w' : World} {r : Recv} (h : x.clientReads w r = some w') :
    ∃ s, w.client = .ok s ∧ w.unsent = [] ∧ w' = { w with client := round x.request.ctx.headersToCollect s r } := by
  unfold clientReads at h
  cases hclient : w.client with
  | error o =>
    rw [hclient] at h
    cases h
  | ok s =>
    simp only [hclient] at h
    split at h
    · exact ⟨s, rfl, ‹_›, (Option.some.inj h).symm⟩
    · cases h

theorem kept_clientReads {w w' : World} {n : Nat} (h : Kept x w) (hstep : x.step w (.clientReads n) = some w') :
    Kept x w' := by
  obtain ⟨hrequest, hbound, hanswer, hclient⟩ := h
  simp only [step] at hstep
  split at hstep
  · rename_i hchunk
    obtain ⟨w'', hread, rfl⟩ := Option.map_eq_some_iff.1 hstep
    obtain ⟨s, hlocals, -, rfl⟩ := clientReads_some hread
    have hopen : w.toClient ≠ [] := by
      intro hnil
      rw [hnil, List.take_nil] at hchunk
      exact hchunk.1 rfl
    obtain ⟨hreset, hleft⟩ := hclient.left hlocals
    refine ⟨hrequest, hbound, ?_, .reads hreset ?_⟩
    · unfold AnswerKept at hanswer ⊢
      dsimp only
      cases hserver : w.server with
      | called conn =>
        simp only [hserver] at hanswer
        have hsplit := List.take_append_drop n w.toClient
        have hbytes : ∀ c, bytes (w.received ++ [c]) = bytes w.received ++ c.1 := fun c => by simp [bytes]
        rw [hbytes, List.append_assoc, ← List.append_assoc (List.take n _), hsplit]
        exact hanswer
      | reading again =>
        simp only [hserver] at hanswer
        exact absurd hanswer.2.1 hopen
      | gone =>
        simp only [hserver] at hanswer
        exact absurd hanswer.2.1 hopen
    · rw [List.map_append, feed_append_ok hleft, List.map_singleton, feed_singleton]
  · cases hstep

/-- The end of the stream ends the call. -/
theorem round_eof {keys : List Bytes} {cs : List (Chunk bufferSize)} {s : Locals}
    (h : feed (round keys) .start (cs.map .data) = .ok s) : ∃ o, round keys s .eof = .error o := by
  have hmatch := feed_matches keys (cs.map .data)
  rw [h] at hmatch
  cases hparser : feed (Parser.step keys) .statusLine (cs.map .data) with
  | error o =>
    rw [hparser] at hmatch
    exact hmatch.elim
  | ok p =>
    rw [hparser] at hmatch
    exact ⟨_, error_of_match (round_simulates keys hmatch .eof)⟩

theorem kept_clientEnds {w w' : World} (h : Kept x w) (hstep : x.step w .clientEnds = some w') : Kept x w' := by
  obtain ⟨hrequest, hbound, hanswer, hclient⟩ := h
  simp only [step] at hstep
  split at hstep
  · rename_i hclosed
    obtain ⟨s, hlocals, -, rfl⟩ := clientReads_some hstep
    obtain ⟨hreset, hleft⟩ := hclient.left hlocals
    obtain ⟨o, ho⟩ := round_eof hleft
    refine ⟨hrequest, hbound, hanswer, .ended o hreset hclosed ho ?_⟩
    rw [IopHal.reads, feed_append_ok hleft, feed_cons_error ho]
  · cases hstep

/-- A read that fails ends the call with an error. -/
theorem round_failed {keys : List Bytes} {cs : List (Chunk bufferSize)} {s : Locals}
    (h : feed (round keys) .start (cs.map .data) = .ok s) (errno : Nat) : round keys s (.failed errno) = .error ioError := by
  have hmatch := feed_matches keys (cs.map .data)
  rw [h] at hmatch
  cases hparser : feed (Parser.step keys) .statusLine (cs.map .data) with
  | error o =>
    rw [hparser] at hmatch
    exact hmatch.elim
  | ok p =>
    rw [hparser] at hmatch
    exact error_of_match (round_simulates keys hmatch (.failed errno))

/-- What is left to write is given up, and the call ends without an answer. -/
theorem kept_of_reset {w : World} (h : Kept x w) (hhung : w.hungUp = true) {client : Except (Outcome Response) Locals}
    (hend : client = .error ioError ∨ client = .error .terminated) :
    Kept x { w with unsent := [], reset := true, client := client } := by
  obtain ⟨hrequest, hbound, hanswer, -⟩ := h
  have hreading := (hungUp_iff.1 hhung).1
  refine ⟨?_, ?_, hanswer, .reset rfl hhung hend⟩
  · unfold RequestKept at hrequest ⊢
    dsimp only
    cases hserver : w.server with
    | reading again => exact absurd hserver (hreading again)
    | called conn =>
      rw [hserver] at hrequest
      exact hrequest
    | gone => trivial
  · unfold RequestBound at hbound ⊢
    dsimp only
    exact (Nat.le_add_right _ _).trans hbound

theorem kept_clientResets {w w' : World} {errno : Nat} (h : Kept x w)
    (hstep : x.step w (.clientResets errno) = some w') : Kept x w' := by
  simp only [step] at hstep
  split at hstep
  · rename_i hreset
    obtain ⟨s, hlocals, -, rfl⟩ := clientReads_some hstep
    have hfailed := round_failed (h.client.left hlocals).2 errno
    exact kept_of_reset h hreset.1 (Or.inl hfailed)
  · cases hstep

theorem kept_clientKilled {w w' : World} (h : Kept x w) (hstep : x.step w .clientKilled = some w') : Kept x w' := by
  simp only [step] at hstep
  split at hstep
  · split at hstep
    · rename_i hreset
      exact Option.some.inj hstep ▸ kept_of_reset h hreset.1 (Or.inr rfl)
    · cases hstep
  · cases hstep

/-- Every step keeps the bytes of both messages and the place of the client. -/
theorem kept_step {w w' : World} {a : Action} (h : Kept x w) (hstep : x.step w a = some w') : Kept x w' := by
  cases a with
  | clientWrites n => exact kept_clientWrites h hstep
  | serverReads n => exact kept_serverReads h hstep
  | serverWrites n => exact kept_serverWrites h hstep
  | clientReads n => exact kept_clientReads h hstep
  | clientEnds => exact kept_clientEnds h hstep
  | clientResets errno => exact kept_clientResets h hstep
  | clientKilled => exact kept_clientKilled h hstep

theorem kept_of_run {actions : List Action} {w : World} (hrun : run x.step x.start actions = some w) : Kept x w :=
  run_invariant (fun _ _ _ h hstep => kept_step h hstep) (kept_start x) hrun

end Setting

/-! ### Calls that end too early -/

/-- The call of the client does not end with an answer. -/
def NoAnswer (o : Outcome Response) : Prop := ∀ r, o = .returned r → r = .ofStatus .ioError

theorem noAnswer_ioError : NoAnswer ioError := fun _ h => (Outcome.returned.inj h).symm

theorem noAnswer_undefined : NoAnswer .undefined := fun _ h => by cases h

theorem noAnswer_headerLinePanic (buffer : Bytes) : NoAnswer (headerLinePanic buffer) :=
  fun r h => absurd h (headerLinePanic_ne_returned buffer r)

theorem noAnswer_skipSpaces {v beyond : Bytes} {o : Outcome Response} (h : skipSpaces v beyond = .error o) :
    NoAnswer o := by
  induction v with
  | nil =>
    cases beyond with
    | nil =>
      obtain rfl := Except.error.inj h
      exact noAnswer_undefined
    | cons c beyond =>
      simp only [skipSpaces] at h
      split at h
      · obtain rfl := Except.error.inj h
        exact fun r h => by cases h
      · cases h
  | cons c v ih =>
    simp only [skipSpaces] at h
    split at h
    · exact ih h
    · cases h

theorem noAnswer_collectKey {buff beyond key : Bytes} {headers : Headers} {o : Outcome Response}
    (h : collectKey buff beyond headers key = .error o) : NoAnswer o := by
  simp only [collectKey] at h
  split at h
  · cases h
  · split at h
    · cases h
    · split at h
      · rename_i hskip
        obtain rfl := Except.error.inj h
        exact noAnswer_skipSpaces hskip
      · cases h

theorem noAnswer_scanHead {keys : List Bytes} {headers : Headers} {b : Bytes} {o : Outcome Response}
    (h : scanHead keys headers b = .error o) : NoAnswer o := by
  induction hn : b.length using Nat.strong_induction_on generalizing b headers with
  | _ n ih =>
    subst hn
    rw [scanHead] at h
    split at h
    · cases h
    · rename_i hb
      have hpos := List.length_pos_iff.2 hb
      split at h
      · exact Except.error.inj h ▸ noAnswer_ioError
      · cases h
      · split at h
        · rename_i hkeys
          obtain rfl := Except.error.inj h
          obtain ⟨pre, key, post, t, -, -, hkey⟩ := feed_error_iff.1 hkeys
          exact noAnswer_collectKey hkey
        · exact ih _ (by rw [List.length_drop]; omega) h rfl

theorem noAnswer_scanStatus {b : Bytes} {o : Outcome Response} (h : scanStatus b = .error o) : NoAnswer o := by
  unfold scanStatus at h
  split at h
  · exact Except.error.inj h ▸ noAnswer_ioError
  · split at h
    · exact Except.error.inj h ▸ noAnswer_undefined
    · split at h
      · exact Except.error.inj h ▸ noAnswer_ioError
      · split at h
        · cases h
        · exact Except.error.inj h ▸ noAnswer_ioError

/-- No read that delivers bytes ends a call with an answer. -/
theorem noAnswer_read {keys : List Bytes} {p : Parser} {b : Bytes} {o : Outcome Response}
    (h : p.read keys b = .error o) : NoAnswer o := by
  by_cases hlf : LF ∈ b
  · cases p with
    | statusLine =>
      rw [read_statusLine keys hlf] at h
      cases hstatus : scanStatus b with
      | error o' =>
        rw [hstatus] at h
        exact Except.error.inj h ▸ noAnswer_scanStatus hstatus
      | ok r =>
        rw [hstatus] at h
        cases hhead : scanHead keys [] r.2 with
        | error o' =>
          simp only [Except.bind, hhead, Except.map] at h
          exact Except.error.inj h ▸ noAnswer_scanHead hhead
        | ok r' =>
          simp only [Except.bind, hhead, Except.map] at h
          cases h
    | head status headers =>
      rw [read_head keys status headers hlf] at h
      cases hhead : scanHead keys headers b with
      | error o' =>
        rw [hhead] at h
        exact Except.error.inj h ▸ noAnswer_scanHead hhead
      | ok r =>
        rw [hhead] at h
        cases h
    | payload status headers body => cases h
  · cases p with
    | statusLine =>
      rw [read_of_not_newline keys rfl hlf] at h
      exact Except.error.inj h ▸ noAnswer_headerLinePanic _
    | head status headers =>
      rw [read_of_not_newline keys rfl hlf] at h
      exact Except.error.inj h ▸ noAnswer_headerLinePanic _
    | payload status headers body => cases h

theorem noAnswer_feed {keys : List Bytes} {cs : List (Chunk bufferSize)} {o : Outcome Response}
    (h : feed (round keys) .start (cs.map .data) = .error o) : NoAnswer o := by
  have hmatch := feed_matches keys (cs.map .data)
  cases hparser : feed (Parser.step keys) .statusLine (cs.map .data) with
  | ok p =>
    rw [h, hparser] at hmatch
    exact hmatch.elim
  | error o' =>
    rw [h, hparser] at hmatch
    obtain rfl : o = o' := hmatch
    obtain ⟨pre, r, post, p, hsplit, -, hstep⟩ := feed_error_iff.1 hparser
    obtain ⟨c, -, rfl⟩ := List.mem_map.1 (hsplit ▸ List.mem_append_right pre List.mem_cons_self : r ∈ cs.map .data)
    exact noAnswer_read hstep

/-! ### How an exchange ends -/

namespace Setting

variable {x : Setting} {w : World} {o : Outcome Response}

/-- What the client makes of the answer of a handler. -/
def response (x : Setting) (conn : HttpConnection) : Response :=
  .ofHeaders (headersOf x.request.ctx.headersToCollect (x.reply conn).message.headerLines []) (x.reply conn).body
    (x.reply conn).code.toNat

/-- Behind a reset there is no answer. -/
theorem Kept.noAnswer_of_reset (h : Kept x w) (hend : w.client = .error o) (hreset : w.reset = true) : NoAnswer o := by
  cases h.client with
  | reads hnone hclient => exact absurd hreset (by rw [hnone]; exact Bool.false_ne_true)
  | ended o' hnone hclosed herror hread => exact absurd hreset (by rw [hnone]; exact Bool.false_ne_true)
  | reset _ hhung herror =>
    rw [hend] at herror
    rcases herror with herror | herror
    · exact Except.error.inj herror ▸ noAnswer_ioError
    · obtain rfl := Except.error.inj herror
      exact fun r hr => by cases hr

/-- Without a reset the client ends as `sendRequest` does with its reads, which reach the end of the stream or end the call
themselves. -/
theorem Kept.outcome (h : Kept x w) (hend : w.client = .error o) (hreset : w.reset = false) :
    Parser.outcome x.request.ctx.headersToCollect .statusLine (reads w.received) = o ∧
      (feed (round x.request.ctx.headersToCollect) .start (w.received.map .data) = .error o ∨ Closed w) := by
  have hfeed : feed (round x.request.ctx.headersToCollect) .start (reads w.received) = .error o ∧
      (feed (round x.request.ctx.headersToCollect) .start (w.received.map .data) = .error o ∨ Closed w) := by
    cases h.client with
    | reads _ hclient =>
      rw [hend] at hclient
      refine ⟨?_, Or.inl hclient.symm⟩
      rw [reads, feed_append, ← hclient]
      rfl
    | ended o' _ hclosed herror hread =>
      rw [hend] at herror
      exact ⟨hread.trans (by rw [Except.error.inj herror]), Or.inr hclosed⟩
    | reset htrue _ _ => exact absurd htrue (by rw [hreset]; exact Bool.false_ne_true)
  obtain ⟨hfeed, hwhere⟩ := hfeed
  refine ⟨?_, hwhere⟩
  have hmatch := feed_matches x.request.ctx.headersToCollect (reads w.received)
  rw [hfeed] at hmatch
  cases hparser : feed (Parser.step x.request.ctx.headersToCollect) .statusLine (reads w.received) with
  | ok p =>
    rw [hparser] at hmatch
    exact hmatch.elim
  | error o' =>
    rw [hparser] at hmatch
    rw [outcome_of_feed hparser]
    exact hmatch.symm

/-- Before a handler has been called there is nothing to read, and without one there is only the end of the stream. -/
theorem Kept.uncalled (h : Kept x w) (hend : w.client = .error o) (hreset : w.reset = false)
    (hcalled : ∀ conn, w.server ≠ .called conn) : w.server = .gone ∧ o = .returned (.ofCode 1000) := by
  have hnothing : w.received = [] := by
    have hanswer := h.answer
    unfold AnswerKept at hanswer
    cases hserver : w.server with
    | called conn => exact absurd hserver (hcalled conn)
    | reading again => simp only [hserver] at hanswer; exact hanswer.1
    | gone => simp only [hserver] at hanswer; exact hanswer.1
  obtain ⟨houtcome, hread | hclosed⟩ := h.outcome hend hreset
  · rw [hnothing] at hread
    cases hread
  · rw [hnothing] at houtcome
    refine ⟨?_, houtcome.symm⟩
    cases hserver : w.server with
    | called conn => exact absurd hserver (hcalled conn)
    | reading again => exact absurd hserver ((hungUp_iff.1 hclosed.1).1 again)
    | gone => rfl

/-- Without a reset, the client has the answer of the handler or none. -/
theorem Kept.called_of_open (h : Kept x w) (hend : w.client = .error o) (hreset : w.reset = false)
    {conn : HttpConnection} (hcalled : w.server = .called conn) :
    (o = .returned (x.response conn) ↔ Terminated w.received ∧ LineAligned (x.reply conn).message w.received) ∧
      (o ≠ .returned (x.response conn) → NoAnswer o) := by
  have hanswer := h.answer
  simp only [AnswerKept, hcalled] at hanswer
  have hrender : (x.reply conn).message.render ≠ [] := by simp [HttpResponse.render, HttpResponse.head_eq]
  have hcode : (0 : Int) < (x.reply conn).message.status := (x.reply conn).message.status.2
  obtain ⟨hparsed, hwhere⟩ := h.outcome hend hreset
  -- a closed connection has delivered the whole answer
  have hdelivered : Closed w → bytes w.received = (x.reply conn).message.render := by
    rintro ⟨hhung, hempty⟩
    rw [(hungUp_iff.1 hhung).2, hempty, List.flatten_nil, List.append_nil, List.append_nil] at hanswer
    exact hanswer
  have hcs : w.received ≠ [] := by
    intro hnil
    rcases hwhere with hread | hclosed
    · rw [hnil] at hread
      cases hread
    · have hnothing := hdelivered hclosed
      rw [hnil] at hnothing
      exact hrender hnothing.symm
  obtain ⟨headers, hheaders, houtcome⟩ := outcome_of_part x.request.ctx.headersToCollect (x.reply conn).message hanswer hcs
    (Or.inl x.request.keys)
  rw [hparsed] at houtcome
  rw [lineAligned_iff]
  by_cases hterm : Terminated w.received
  · rw [if_pos hterm] at houtcome
    cases hbreak : firstBreak crlf (x.reply conn).message.headLines 0 (w.received.map (·.1)) with
    | none =>
      rw [hbreak, endOf] at houtcome
      have hanswered : o = .returned (x.response conn) := by
        rcases hwhere with hread | hclosed
        · -- a read that delivers bytes does not end the call so
          have hstatus := congrArg Response.code (noAnswer_feed hread _ houtcome)
          exact absurd hstatus hcode.ne'
        · have hall := hdelivered hclosed
          have hlength : (x.reply conn).message.head.length ≤ (bytes w.received).length := by
            rw [hall, HttpResponse.render, List.length_append]
            exact Nat.le_add_right _ _
          rw [houtcome, hheaders x.request.keys hlength, hall, HttpResponse.render, List.drop_left,
            (x.reply conn).status_message]
          rfl
      exact ⟨iff_of_true hanswered ⟨hterm, rfl⟩, fun hne => absurd hanswered hne⟩
    | some c =>
      rw [hbreak, endOf] at houtcome
      have hnone : NoAnswer o := by
        rw [houtcome]
        split
        · exact noAnswer_ioError
        · exact noAnswer_headerLinePanic _
      refine ⟨iff_of_false ?_ ?_, fun _ => hnone⟩
      · intro hanswered
        have hstatus : ((x.reply conn).code.toNat : Int) = 0 := congrArg Response.code (hnone _ hanswered)
        rw [← (x.reply conn).status_message] at hstatus
        exact absurd hstatus hcode.ne'
      · rintro ⟨-, hnobreak⟩
        cases hnobreak
  · rw [if_neg hterm] at houtcome
    refine ⟨iff_of_false ?_ fun hboth => hterm hboth.1, fun _ => houtcome ▸ noAnswer_undefined⟩
    rw [houtcome]
    exact fun hreturned => by cases hreturned

/-- An answer has a code. -/
theorem not_noAnswer_response (conn : HttpConnection) : ¬ NoAnswer (.returned (x.response conn)) := by
  intro h
  have hstatus : ((x.reply conn).code.toNat : Int) = 0 := congrArg Response.code (h _ rfl)
  rw [← (x.reply conn).status_message] at hstatus
  exact absurd hstatus (x.reply conn).message.status.2.ne'

/-- The client has the answer of the handler, or none. -/
theorem Kept.called (h : Kept x w) (hend : w.client = .error o) {conn : HttpConnection} (hcalled : w.server = .called conn) :
    (o = .returned (x.response conn) ↔
        w.reset = false ∧ Terminated w.received ∧ LineAligned (x.reply conn).message w.received) ∧
      (o ≠ .returned (x.response conn) → NoAnswer o) := by
  cases hreset : w.reset with
  | true =>
    have hnone := h.noAnswer_of_reset hend hreset
    refine ⟨iff_of_false ?_ fun hall => Bool.false_ne_true hall.1.symm, fun _ => hnone⟩
    rintro rfl
    exact not_noAnswer_response conn hnone
  | false =>
    obtain ⟨hiff, hnone⟩ := h.called_of_open hend hreset hcalled
    exact ⟨hiff.trans ⟨fun hboth => ⟨rfl, hboth⟩, fun hall => hall.2⟩, hnone⟩

/-- How a call of the client can end: what the server has done by then, and what the client has of it. -/
def Ended (x : Setting) (w : World) (o : Outcome Response) : Prop :=
  match w.server with
  | .reading _ => False
  | .gone => o = .returned (.ofCode 1000) ∨ NoAnswer o
  | .called conn =>
    conn.currentRoute = x.request.path ∧ conn.currentPayload <+: x.request.data ∧
      (o = .returned (x.response conn) ↔
        w.reset = false ∧ Terminated w.received ∧ LineAligned (x.reply conn).message w.received) ∧
      (o ≠ .returned (x.response conn) → NoAnswer o)

/-- A call does not end as long as the server is in its read loop. -/
theorem Kept.not_reading (h : Kept x w) (hend : w.client = .error o) {again : Nat} : w.server ≠ .reading again := by
  intro hserver
  obtain ⟨hreset, -⟩ := h.client.open (hungUp_of_reading hserver)
  have hgone := (h.uncalled hend hreset fun conn hcalled => by rw [hserver] at hcalled; cases hcalled).1
  rw [hserver] at hgone
  cases hgone

theorem Kept.ended (h : Kept x w) (hmethod : methodWord x.request.message.render = some x.request.method.word)
    (hend : w.client = .error o) : Ended x w o := by
  unfold Ended
  cases hserver : w.server with
  | called conn =>
    have hrequest := h.request
    simp only [RequestKept, hserver] at hrequest
    obtain ⟨hroute, hpayload⟩ := hrequest.request hmethod
    exact ⟨hroute, hpayload, h.called hend hserver⟩
  | reading again => exact absurd hserver (h.not_reading hend)
  | gone =>
    cases hreset : w.reset with
    | true => exact Or.inr (h.noAnswer_of_reset hend hreset)
    | false => exact Or.inl (h.uncalled hend hreset fun conn hcalled => by rw [hserver] at hcalled; cases hcalled).2

end Setting

end IopHal
