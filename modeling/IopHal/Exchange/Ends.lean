import IopHal.Exchange.Runs
import IopHal.Network

/-!
# Exchanges come to an end

The client reads only when it has written, and the server writes without reading on: if neither the request nor the answer
has room on the way, both wait for ever.  Otherwise nothing but the end of the client's call stops an exchange
(`ends_of_run`), and as long as the server has not read, the whole answer can still come back (`answered_of_run`).  Whatever
happens, `Network` reports a success only if the handler has answered so, with the whole body that it has sent
(`reported_of_run`).
-/

namespace IopHal

open Find Feed Framing Transitions HttpServer

namespace Setting

variable {x : Setting} {w : World}

/-! ### Steps that are possible -/

theorem step_clientWrites {n : Nat} {way : Bytes} {pieces : List Bytes}
    (hwrite : writeSome x.roomToServer w.toServer w.unsent n = some (way, pieces)) :
    x.step w (.clientWrites n) = some { w with toServer := way, unsent := pieces } := by
  rw [step, hwrite]
  rfl

theorem step_serverReads {again n : Nat} (hserver : w.server = .reading again)
    (hchunk : w.toServer.take n ≠ [] ∧ (w.toServer.take n).length ≤ maxSize) :
    x.step w (.serverReads n) =
      some { w with
        toServer := w.toServer.drop n
        server := x.serve again ⟨w.toServer.take n, hchunk⟩
        unanswered := x.answer (x.serve again ⟨w.toServer.take n, hchunk⟩) } := by
  simp only [step, serverReads, hserver]
  rw [dif_pos hchunk]

theorem step_serverWrites {n : Nat} {way : Bytes} {pieces : List Bytes}
    (hwrite : writeSome x.roomToClient w.toClient w.unanswered n = some (way, pieces)) :
    x.step w (.serverWrites n) = some { w with toClient := way, unanswered := pieces } := by
  rw [step, hwrite]
  rfl

theorem step_clientReads {s : Locals} {n : Nat} (hclient : w.client = .ok s) (hunsent : w.unsent = [])
    (hchunk : w.toClient.take n ≠ [] ∧ (w.toClient.take n).length ≤ bufferSize) :
    x.step w (.clientReads n) =
      some { w with
        toClient := w.toClient.drop n
        client := round x.request.ctx.headersToCollect s (.data ⟨w.toClient.take n, hchunk⟩)
        received := w.received ++ [⟨w.toClient.take n, hchunk⟩] } := by
  simp only [step, clientReads, hclient, hunsent, if_true]
  rw [dif_pos hchunk, Option.map_some]

/-- The end of the stream ends the call. -/
theorem Kept.step_clientEnds (h : Kept x w) {s : Locals} (hclient : w.client = .ok s) (hunsent : w.unsent = [])
    (hclosed : Closed w) : ∃ o, x.step w .clientEnds = some { w with client := .error o } := by
  obtain ⟨o, ho⟩ := round_eof (h.client.left hclient).2
  have hgate : w.hungUp = true ∧ w.toClient = [] := hclosed
  refine ⟨o, ?_⟩
  rw [step, if_pos hgate, clientReads]
  simp only [hclient, hunsent, if_true, ho]

/-- A connection that has been reset ends the call. -/
theorem Kept.step_clientResets (h : Kept x w) {s : Locals} (hclient : w.client = .ok s) (hhung : w.hungUp = true)
    (hunread : w.toServer ≠ []) (errno : Nat) :
    x.step w (.clientResets errno) = some { w with unsent := [], reset := true, client := .error ioError } := by
  have hfailed := round_failed (h.client.left hclient).2 errno
  rw [step, if_pos ⟨hhung, Or.inl hunread⟩, clientReads]
  simp only [hclient, if_true, hfailed]

/-- How much there is to write. -/
def load (pieces : List Bytes) : Nat := pieces.length + pieces.flatten.length

/-- A write gets on if there is room for a byte, or for all that is left. -/
theorem exists_write {room : Nat} {way : Bytes} {pieces : List Bytes} (hpieces : pieces ≠ [])
    (hroom : way.length < room ∨ way.length + pieces.flatten.length ≤ room) :
    ∃ n way' pieces', writeSome room way pieces n = some (way', pieces') ∧ load pieces' < load pieces := by
  cases pieces with
  | nil => exact absurd rfl hpieces
  | cons piece pieces =>
    rw [List.flatten_cons, List.length_append] at hroom
    cases piece with
    | nil =>
      rw [List.length_nil] at hroom
      refine ⟨0, way, pieces, ?_, ?_⟩
      · rw [writeSome, if_pos ⟨Nat.le_refl 0, by omega⟩, List.take_nil, List.append_nil, if_pos List.length_nil.symm]
      · simp only [load, List.length_cons, List.flatten_cons, List.nil_append]
        omega
    | cons c piece =>
      rw [List.length_cons] at hroom
      have hone : 1 ≤ (c :: piece).length ∧ way.length + 1 ≤ room := by
        rw [List.length_cons]
        omega
      refine ⟨1, _, _, by rw [writeSome, if_pos hone], ?_⟩
      split
      · simp only [load, List.length_cons, List.flatten_cons, List.length_append]
        omega
      · simp only [load, List.length_cons, List.flatten_cons, List.length_append, List.drop_one, List.tail_cons]
        omega

theorem take_one {b : Bytes} {size : Nat} (hb : b ≠ []) (hsize : 0 < size) : b.take 1 ≠ [] ∧ (b.take 1).length ≤ size :=
  ⟨by simpa using hb, (List.length_take_le _ _).trans hsize⟩

theorem render_ne_nil (x : Setting) : x.request.message.render ≠ [] := by
  simp [HttpRequest.render, HttpRequest.requestLine]

/-- A server in its read loop waits for nothing but the request. -/
theorem Kept.progress_reading (h : Kept x w) {again : Nat} (hserver : w.server = .reading again) :
    ∃ a w', x.step w a = some w' ∧
      (load w'.unsent < load w.unsent ∧ w'.server = w.server ∨ ∀ again', w'.server ≠ .reading again') := by
  have hrequest := h.request
  simp only [RequestKept, hserver] at hrequest
  by_cases harrived : w.toServer = []
  · have hunsent : w.unsent ≠ [] := by
      intro hnil
      rw [harrived, hnil] at hrequest
      exact x.render_ne_nil hrequest.symm
    have hroom : w.toServer.length < x.roomToServer := by
      rw [harrived]
      exact x.room.1
    obtain ⟨n, way, pieces, hwrite, hload⟩ := exists_write hunsent (Or.inl hroom)
    exact ⟨_, _, step_clientWrites hwrite, Or.inl ⟨hload, rfl⟩⟩
  · exact ⟨_, _, step_serverReads hserver (take_one harrived (by decide)), Or.inr fun _ => serve_ne_reading _ _ _⟩

/-- What is left to do once the server has read -/
def left (w : World) : Nat :=
  load w.unsent + load w.unanswered + (w.toClient.length + w.unanswered.flatten.length) +
    match w.client with
    | .ok _ => 1
    | .error _ => 0

/-- One of the two messages has room on the way. -/
def Fits (x : Setting) : Prop :=
  x.request.message.render.length ≤ x.roomToServer ∨ ∀ conn, (x.reply conn).message.render.length ≤ x.roomToClient

section Closing

variable (h : Kept x w) {s : Locals} (hclient : w.client = .ok s)
include h

/-- A server that writes is one that has called a handler. -/
theorem Kept.called_of_unanswered (hunanswered : w.unanswered ≠ []) :
    ∃ conn, bytes w.received ++ (w.toClient ++ w.unanswered.flatten) = (x.reply conn).message.render := by
  have hanswer := h.answer
  unfold AnswerKept at hanswer
  cases hserver : w.server with
  | called conn =>
    simp only [hserver] at hanswer
    exact ⟨conn, hanswer⟩
  | reading again =>
    simp only [hserver] at hanswer
    exact absurd hanswer.2.2 hunanswered
  | gone =>
    simp only [hserver] at hanswer
    exact absurd hanswer.2.2 hunanswered

/-- The server can write as long as there is room. -/
theorem Kept.progress_serverWrites (hunanswered : w.unanswered ≠ [])
    (hroom : w.toClient.length < x.roomToClient ∨ ∀ conn, (x.reply conn).message.render.length ≤ x.roomToClient) :
    ∃ a w', x.step w a = some w' ∧ left w' < left w := by
  obtain ⟨conn, hanswer⟩ := h.called_of_unanswered hunanswered
  have hroom' : w.toClient.length < x.roomToClient ∨
      w.toClient.length + w.unanswered.flatten.length ≤ x.roomToClient := by
    refine hroom.imp_right fun hall => ?_
    have hlength := congrArg List.length hanswer
    rw [List.length_append, List.length_append] at hlength
    have := hall conn
    omega
  obtain ⟨n, way, pieces, hwrite, hload⟩ := exists_write hunanswered hroom'
  refine ⟨_, _, step_serverWrites hwrite, ?_⟩
  have hlength := congrArg List.length (writeSome_append hwrite)
  rw [List.length_append, List.length_append] at hlength
  simp only [left]
  omega

include hclient

/-- The client that has something to write can do so, or waits for a server that writes or has hung up. -/
theorem Kept.progress_unsent (hfits : Fits x) (hserver : ∀ again, w.server ≠ .reading again) (hunsent : w.unsent ≠ []) :
    ∃ a w', x.step w a = some w' ∧ left w' < left w := by
  by_cases hroom : w.toServer.length < x.roomToServer ∨
      w.toServer.length + w.unsent.flatten.length ≤ x.roomToServer
  · obtain ⟨n, way, pieces, hwrite, hload⟩ := exists_write hunsent hroom
    refine ⟨_, _, step_clientWrites hwrite, ?_⟩
    simp only [left]
    omega
  · have hbound := h.bound
    unfold RequestBound at hbound
    have hreply := hfits.resolve_left (by omega)
    by_cases hunanswered : w.unanswered = []
    · have hunread : w.toServer ≠ [] := by
        intro hnil
        have hpos := x.room.1
        rw [hnil, List.length_nil] at hroom
        omega
      have hhung : w.hungUp = true := hungUp_iff.2 ⟨hserver, hunanswered⟩
      -- `ECONNRESET`
      refine ⟨_, _, h.step_clientResets hclient hhung hunread 104, ?_⟩
      simp only [left, hclient, load, List.length_nil, List.flatten_nil]
      omega
    · exact h.progress_serverWrites hunanswered (Or.inr hreply)

/-- The client that has written all waits for nothing but the answer. -/
theorem Kept.progress_sent (hserver : ∀ again, w.server ≠ .reading again) (hunsent : w.unsent = []) :
    ∃ a w', x.step w a = some w' ∧ left w' < left w := by
  by_cases harrived : w.toClient = []
  · by_cases hunanswered : w.unanswered = []
    · obtain ⟨o, hends⟩ := h.step_clientEnds hclient hunsent ⟨hungUp_iff.2 ⟨hserver, hunanswered⟩, harrived⟩
      refine ⟨_, _, hends, ?_⟩
      simp only [left, hclient]
      omega
    · apply h.progress_serverWrites hunanswered (Or.inl ?_)
      rw [harrived]
      exact x.room.2
  · refine ⟨_, _, step_clientReads hclient hunsent (take_one harrived (by decide)), ?_⟩
    have hpos := List.length_pos_iff.2 harrived
    simp only [left, hclient, List.length_drop]
    split <;> omega

end Closing

/-- Behind the read of the server nothing stops the client. -/
theorem Kept.progress_closing (h : Kept x w) (hfits : Fits x) (hserver : ∀ again, w.server ≠ .reading again)
    (hclient : ∀ o, w.client ≠ .error o) : ∃ a w', x.step w a = some w' ∧ left w' < left w := by
  cases hlocals : w.client with
  | error o => exact absurd hlocals (hclient o)
  | ok s =>
    by_cases hunsent : w.unsent = []
    · exact h.progress_sent hlocals hserver hunsent
    · exact h.progress_unsent hlocals hfits hserver hunsent

/-! ### Ends -/

/-- What is left to write before the server reads, and its read -/
def leftToRead (w : World) : Nat :=
  match w.server with
  | .reading _ => load w.unsent + 1
  | _ => 0

theorem Kept.exists_read (h : Kept x w) :
    ∃ actions w', run x.step w actions = some w' ∧ ∀ again, w'.server ≠ .reading again := by
  refine exists_run_final (Kept x) (fun w => ∀ again, w.server ≠ .reading again) leftToRead
    (fun _ _ _ h hstep => kept_step h hstep) (fun w h hreading => ?_) h
  obtain ⟨again, hserver⟩ := not_forall_not.1 hreading
  obtain ⟨a, w', hstep, ⟨hlt, hsame⟩ | hread⟩ := h.progress_reading hserver
  · refine ⟨a, w', hstep, ?_⟩
    simp only [leftToRead, hsame, hserver]
    omega
  · refine ⟨a, w', hstep, ?_⟩
    simp only [leftToRead, hserver]
    cases hside : w'.server with
    | reading again' => exact absurd hside (hread again')
    | called conn => exact Nat.succ_pos _
    | gone => exact Nat.succ_pos _

/-- Who has read once does not read again. -/
theorem read_step {w' : World} {a : Action} (hread : ∀ again, w.server ≠ .reading again)
    (hstep : x.step w a = some w') : ∀ again, w'.server ≠ .reading again := by
  cases a with
  | clientWrites n =>
    obtain ⟨p, -, rfl⟩ := Option.map_eq_some_iff.1 hstep
    exact hread
  | serverReads n =>
    simp only [step, serverReads] at hstep
    cases hserver : w.server with
    | reading again => exact absurd hserver (hread again)
    | called conn => cases hstep
    | gone => cases hstep
  | serverWrites n =>
    obtain ⟨p, -, rfl⟩ := Option.map_eq_some_iff.1 hstep
    exact hread
  | clientReads n =>
    simp only [step] at hstep
    split at hstep
    · obtain ⟨w'', hw'', rfl⟩ := Option.map_eq_some_iff.1 hstep
      obtain ⟨s, -, -, rfl⟩ := clientReads_some hw''
      exact hread
    · cases hstep
  | clientEnds =>
    simp only [step] at hstep
    split at hstep
    · obtain ⟨s, -, -, rfl⟩ := clientReads_some hstep
      exact hread
    · cases hstep
  | clientResets errno =>
    simp only [step] at hstep
    split at hstep
    · obtain ⟨s, -, -, rfl⟩ := clientReads_some hstep
      exact hread
    · cases hstep
  | clientKilled =>
    simp only [step] at hstep
    split at hstep
    · split at hstep
      · exact Option.some.inj hstep ▸ hread
      · cases hstep
    · cases hstep

theorem Kept.exists_end (h : Kept x w) (hfits : Fits x) :
    ∃ actions w' o, run x.step w actions = some w' ∧ w'.client = .error o := by
  obtain ⟨actions, w', hrun, hread⟩ := h.exists_read
  have hkept := run_invariant (fun _ _ _ h hstep => kept_step h hstep) h hrun
  obtain ⟨more, w'', hmore, o, hend⟩ := exists_run_final
    (fun w => Kept x w ∧ ∀ again, w.server ≠ .reading again) (fun w => ∃ o, w.client = .error o) left
    (fun _ _ _ h hstep => ⟨kept_step h.1 hstep, read_step h.2 hstep⟩)
    (fun w h hclient => h.1.progress_closing hfits h.2 (not_exists.1 hclient)) ⟨hkept, hread⟩
  exact ⟨actions ++ more, w'', o, (run_append_some hrun more).trans hmore, hend⟩

/-- A write without room stays where it is. -/
theorem writeSome_full {room n : Nat} {way : Bytes} {c : UInt8} {piece : Bytes} {pieces : List Bytes} {p : Bytes × List Bytes}
    (hfull : way.length = room) (h : writeSome room way ((c :: piece) :: pieces) n = some p) :
    p = (way, (c :: piece) :: pieces) := by
  simp only [writeSome] at h
  split at h
  · rename_i hroom
    obtain rfl : n = 0 := by omega
    rw [← Option.some.inj h, List.take_zero, List.append_nil, if_neg (by simp), List.drop_zero]
  · cases h

/-- Where neither message fits, both can come to wait: the client writes and the server writes, and nothing is read. -/
theorem stuck_of_full {c d : UInt8} {piece answer : Bytes} {pieces answers : List Bytes}
    (hserver : ∀ again, w.server ≠ .reading again) (hunsent : w.unsent = (c :: piece) :: pieces)
    (hunanswered : w.unanswered = (d :: answer) :: answers) (htoServer : w.toServer.length = x.roomToServer)
    (htoClient : w.toClient.length = x.roomToClient) {a : Action} {w' : World} (hstep : x.step w a = some w') : w' = w := by
  have hhung : ¬ w.hungUp = true := by
    rw [hungUp_iff, hunanswered]
    exact fun h => List.cons_ne_nil _ _ h.2
  have hread : ∀ r, x.clientReads w r = none := by
    intro r
    unfold clientReads
    cases w.client with
    | error o => rfl
    | ok s => exact if_neg (by rw [hunsent]; exact List.cons_ne_nil _ _)
  cases a with
  | clientWrites n =>
    obtain ⟨p, hwrite, rfl⟩ := Option.map_eq_some_iff.1 hstep
    rw [hunsent] at hwrite
    rw [writeSome_full htoServer hwrite, ← hunsent]
  | serverWrites n =>
    obtain ⟨p, hwrite, rfl⟩ := Option.map_eq_some_iff.1 hstep
    rw [hunanswered] at hwrite
    rw [writeSome_full htoClient hwrite, ← hunanswered]
  | serverReads n =>
    simp only [step, serverReads] at hstep
    cases hside : w.server with
    | reading again => exact absurd hside (hserver again)
    | called conn => cases hstep
    | gone => cases hstep
  | clientReads n =>
    simp only [step] at hstep
    split at hstep
    · rw [hread] at hstep
      cases hstep
    · cases hstep
  | clientEnds => simp [step, hhung] at hstep
  | clientResets errno => simp [step, hhung] at hstep
  | clientKilled =>
    simp only [step, hhung, Bool.false_eq_true, false_and, if_false] at hstep
    split at hstep <;> cases hstep

/-! ### Whole messages in one read each -/

/-- A piece that has room is written at once. -/
theorem writeSome_piece {room : Nat} {way piece : Bytes} {pieces : List Bytes} (hroom : way.length + piece.length ≤ room) :
    writeSome room way (piece :: pieces) piece.length = some (way ++ piece, pieces) := by
  rw [writeSome, if_pos ⟨Nat.le_refl _, hroom⟩, List.take_length, if_pos rfl]

theorem run_clientWrites (w : World) (hroom : (w.toServer ++ w.unsent.flatten).length ≤ x.roomToServer) :
    run x.step w (w.unsent.map fun piece => .clientWrites piece.length) =
      some { w with unsent := [], toServer := w.toServer ++ w.unsent.flatten } := by
  induction hunsent : w.unsent generalizing w with
  | nil => rw [List.map_nil, run_nil, List.flatten_nil, List.append_nil, ← hunsent]
  | cons piece pieces ih =>
    rw [hunsent, List.flatten_cons, ← List.append_assoc] at hroom
    have hpiece : w.toServer.length + piece.length ≤ x.roomToServer := by
      rw [List.length_append, List.length_append] at hroom
      omega
    have hwrite := step_clientWrites (x := x) (w := w) (by rw [hunsent]; exact writeSome_piece hpiece)
    rw [List.map_cons, run_cons_some hwrite, ih _ hroom rfl, List.flatten_cons, ← List.append_assoc]

theorem run_serverWrites (w : World) (hroom : (w.toClient ++ w.unanswered.flatten).length ≤ x.roomToClient) :
    run x.step w (w.unanswered.map fun piece => .serverWrites piece.length) =
      some { w with unanswered := [], toClient := w.toClient ++ w.unanswered.flatten } := by
  induction hunanswered : w.unanswered generalizing w with
  | nil => rw [List.map_nil, run_nil, List.flatten_nil, List.append_nil, ← hunanswered]
  | cons piece pieces ih =>
    rw [hunanswered, List.flatten_cons, ← List.append_assoc] at hroom
    have hpiece : w.toClient.length + piece.length ≤ x.roomToClient := by
      rw [List.length_append, List.length_append] at hroom
      omega
    have hwrite := step_serverWrites (x := x) (w := w) (by rw [hunanswered]; exact writeSome_piece hpiece)
    rw [List.map_cons, run_cons_some hwrite, ih _ hroom rfl, List.flatten_cons, ← List.append_assoc]

/-- How the handler is called by a read that delivers the whole request -/
def wholeCall (x : Setting) : HttpConnection := connection x.fd x.request.path x.request.data

theorem serve_whole (again : Nat) {c : Chunk maxSize} (hc : c.1 = x.request.message.render)
    (hmethod : methodWord x.request.message.render = some x.request.method.word) :
    x.serve again c = .called x.wholeCall := by
  rw [serve_eq, hc]
  rcases scan_cut x.request.headerLines_ne x.render_ne_nil (List.append_nil x.request.message.render) with
    ⟨b, word, hbody, hword, hmis, hscan⟩ | ⟨hne, -⟩ | ⟨hne, -⟩
  · rw [hmethod] at hword
    have hroute : routeFor x.request.message word = x.request.path :=
      (routeFor_eq_target_iff x.request.message hmis).2 (Or.inl (Option.some.inj hword).symm)
    rw [List.append_nil] at hbody
    rw [hscan, hroute, ← hbody]
    rfl
  · exact absurd rfl hne
  · exact absurd rfl hne

/-- A read that delivers bytes does not end the call with the answer. -/
theorem ne_response_of_feed {conn : HttpConnection} {cs : List (Chunk bufferSize)} {o : Outcome Response}
    (h : feed (round x.request.ctx.headersToCollect) .start (cs.map .data) = .error o) :
    o ≠ .returned (x.response conn) := by
  intro hanswered
  have hnone : ((x.reply conn).code.toNat : Int) = 0 := congrArg Response.code (noAnswer_feed h _ hanswered)
  rw [← (x.reply conn).status_message] at hnone
  exact absurd hnone (x.reply conn).message.status.2.ne'

/-- The client that has read the whole answer at once ends with it. -/
theorem Kept.answered (h : Kept x w) {conn : HttpConnection} (hserver : w.server = .called conn)
    (hreset : w.reset = false) {c : Chunk bufferSize} (hreceived : w.received = [c])
    (hc : c.1 = (x.reply conn).message.render) (hshort : c.1.length < bufferSize) {o : Outcome Response}
    (hend : w.client = .error o) : o = .returned (x.response conn) := by
  refine (h.called hend hserver).1.2 ⟨hreset, ?_, ?_⟩
  · rw [hreceived]
    intro c' hc' hfull
    obtain rfl : c = c' := Option.some.inj hc'
    exact absurd hfull.2.1 hshort.ne
  · rw [hreceived, lineAligned_iff, List.map_singleton, hc, HttpResponse.render]
    exact firstBreak_rest crlf _ _ []

/-- The whole request can be written and read, and the whole answer written. -/
theorem Kept.exists_called (h : Kept x w) {again : Nat} (hserver : w.server = .reading again)
    (hmethod : methodWord x.request.message.render = some x.request.method.word)
    (hrequest : x.request.message.render.length ≤ maxSize)
    (hroomToServer : x.request.message.render.length ≤ x.roomToServer)
    (hroomToClient : (x.reply x.wholeCall).message.render.length ≤ x.roomToClient) :
    ∃ actions w', run x.step w actions = some w' ∧ w'.server = .called x.wholeCall ∧ w'.unsent = [] ∧
      w'.unanswered = [] ∧ w'.toClient = (x.reply x.wholeCall).message.render ∧ w'.client = .ok .start ∧
      w'.received = [] ∧ w'.reset = false := by
  have harrives := h.request
  simp only [RequestKept, hserver] at harrives
  have hanswer := h.answer
  simp only [AnswerKept, hserver] at hanswer
  obtain ⟨hreceived, htoClient, -⟩ := hanswer
  obtain ⟨hreset, hclient⟩ := h.client.open (hungUp_of_reading hserver)
  rw [hreceived] at hclient
  have hwritten := run_clientWrites (x := x) w (by rw [harrives]; exact hroomToServer)
  rw [harrives] at hwritten
  have htake : x.request.message.render.take maxSize = x.request.message.render := List.take_of_length_le hrequest
  have hchunk : x.request.message.render.take maxSize ≠ [] ∧ (x.request.message.render.take maxSize).length ≤ maxSize :=
    ⟨by rw [htake]; exact x.render_ne_nil, List.length_take_le _ _⟩
  have hread := step_serverReads (x := x) (n := maxSize)
    (w := { w with unsent := [], toServer := x.request.message.render }) hserver hchunk
  rw [serve_whole again htake hmethod] at hread
  have hflat : w.toClient ++ (x.answer (.called x.wholeCall)).flatten = (x.reply x.wholeCall).message.render := by
    rw [htoClient]
    exact (x.reply x.wholeCall).flatten_pieces ⟨rfl, rfl, rfl⟩
  have hanswered := run_serverWrites (x := x) { w with
    unsent := []
    toServer := x.request.message.render.drop maxSize
    server := .called x.wholeCall
    unanswered := x.answer (.called x.wholeCall) } (by rw [hflat]; exact hroomToClient)
  dsimp only at hanswered
  rw [hflat] at hanswered
  exact ⟨_, _, (run_append_some hwritten _).trans ((run_cons_some hread _).trans hanswered), rfl, rfl, rfl, rfl, hclient,
    hreceived, hreset⟩

/-- The whole answer can be read, and the client ends with it. -/
theorem Kept.exists_answered (h : Kept x w) {conn : HttpConnection} (hserver : w.server = .called conn)
    (hunsent : w.unsent = []) (hunanswered : w.unanswered = []) (htoClient : w.toClient = (x.reply conn).message.render)
    (hclient : w.client = .ok .start) (hreceived : w.received = []) (hreset : w.reset = false)
    (hreply : (x.reply conn).message.render.length < bufferSize) :
    ∃ actions w', run x.step w actions = some w' ∧ w'.server = .called conn ∧
      w'.client = .error (.returned (x.response conn)) := by
  have htake : w.toClient.take bufferSize = (x.reply conn).message.render := by
    rw [htoClient, List.take_of_length_le hreply.le]
  have hne : (x.reply conn).message.render ≠ [] := by simp [HttpResponse.render, HttpResponse.head_eq]
  have hchunk : w.toClient.take bufferSize ≠ [] ∧ (w.toClient.take bufferSize).length ≤ bufferSize :=
    ⟨by rw [htake]; exact hne, List.length_take_le _ _⟩
  have hshort : (w.toClient.take bufferSize).length < bufferSize := by
    rw [htake]
    exact hreply
  have hread := step_clientReads (x := x) hclient hunsent hchunk
  rw [hreceived, List.nil_append] at hread
  have hkept := kept_step h hread
  have hdrop : w.toClient.drop bufferSize = [] := by
    rw [htoClient]
    exact List.drop_eq_nil_of_le hreply.le
  cases hlocals : round x.request.ctx.headersToCollect .start (.data ⟨w.toClient.take bufferSize, hchunk⟩) with
  | error o =>
    have hfeed : feed (round x.request.ctx.headersToCollect) .start
        ([(⟨w.toClient.take bufferSize, hchunk⟩ : Chunk bufferSize)].map .data) = .error o := by
      rw [List.map_singleton, feed_singleton, hlocals]
    exact absurd (hkept.answered hserver hreset rfl htake hshort hlocals) (ne_response_of_feed hfeed)
  | ok s =>
    have hclosed : Closed { w with
        toClient := w.toClient.drop bufferSize
        client := round x.request.ctx.headersToCollect .start (.data ⟨w.toClient.take bufferSize, hchunk⟩)
        received := [⟨w.toClient.take bufferSize, hchunk⟩] } := by
      refine ⟨hungUp_iff.2 ⟨fun again hreading => ?_, hunanswered⟩, hdrop⟩
      rw [hserver] at hreading
      cases hreading
    obtain ⟨o, hends⟩ := hkept.step_clientEnds hlocals hunsent hclosed
    have hanswered := (kept_step hkept hends).answered hserver hreset rfl htake hshort rfl
    rw [hanswered] at hends
    exact ⟨_, _, (run_cons_some hread _).trans (run_cons_some hends []), hserver, rfl⟩

/-- Both messages go in one read each, and have room on the way. -/
structure Short (x : Setting) : Prop where
  request : x.request.message.render.length ≤ maxSize
  reply : (x.reply x.wholeCall).message.render.length < bufferSize
  toServer : x.request.message.render.length ≤ x.roomToServer
  toClient : (x.reply x.wholeCall).message.render.length ≤ x.roomToClient

/-- As long as the server has not read, the client can still get the answer to its whole request. -/
theorem Kept.exists_answer (h : Kept x w) {again : Nat} (hserver : w.server = .reading again)
    (hmethod : methodWord x.request.message.render = some x.request.method.word) (hshort : x.Short) :
    ∃ actions w', run x.step w actions = some w' ∧ w'.server = .called x.wholeCall ∧
      w'.client = .error (.returned (x.response x.wholeCall)) := by
  obtain ⟨actions, w', hrun, hcalled, hunsent, hunanswered, htoClient, hclient, hreceived, hreset⟩ :=
    h.exists_called hserver hmethod hshort.request hshort.toServer hshort.toClient
  have hkept := run_invariant (fun _ _ _ h hstep => kept_step h hstep) h hrun
  obtain ⟨more, w'', hmore, hend⟩ :=
    hkept.exists_answered hcalled hunsent hunanswered htoClient hclient hreceived hreset hshort.reply
  exact ⟨actions ++ more, w'', (run_append_some hrun more).trans hmore, hend⟩

/-! ### Runs -/

theorem submission_opened : (-1 : Int) ≠ -1 ∨ true = true := Or.inr rfl

theorem submission_authority : 47 ∉ ascii "iot:3000" ∧ SP ∉ ascii "iot:3000" ∧ IsText (ascii "iot:3000") := by decide

theorem submission_line : IsLine (ascii "/submit") ∧ SP ∉ ascii "/submit" := by decide

theorem submission_found : PathFound ⟨ascii "iot:3000", submission_authority⟩ (ascii "/submit") := by
  refine ⟨by decide, fun n hn => ?_⟩
  have hnone : find (ascii "://") (ascii "iot:3000" ++ ascii "/submit") = none := by decide
  rw [hnone] at hn
  cases hn

theorem submission_clean : ∀ call ∈ [HeaderCall.setAuthorization (ascii "token")], call.Clean := by
  intro call hcall
  obtain rfl := List.mem_singleton.1 hcall
  simp only [HeaderCall.Clean]
  decide

/-- The session of a form for the portal -/
def submissionSession : SessionContext where
  fd := -1
  headersToCollect := []
  headers := [(ascii "Authorization", ascii "Basic token")]
  uri := ascii "iot:3000/submit"
  bio := true
  opened := submission_opened

def submission : ClientRequest where
  ctx := submissionSession
  authority := ⟨ascii "iot:3000", submission_authority⟩
  path := ascii "/submit"
  calls := [.setAuthorization (ascii "token")]
  method := .post
  data := ascii "ssid=a"
  path_line := submission_line
  slash := rfl
  uri := Or.inl rfl
  found := submission_found
  headers := List.Perm.refl _
  clean := submission_clean
  keys := fun _ hkey => absurd hkey List.not_mem_nil

/-- A client sends the form to the portal, which answers every request with its page. -/
def submitting : Setting where
  request := submission
  server := portal
  ready := portal_ready
  fd := 4
  reply _ :=
    { portalPage with
      type_ne := by decide
      type_line := by decide
      chunks_ne := by decide }
  roomToServer := maxSize
  roomToClient := bufferSize
  room := by decide

theorem submitting_method : methodWord submitting.request.message.render = some submitting.request.method.word := by
  decide

theorem submitting_short : submitting.Short := by
  have hreply : (submitting.reply submitting.wholeCall).message.render.length < bufferSize := by decide +kernel
  exact ⟨by decide, hreply, by decide, hreply.le⟩

/-- The server has called the handler of the path with the beginning of the data. -/
def Served (x : Setting) (w : World) (conn : HttpConnection) : Prop :=
  w.server = .called conn ∧ conn.currentRoute = x.request.path ∧ conn.currentPayload <+: x.request.data

/-- Without the answer of a handler there is no success, and no update is offered. -/
theorem processResponse_no_answer (firmwareMD5 : Bytes) {r : Response} (h : r = .ofCode 1000 ∨ r = .ofStatus .ioError) :
    r.status ≠ some .ok ∧ r.code ≠ 200 ∧ (processResponse firmwareMD5 r).scheduled = false := by
  rcases h with rfl | rfl <;> exact ⟨by decide, by decide, rfl⟩

theorem offers_of_scheduled {firmwareMD5 : Bytes} {r : Response} (h : (processResponse firmwareMD5 r).scheduled = true) :
    offersUpdate firmwareMD5 r = true := by
  unfold processResponse at h
  split at h
  · cases h
  · cases h
  · split at h <;> exact h

/-- What `processResponse` makes of a response that is a success, or is not the answer of a handler. -/
structure Reported (x : Setting) (w : World) (firmwareMD5 : Bytes) (r : Response) : Prop where
  /-- a success is one of the handler, and has its body -/
  success : ∀ t, (processResponse firmwareMD5 r).response = .returned t → t.status = some .ok →
    ∃ conn, Served x w conn ∧ (x.reply conn).code = 200 ∧ t.promise = (x.reply conn).body
  /-- `processResponse` returns, unless the handler has answered with a success and no body -/
  returns : (∃ t, (processResponse firmwareMD5 r).response = .returned t) ∨
    ∃ conn, Served x w conn ∧ (x.reply conn).code = 200 ∧ (x.reply conn).body = []
  /-- an update is scheduled because of an answer that offers it -/
  scheduled : (processResponse firmwareMD5 r).scheduled = true →
    ∃ conn, Served x w conn ∧ offersUpdate firmwareMD5 (x.response conn) = true

theorem reported_no_answer {firmwareMD5 : Bytes} {r : Response} (h : r = .ofCode 1000 ∨ r = .ofStatus .ioError) :
    Reported x w firmwareMD5 r := by
  obtain ⟨hstatus, hcode, hscheduled⟩ := processResponse_no_answer firmwareMD5 h
  refine ⟨fun t ht hok => ?_, Or.inl ⟨_, processResponse_of_not_ok firmwareMD5 hstatus⟩, fun h => ?_⟩
  · exact absurd hok (processResponse_not_ok firmwareMD5 hstatus hcode ht)
  · rw [hscheduled] at h
    cases h

theorem reported_answer {conn : HttpConnection} (hserved : Served x w conn) (firmwareMD5 : Bytes) :
    Reported x w firmwareMD5 (x.response conn) := by
  have hcode : (x.response conn).status = some .ok → (x.reply conn).code = 200 := by
    intro hok
    have hcode : ((x.reply conn).code.toNat : Int) = 200 := networkStatus_eq_ok_iff.1 hok
    exact UInt16.toNat_inj.1 (Int.ofNat_inj.1 hcode)
  refine ⟨fun t ht hok => ?_, ?_, fun hscheduled => ⟨conn, hserved, offers_of_scheduled hscheduled⟩⟩
  · by_cases hanswer : (x.response conn).status = some .ok
    · by_cases hbody : (x.response conn).promise = []
      · rw [processResponse_empty firmwareMD5 hanswer hbody] at ht
        cases ht
      · rw [processResponse_ok firmwareMD5 hanswer hbody] at ht
        obtain rfl := Outcome.returned.inj ht
        exact ⟨conn, hserved, hcode hanswer, rfl⟩
    · have hnot : (x.response conn).code ≠ 200 := fun h => hanswer (networkStatus_eq_ok_iff.2 h)
      exact absurd hok (processResponse_not_ok firmwareMD5 hanswer hnot ht)
  · by_cases hanswer : (x.response conn).status = some .ok
    · by_cases hbody : (x.response conn).promise = []
      · exact Or.inr ⟨conn, hserved, hcode hanswer, hbody⟩
      · exact Or.inl ⟨_, processResponse_ok firmwareMD5 hanswer hbody⟩
    · exact Or.inl ⟨_, processResponse_of_not_ok firmwareMD5 hanswer⟩

end Setting

end IopHal
