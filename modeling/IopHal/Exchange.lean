import IopHal.Client.Request
import IopHal.Client.Segmentation
import IopHal.Library.Transitions
import IopHal.Server.Respond
import IopHal.Server.Routing

/-!
# A client and a server with a connection between them

Both ends of an HTTP exchange are part of the Linux backend.  Here they talk to each other: the client writes its request
piece by piece, the server reads from what has arrived, calls a handler and writes the answer piece by piece, and the client
reads from what has arrived.  Each of them makes a step whenever it can (`World.step`), so that every cut of both streams
and every order of the steps is a run.

The connection delivers what is written, in order, and holds so many bytes each way: a write blocks as long as there is no
room, and takes the whole of its piece in the end.  A server that hangs up on bytes it has not read resets the connection:
the client's read fails then, or the signal of its next write ends it.
-/

namespace IopHal

open Find Feed Framing

/-! ### Messages -/

/-- The line of a header field -/
def fieldLine (f : Http.Field) : Bytes := f.1 ++ [58, 32] ++ f.2

theorem render_eq_unlines (fields : List Http.Field) : Http.render fields = unlines crlf (fields.map fieldLine) := by
  induction fields with
  | nil => rfl
  | cons f fields ih =>
    rw [List.map_cons, unlines_cons, ← ih]
    rfl

/-- A request that `sendRequest` writes: the session, what it has been told, and the method and the data. -/
structure ClientRequest where
  ctx : SessionContext
  authority : Authority
  path : Bytes
  calls : List HeaderCall
  method : Method
  data : Bytes
  path_line : IsLine path ∧ SP ∉ path
  slash : path.head? = some 47
  uri : UriOf authority path ctx.uri
  found : PathFound authority path
  headers : ctx.headers.Perm (sessionHeaders calls)
  clean : ∀ call ∈ calls, call.Clean
  keys : ∀ key ∈ ctx.headersToCollect, CR ∉ key

namespace ClientRequest

variable (q : ClientRequest)

/-- The pieces that the client writes. -/
def pieces : List Bytes := requestPieces q.ctx q.method.word q.data

theorem requestPath_eq : requestPath q.ctx.uri = q.path := by
  have hfound := q.found
  obtain ⟨t, ht⟩ : ∃ t, q.path = 47 :: t := List.head?_eq_some_iff.1 q.slash
  rcases q.uri with huri | ⟨huri, hroot⟩
  · rw [huri, ht]
    rw [ht] at hfound
    exact (requestPath_eq_iff q.authority.2.1 q.authority.2.2.2.2 t).2 hfound
  · rw [huri, requestPath_authority q.authority.2.1 q.authority.2.2.2.2, hroot]

theorem fields_line : ∀ f ∈ requestFields q.ctx.headers q.data, IsLine (fieldLine f) := by
  intro f hf
  have hsep : IsLine [58, 32] := by decide
  rcases List.mem_cons.1 hf with rfl | hf
  · have hname : IsLine (ascii "Content-Length") := by decide
    exact (hname.append hsep).append (isText_of_digits (isDigit_toDecimal _)).1
  · obtain ⟨call, hcall, hasked⟩ := asked_of_mem q.headers hf
    have hclean := q.clean call hcall
    cases call with
    | addHeader key value =>
      obtain rfl := Option.some.inj hasked
      exact (hclean.2.1.append hsep).append hclean.2.2.2
    | setAuthorization auth =>
      cases auth with
      | nil => cases hasked
      | cons c auth =>
        obtain rfl := Option.some.inj hasked
        have hname : IsLine (ascii "Authorization") := by decide
        have hbasic : IsLine (ascii "Basic ") := by decide
        exact (hname.append hsep).append (hbasic.append hclean)

/-- The request as a message. -/
def message : HttpRequest where
  method := q.method
  target := q.path
  minor := 48
  headerLines := (requestFields q.ctx.headers q.data).map fieldLine
  body := q.data
  target_ne := by
    intro h
    have hslash := q.slash
    rw [h] at hslash
    cases hslash
  target_line := q.path_line
  minor_digit := by decide
  headers_line := by
    intro l hl
    obtain ⟨f, hf, rfl⟩ := List.mem_map.1 hl
    refine ⟨?_, q.fields_line f hf⟩
    simp [fieldLine]

/-- There is always a line for the length. -/
theorem headerLines_ne : q.message.headerLines ≠ [] := by
  intro h
  cases h

theorem flatten_pieces : q.pieces.flatten = q.message.render := by
  have hsent := flatten_sent q.ctx q.method.word q.data []
  rw [sendRequest, if_neg (by simp), if_neg (not_not.2 q.ctx.opened)] at hsent
  rw [pieces, hsent, q.requestPath_eq, render_eq_unlines]
  simp [HttpRequest.render, HttpRequest.requestLine, HttpRequest.afterRequestLine, message]
  rfl

end ClientRequest

/-- An answer whose type keeps to one line, and which has no empty piece. -/
structure Reply extends Answering where
  type_ne : contentType.text ≠ []
  type_line : IsLine contentType.text
  chunks_ne : ∀ chunk ∈ chunks, chunk.text ≠ []

namespace Reply

variable (a : Reply)

/-- The text of the code -/
def codeText : Bytes := (httpCodeToString a.code.toNat).getD []

theorem httpCodeToString_eq : httpCodeToString a.code.toNat = some a.codeText ∧ a.codeText ≠ [] ∧ IsText a.codeText := by
  unfold codeText
  rcases a.known with h | h | h <;> rw [h] <;> decide

theorem code_digits : ∀ d ∈ toDecimal a.code.toNat, isDigit d := isDigit_toDecimal _

theorem fields_text : ∀ f ∈ a.fields, IsText (fieldLine f) := by
  intro f hf
  have hsep : IsText [58, 32] := by decide
  rcases List.mem_cons.1 hf with rfl | hf
  · have hname : IsText (ascii "Content-Type") := by decide
    have hcharset : IsText (ascii "; charset=ISO-8859-5") := by decide
    have htype : IsText a.contentType.text := ⟨a.type_line, a.contentType.terminated⟩
    exact (hname.append hsep).append (htype.append hcharset)
  · rcases List.mem_append.1 hf with hf | hf
    · obtain ⟨call, hcall, hheader⟩ := List.mem_filterMap.1 hf
      have hprepares := a.prepares call hcall
      cases call with
      | sendHeader name value =>
        obtain rfl := Option.some.inj hheader
        have hname : IsText name.text := ⟨hprepares.2.1, name.terminated⟩
        have hvalue : IsText value.text := ⟨hprepares.2.2, value.terminated⟩
        exact (hname.append hsep).append hvalue
      | setContentLength contentLength => cases hheader
      | send code contentType content => cases hheader
      | sendData content => cases hheader
    · cases hlength : a.contentLength with
      | none =>
        rw [hlength] at hf
        cases hf
      | some n =>
        rw [hlength, Option.elim_some, List.mem_singleton] at hf
        have hname : IsText (ascii "Content-Length") := by decide
        rw [hf]
        exact (hname.append hsep).append (isText_of_digits (isDigit_toDecimal n))

/-- The answer as a message. -/
def message : HttpResponse where
  minor := 48
  code := toDecimal a.code.toNat
  reason := a.codeText
  headerLines := a.fields.map fieldLine
  body := a.body
  minor_digit := by decide
  code_digits := a.code_digits
  code_length := by rcases a.known with h | h | h <;> rw [h] <;> decide
  code_pos := by rcases a.known with h | h | h <;> rw [h] <;> decide
  reason_text := a.httpCodeToString_eq.2.2
  headers_text := by
    intro l hl
    obtain ⟨f, hf, rfl⟩ := List.mem_map.1 hl
    refine ⟨?_, a.fields_text f hf⟩
    simp [fieldLine]

theorem status_message : (a.message.status : Int) = a.code.toNat := by
  show ((digitsValue (toDecimal a.code.toNat) : Nat) : Int) = a.code.toNat
  rw [digitsValue_toDecimal]

/-- The pieces that a handler writes, which answers so on this connection. -/
def pieces (conn : HttpConnection) : List Bytes := handlerPieces conn a.calls

theorem flatten_pieces {conn : HttpConnection} (hconn : conn.Fresh) : (a.pieces conn).flatten = a.message.render := by
  rw [pieces, Answering.handlerPieces_calls hconn.1 a.httpCodeToString_eq.1, Answering.flatten_pieces hconn,
    render_eq_unlines]
  simp [HttpResponse.render, HttpResponse.head, HttpResponse.headLines, HttpResponse.statusLine, HttpResponse.version,
    message]
  rfl

end Reply

/-! ### The two programs -/

/-- The server's side of the connection. -/
inductive ServerSide
  /-- in the read loop, behind some reads without an answer -/
  | reading (again : Nat)
  /-- the handler has been called with this connection -/
  | called (conn : HttpConnection)
  /-- no handler has been called, and none will be -/
  | gone
  deriving DecidableEq

/-- What takes part in an exchange. -/
structure Setting where
  request : ClientRequest
  server : HttpServer
  ready : server.Ready
  fd : Nat
  /-- how the handlers of the server answer -/
  reply : HttpConnection → Reply
  /-- how many bytes can be on the way to the server, and how many on the way back -/
  roomToServer : Nat
  roomToClient : Nat
  room : 0 < roomToServer ∧ 0 < roomToClient

/-- The two programs, and what is on the way between them. -/
structure World where
  /-- what of the request is not written yet -/
  unsent : List Bytes
  toServer : Bytes
  server : ServerSide
  /-- what of the answer is not written yet -/
  unanswered : List Bytes
  toClient : Bytes
  /-- the receive loop of the client, or how its call has ended -/
  client : Except (Outcome Response) Locals
  /-- what the client has read so far -/
  received : List (Chunk bufferSize)
  /-- the client has found the connection reset -/
  reset : Bool

inductive Action
  | clientWrites (n : Nat)
  | serverReads (n : Nat)
  | serverWrites (n : Nat)
  | clientReads (n : Nat)
  /-- a read of the client that finds the connection closed -/
  | clientEnds
  /-- a read of the client that finds the connection reset, behind writes that have failed -/
  | clientResets (errno : Nat)
  /-- a write of the client that finds the connection reset, and ends it by `SIGPIPE` -/
  | clientKilled

/-- A write that has got `n` bytes of its piece under way: what is on the way, and what is left to write. -/
def writeSome (room : Nat) (way : Bytes) (pieces : List Bytes) (n : Nat) : Option (Bytes × List Bytes) :=
  match pieces with
  | [] => none
  | piece :: pieces =>
    if n ≤ piece.length ∧ way.length + n ≤ room then
      some (way ++ piece.take n, if n = piece.length then pieces else piece.drop n :: pieces)
    else none

/-- The server has closed the connection. -/
def World.hungUp (w : World) : Bool :=
  match w.server with
  | .reading _ => false
  | _ => w.unanswered.isEmpty

namespace Setting

variable (x : Setting)

def start : World where
  unsent := x.request.pieces
  toServer := []
  server := .reading 0
  unanswered := []
  toClient := []
  client := .ok .start
  received := []
  reset := false

/-- What a read that delivers bytes makes of the server. -/
def serve (again : Nat) (c : Chunk maxSize) : ServerSide :=
  match x.server.handleClient (.client x.fd) (List.replicate again .again ++ [.data c]) with
  | .returned served => (served.handled.head?).elim .gone fun call => .called call.2
  | _ => .gone

/-- What the handler is going to write. -/
def answer : ServerSide → List Bytes
  | .called conn => (x.reply conn).pieces conn
  | _ => []

/-- A read of the server: some of what has arrived, or `EAGAIN`. -/
def serverReads (w : World) (n : Nat) : Option World :=
  match w.server with
  | .reading again =>
    if h : w.toServer.take n ≠ [] ∧ (w.toServer.take n).length ≤ maxSize then
      let server := x.serve again ⟨w.toServer.take n, h⟩
      some { w with toServer := w.toServer.drop n, server := server, unanswered := x.answer server }
    else if w.toServer = [] then some { w with server := .reading (again + 1) }
    else none
  | _ => none

/-- What a read makes of the client, once it has written its request. -/
def clientReads (w : World) (r : Recv) : Option World :=
  match w.client with
  | .ok s => if w.unsent = [] then some { w with client := round x.request.ctx.headersToCollect s r } else none
  | .error _ => none

def step (w : World) : Action → Option World
  | .clientWrites n =>
    (writeSome x.roomToServer w.toServer w.unsent n).map fun p => { w with toServer := p.1, unsent := p.2 }
  | .serverReads n => x.serverReads w n
  | .serverWrites n =>
    (writeSome x.roomToClient w.toClient w.unanswered n).map fun p => { w with toClient := p.1, unanswered := p.2 }
  | .clientReads n =>
    if h : w.toClient.take n ≠ [] ∧ (w.toClient.take n).length ≤ bufferSize then
      (x.clientReads w (.data ⟨w.toClient.take n, h⟩)).map fun w' =>
        { w' with toClient := w.toClient.drop n, received := w.received ++ [⟨w.toClient.take n, h⟩] }
    else none
  | .clientEnds => if w.hungUp = true ∧ w.toClient = [] then x.clientReads w .eof else none
  | .clientResets errno =>
    -- the results of the writes are not looked at
    if w.hungUp = true ∧ (w.toServer ≠ [] ∨ w.unsent ≠ []) then
      x.clientReads { w with unsent := [], reset := true } (.failed errno)
    else none
  | .clientKilled =>
    match w.client with
    | .ok _ =>
      if w.hungUp = true ∧ w.unsent ≠ [] then
        some { w with unsent := [], reset := true, client := .error .terminated }
      else none
    | .error _ => none

end Setting

end IopHal
