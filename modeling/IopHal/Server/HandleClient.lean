import IopHal.Bytes
import IopHal.Client.SendRequest
import IopHal.Library.Feed

/-!
# `HttpServer::handleClient`

The Linux HTTP server as the source runs it: a connection is accepted, one read fills a 4096-byte buffer, the request
line and the header lines are cut off by moving the rest of the buffer down, what is left is the payload, and the
handler of the route is called.  The loop comes back to its top only when a read says `EAGAIN`; after the first read
that delivers bytes it is left.  Handlers are functions on the connection: they return and their writes succeed.  The
model leaves the log lines out.
-/

namespace IopHal

open Find Feed

/-- `HttpConnection::Buffer::max_size` -/
def maxSize : Nat := 4096

structure HttpConnection where
  currentClient : Option Nat
  currentHeaders : Bytes
  currentPayload : Bytes
  currentContentLength : Option Nat
  currentRoute : Bytes
  deriving DecidableEq

/-- `HttpConnection conn; conn.currentClient = client` -/
def HttpConnection.accepted (client : Nat) : HttpConnection := ⟨some client, [], [], none, []⟩

/-- What a handler that returns leaves of the connection. -/
abbrev Callback := HttpConnection → HttpConnection

structure HttpServer where
  isHandlingRequest : Bool
  router : List (Bytes × Callback)
  notFoundHandler : Callback
  port : Nat
  maybeFD : Option Nat
  /-- the port of the address bound to, while it is there -/
  address : Option Nat

/-- The result of `accept`: negative, zero, or the descriptor of a connection. -/
inductive Accept
  | failed (errno : Nat)
  | zero
  | client (fd : Nat)

/-- The result of one `read` -/
inductive ReadResult
  | again
  | failed (errno : Nat)
  | eof
  | data (chunk : Chunk maxSize)

inductive Event
  | shouldFlush (flush : Bool)
  /-- the handler of a route, or of no route, is called -/
  | handled (route : Option Bytes) (conn : HttpConnection)
  | flush
  | close (fd : Nat)
  deriving DecidableEq

/-- What a call that returns leaves behind. -/
structure Served where
  server : HttpServer
  events : List Event

/-- The calls of handlers, with the connections they see. -/
def Served.handled (s : Served) : List (Option Bytes × HttpConnection) :=
  s.events.filterMap fun
    | .handled route conn => some (route, conn)
    | _ => none

/-! ### The read loop -/

namespace HttpServer

structure Locals where
  conn : HttpConnection
  firstLine : Bool
  isPayload : Bool
  buffer : Bytes
  signedLen : Int
  len : Nat

def Locals.start (client : Nat) : Locals where
  conn := .accepted client
  firstLine := true
  isPayload := false
  buffer := List.replicate maxSize NUL
  signedLen := 0
  len := 0

/-- `buff` -/
def Locals.buff (s : Locals) : Bytes := s.buffer.take s.len

/-- Move the buffer down by `n` bytes. -/
def Locals.shift (s : Locals) (n : Nat) : Locals :=
  { s with len := s.len - n, buffer := memmove s.buffer n (s.len - n) }

/-- `conn.reset()`, which closes the connection, at the end of a call -/
def leave (server : HttpServer) (conn : HttpConnection) (events : List Event) : Outcome Served :=
  .returned ⟨{ server with isHandlingRequest := false }, events ++ conn.currentClient.elim [] fun fd => [.close fd]⟩

/-- The route at the offset `n`, up to the next space. -/
def routeAt (n : Nat) (buff : Bytes) : Option Bytes :=
  (substr buff n).map fun rest => rest.take ((find [SP] rest).getD rest.length)

def offset (word : Bytes) : Nat := word.length + 1

/-- The first of the three methods whose word occurs in the text. -/
def methodWord (buff : Bytes) : Option Bytes :=
  if find (ascii "POST") buff ≠ none then some (ascii "POST")
  else if find (ascii "GET") buff ≠ none then some (ascii "GET")
  else if find (ascii "OPTIONS") buff ≠ none then some (ascii "OPTIONS")
  else none

def tooLong (buff : Bytes) : Bytes :=
  ascii "First: " ++ toDecimal buff.length ++ ascii " bytes don't contain newline, the path is too long\n"

def readRequestLine (server : HttpServer) (s : Locals) : Except (Outcome Served) Locals :=
  if s.len > 0 ∧ s.firstLine then
    match methodWord s.buff with
    | none => .error (server.leave s.conn [])
    | some word =>
      match routeAt (offset word) s.buff with
      | none => .error .terminated
      | some route =>
        match find crlf s.buff with
        | none => .error (.panicked (tooLong s.buff))
        | some newlineIndex =>
          .ok { s.shift (newlineIndex + 2) with conn.currentRoute := route, firstLine := false }
  else .ok s

def skipHeaders (s : Locals) : Except (Outcome Served) Locals :=
  if _h : s.len > 0 ∧ !s.isPayload then
    match find crlf s.buff with
    | none => .error (.panicked (ascii "Bad code"))
    | some newlineIndex =>
      if some newlineIndex = find (crlf ++ crlf) s.buff then
        skipHeaders { s.shift (newlineIndex + 4) with isPayload := true }
      else skipHeaders (s.shift (newlineIndex + 2))
  else .ok s
termination_by s.len
decreasing_by all_goals (simp only [Locals.shift]; omega)

/-- Call the handler of the route and leave. -/
def dispatch (server : HttpServer) (conn : HttpConnection) : Outcome Served :=
  let (route, handler) := match server.router.lookup conn.currentRoute with
    | some handler => (some conn.currentRoute, handler)
    | none => (none, server.notFoundHandler)
  server.leave (handler conn) [.shouldFlush false, .handled route conn, .shouldFlush true, .flush]

/-- A round of the loop from the point where a read has returned without an error. -/
def afterRead (server : HttpServer) (s : Locals) : Outcome Served :=
  if s.firstLine ∧ s.len = 0 then server.leave s.conn []
  else if s.len = 0 then server.leave s.conn []
  else if s.len > maxSize then .undefined
  else
    match (server.readRequestLine s).bind skipHeaders with
    | .error o => o
    | .ok s => server.dispatch { s.conn with currentPayload := s.conn.currentPayload ++ s.buff }

/-- A round of the loop.  A full buffer is not read into: `signedLen` keeps the value of the last read. -/
def round (server : HttpServer) (s : Locals) (r : ReadResult) : Except (Outcome Served) Locals :=
  if s.len < maxSize then
    match r with
    | .again => .ok { s with signedLen := -1 }
    | .failed _ => .error (server.leave s.conn [])
    | .eof => .error (server.afterRead { s with signedLen := 0 })
    | .data c => .error (server.afterRead
        { s with
          buffer := s.buffer.take s.len ++ c.1 ++ s.buffer.drop (s.len + c.1.length)
          signedLen := c.1.length
          len := s.len + c.1.length })
  else .error (server.afterRead { s with len := (s.len + (s.signedLen % 2 ^ 64).toNat) % 2 ^ 64 })

def handleClient (server : HttpServer) (accept : Accept) (reads : List ReadResult) : Outcome Served :=
  if server.address = none then .returned ⟨server, []⟩
  else if server.isHandlingRequest then .panicked (ascii "Already handling a request")
  else if server.maybeFD = none then .panicked (ascii "FD not found")
  else
    match accept with
    | .failed _ => .returned ⟨{ server with isHandlingRequest := false }, []⟩
    | .zero => .returned ⟨{ server with isHandlingRequest := false }, []⟩
    | .client fd =>
      match feed (round { server with isHandlingRequest := true }) (.start fd) reads with
      | .error o => o
      | .ok _ => .waiting

end HttpServer

end IopHal
