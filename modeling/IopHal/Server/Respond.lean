import IopHal.Library.Http
import IopHal.Message
import IopHal.Server.HandleClient

/-!
# Answering a request

The server's `send`, which waits while the socket is not ready and insists on a write that takes something, and the
calls with which a handler answers: `sendHeader`, `setContentLength`, `HttpConnection::send` and `sendData`.  A run of
calls stops at the first panic.  The model leaves the log lines and the sleeping out.

`respond_iff` is the round trip, over a socket that takes all it is given.  Only some of the callers of `send` keep an
empty text from it: the response is read back exactly if neither the type nor a chunk is empty, and if the type keeps to
one line.
-/

namespace IopHal

open Find

/-- The result of one `write`: -1 with an `errno`, or a number of bytes. -/
inductive WriteResult
  | failed (errno : Nat)
  | accepted (n : Nat)
  deriving DecidableEq

/-- `EAGAIN`, which is `EWOULDBLOCK` too -/
def EAGAIN : Nat := 11

/-- The socket of a connection: what the writes to come will say, the `errno`, the pieces that `send` was called with,
and the bytes that the peer has received. -/
structure Socket where
  results : List WriteResult
  errno : Nat
  passed : List Bytes
  received : Bytes
  deriving DecidableEq

/-- What writing leaves of a socket, and how it ends. -/
abbrev Writing (ρ : Type) := Socket × Outcome ρ

def Writing.bind {ρ σ : Type} (x : Writing ρ) (f : Socket → ρ → Writing σ) : Writing σ :=
  match x with
  | (s, .returned r) => f s r
  | (s, .panicked msg) => (s, .panicked msg)
  | (s, .terminated) => (s, .terminated)
  | (s, .undefined) => (s, .undefined)
  | (s, .waiting) => (s, .waiting)

@[simp]
theorem Writing.bind_returned {ρ σ : Type} (s : Socket) (r : ρ) (f : Socket → ρ → Writing σ) :
    Writing.bind (s, .returned r) f = f s r := rfl

theorem Writing.bind_assoc {ρ σ τ : Type} (x : Writing ρ) (f : Socket → ρ → Writing σ) (g : Socket → σ → Writing τ) :
    (x.bind f).bind g = x.bind fun s r => (f s r).bind g := by
  obtain ⟨s, o⟩ := x
  cases o <;> rfl

theorem Writing.returned_of_bind {ρ σ : Type} {x : Writing ρ} {f : Socket → ρ → Writing σ} {t : σ}
    (h : (x.bind f).2 = .returned t) : ∃ r, x.2 = .returned r := by
  obtain ⟨s, o⟩ := x
  cases o with
  | returned r => exact ⟨r, rfl⟩
  | panicked msg => cases h
  | terminated => cases h
  | undefined => cases h
  | waiting => cases h

section Calls

variable (strerror : Nat → Bytes)

/-! ### `send` -/

def sendFailed (sent : Bytes) (errno : Nat) (msg : Bytes) : Bytes :=
  ascii "Sent failed (" ++ sent ++ ascii ") [" ++ toDecimal errno ++ ascii "] " ++ strerror errno ++ ascii ": " ++
    cview msg

/-- The loop of `send`, with its `count`, the `errno` and the results of the writes to come. -/
def Socket.sendLoop (msg : Bytes) (s : Socket) : Nat → Nat → List WriteResult → Writing Unit
  | _, errno, [] => ({ s with results := [], errno := errno }, .waiting)
  | count, _, .failed errno :: results =>
    if errno = EAGAIN then
      if count < 1000000 then sendLoop msg s (count + 1) errno results
      else ({ s with results := results, errno := errno }, .panicked (ascii "Waited too long"))
    else ({ s with results := results, errno := errno }, .panicked (sendFailed strerror (ascii "-1") errno msg))
  | _, errno, .accepted n :: results =>
    if n > 0 then ({ s with results := results, errno := errno, received := s.received ++ msg.take n }, .returned ())
    else ({ s with results := results, errno := errno }, .panicked (sendFailed strerror (ascii "0") errno msg))

def Socket.send (s : Socket) (msg : Bytes) : Writing Unit :=
  Socket.sendLoop strerror msg { s with passed := s.passed ++ [msg] } 0 s.errno s.results

/-- One `send` after the other -/
def Socket.sendAll : Socket → List Bytes → Writing Unit
  | s, [] => (s, .returned ())
  | s, msg :: msgs => (s.send strerror msg).bind fun s _ => sendAll s msgs

/-! ### The calls of a handler -/

def httpCodeToString (code : Nat) : Option Bytes :=
  if code = 200 then some (ascii "OK")
  else if code = 302 then some (ascii "Found")
  else if code = 404 then some (ascii "Not Found")
  else none

namespace HttpConnection

def noActiveClient : Outcome Unit := .panicked (ascii "No active client")

/-- The pieces that `HttpConnection::send` hands to `send`, in order. -/
def sendPieces (conn : HttpConnection) (code : UInt16) (codeText contentType content : Bytes) : List Bytes :=
  [ascii "HTTP/1.0 ", toDecimal code.toNat, ascii " ", codeText, crlf, ascii "Content-Type: ", contentType,
    ascii "; charset=ISO-8859-5\r\n"] ++ (if conn.currentHeaders.length > 0 then [conn.currentHeaders] else []) ++
    (conn.currentContentLength.elim [] fun n => [ascii "Content-Length: ", toDecimal n, crlf]) ++ [crlf] ++
    if content.length > 0 then [content] else []

def send (conn : HttpConnection) (s : Socket) (code : UInt16) (contentType content : StaticString) : Writing Unit :=
  match conn.currentClient with
  | none => (s, noActiveClient)
  | some _ =>
    match httpCodeToString code.toNat with
    | none => (s, .panicked (ascii "Http code not known: " ++ toDecimal code.toNat))
    | some codeText => s.sendAll strerror (conn.sendPieces code codeText contentType.text content.text)

def setContentLength (conn : HttpConnection) (contentLength : Nat) : HttpConnection :=
  { conn with currentContentLength := some contentLength }

def sendHeader (conn : HttpConnection) (name value : StaticString) : HttpConnection :=
  { conn with currentHeaders := conn.currentHeaders ++ (name.text ++ ascii ": " ++ value.text ++ ascii "\r\n") }

def sendData (conn : HttpConnection) (s : Socket) (content : StaticString) : Writing Unit :=
  match conn.currentClient with
  | none => (s, noActiveClient)
  | some _ => s.send strerror content.text

end HttpConnection

/-- A call of a handler on its connection. -/
inductive HandlerCall
  | sendHeader (name value : StaticString)
  | setContentLength (contentLength : Nat)
  | send (code : UInt16) (contentType content : StaticString)
  | sendData (content : StaticString)

def HandlerCall.perform (conn : HttpConnection) (s : Socket) : HandlerCall → Writing HttpConnection
  | sendHeader name value => (s, .returned (conn.sendHeader name value))
  | setContentLength contentLength => (s, .returned (conn.setContentLength contentLength))
  | send code contentType content => (conn.send strerror s code contentType content).bind fun s _ => (s, .returned conn)
  | sendData content => (conn.sendData strerror s content).bind fun s _ => (s, .returned conn)

/-- A handler that makes some calls. -/
def runHandler (conn : HttpConnection) (s : Socket) : List HandlerCall → Writing HttpConnection
  | [] => (s, .returned conn)
  | call :: calls => (call.perform strerror conn s).bind fun s conn => runHandler conn s calls

/-! ### One piece after the other -/

theorem Socket.sendAll_append (s : Socket) (msgs msgs' : List Bytes) :
    s.sendAll strerror (msgs ++ msgs') = (s.sendAll strerror msgs).bind fun s _ => s.sendAll strerror msgs' := by
  induction msgs generalizing s with
  | nil => rfl
  | cons msg msgs ih =>
    rw [List.cons_append, sendAll, sendAll, Writing.bind_assoc]
    congr 1
    funext s _
    exact ih s

/-- The results of writes that take all they are given. -/
def completely (msgs : List Bytes) : List WriteResult := msgs.map fun msg => .accepted msg.length

theorem Socket.send_completely {s : Socket} {msg : Bytes} {results : List WriteResult} (hmsg : msg ≠ [])
    (h : s.results = .accepted msg.length :: results) :
    s.send strerror msg =
      ({ s with results := results, passed := s.passed ++ [msg], received := s.received ++ msg }, .returned ()) := by
  rw [send, h, sendLoop, if_pos (List.length_pos_iff.2 hmsg), List.take_length]

/-- An empty piece is no write that `send` allows. -/
theorem Socket.send_empty {s : Socket} {results : List WriteResult} (h : s.results = .accepted 0 :: results) :
    s.send strerror [] = ({ s with results := results, passed := s.passed ++ [[]] },
      .panicked (sendFailed strerror (ascii "0") s.errno [])) := by
  rw [send, h, sendLoop, if_neg (Nat.lt_irrefl 0)]

theorem Socket.sendAll_completely {s : Socket} {msgs : List Bytes} {results : List WriteResult}
    (h : s.results = completely msgs ++ results) (hmsgs : [] ∉ msgs) :
    s.sendAll strerror msgs = ({ s with
      results := results, passed := s.passed ++ msgs, received := s.received ++ msgs.flatten }, .returned ()) := by
  induction msgs generalizing s with
  | nil =>
    have hs : s.results = results := h
    rw [sendAll, List.flatten_nil, List.append_nil, List.append_nil, ← hs]
  | cons msg msgs ih =>
    rw [List.mem_cons, not_or] at hmsgs
    rw [sendAll, send_completely strerror (Ne.symm hmsgs.1) h, Writing.bind_returned, ih rfl hmsgs.2]
    simp

theorem Socket.sendAll_empty {s : Socket} {msgs : List Bytes} {results : List WriteResult}
    (h : s.results = completely msgs ++ results) (hmsgs : [] ∈ msgs) : (s.sendAll strerror msgs).2 ≠ .returned () := by
  induction msgs generalizing s with
  | nil => cases hmsgs
  | cons msg msgs ih =>
    rw [sendAll]
    by_cases hmsg : msg = []
    · subst hmsg
      rw [send_empty strerror h]
      intro hreturned
      cases hreturned
    · rw [send_completely strerror hmsg h, Writing.bind_returned]
      exact ih rfl (List.mem_of_ne_of_mem (Ne.symm hmsg) hmsgs)

/-! ### The pieces of a run -/

/-- What a call hands to `send`, if it gets that far. -/
def HandlerCall.pieces (conn : HttpConnection) : HandlerCall → Option (List Bytes)
  | sendHeader _ _ => some []
  | setContentLength _ => some []
  | send code contentType content => conn.currentClient.bind fun _ => (httpCodeToString code.toNat).map fun codeText =>
      conn.sendPieces code codeText contentType.text content.text
  | sendData content => conn.currentClient.map fun _ => [content.text]

/-- The connection behind a call -/
def HandlerCall.leaves (conn : HttpConnection) : HandlerCall → HttpConnection
  | sendHeader name value => conn.sendHeader name value
  | setContentLength contentLength => conn.setContentLength contentLength
  | send _ _ _ => conn
  | sendData _ => conn

/-- The pieces that some calls hand to `send`, as far as they get. -/
def handlerPieces (conn : HttpConnection) : List HandlerCall → List Bytes
  | [] => []
  | call :: calls => (call.pieces conn).elim [] fun msgs => msgs ++ handlerPieces (call.leaves conn) calls

theorem HandlerCall.perform_some {conn : HttpConnection} {call : HandlerCall} {msgs : List Bytes}
    (h : call.pieces conn = some msgs) (s : Socket) :
    call.perform strerror conn s = (s.sendAll strerror msgs).bind fun s _ => (s, .returned (call.leaves conn)) := by
  cases call with
  | sendHeader name value =>
    obtain rfl := Option.some.inj h
    rfl
  | setContentLength contentLength =>
    obtain rfl := Option.some.inj h
    rfl
  | send code contentType content =>
    obtain ⟨fd, hfd, h⟩ := Option.bind_eq_some_iff.1 h
    obtain ⟨codeText, htext, rfl⟩ := Option.map_eq_some_iff.1 h
    rw [perform, HttpConnection.send, hfd]
    dsimp only
    rw [htext]
    rfl
  | sendData content =>
    obtain ⟨fd, hfd, rfl⟩ := Option.map_eq_some_iff.1 h
    rw [perform, HttpConnection.sendData, hfd, Socket.sendAll, Writing.bind_assoc]
    rfl

/-- Without an active client or with a code that has no text, a call stops before it writes. -/
theorem HandlerCall.perform_none {conn : HttpConnection} {call : HandlerCall} (h : call.pieces conn = none)
    (s : Socket) : ∃ msg, call.perform strerror conn s = (s, .panicked msg) := by
  cases call with
  | sendHeader name value => cases h
  | setContentLength contentLength => cases h
  | send code contentType content =>
    cases hfd : conn.currentClient with
    | none => exact ⟨_, by rw [perform, HttpConnection.send, hfd]; rfl⟩
    | some fd =>
      rw [pieces, hfd, Option.bind_some, Option.map_eq_none_iff] at h
      exact ⟨_, by rw [perform, HttpConnection.send, hfd]; dsimp only; rw [h]; rfl⟩
  | sendData content =>
    have hfd : conn.currentClient = none := Option.map_eq_none_iff.1 h
    exact ⟨_, by rw [perform, HttpConnection.sendData, hfd]; rfl⟩

/-- A run leaves the socket as its pieces do. -/
theorem runHandler_fst (conn : HttpConnection) (s : Socket) (calls : List HandlerCall) :
    (runHandler strerror conn s calls).1 = (s.sendAll strerror (handlerPieces conn calls)).1 := by
  induction calls generalizing conn s with
  | nil => rfl
  | cons call calls ih =>
    cases hpieces : call.pieces conn with
    | none =>
      obtain ⟨msg, hstop⟩ := HandlerCall.perform_none strerror hpieces s
      rw [runHandler, hstop, handlerPieces, hpieces]
      rfl
    | some msgs =>
      rw [runHandler, HandlerCall.perform_some strerror hpieces, handlerPieces, hpieces, Option.elim_some,
        Socket.sendAll_append, Writing.bind_assoc]
      obtain ⟨s', o⟩ := s.sendAll strerror msgs
      cases o with
      | returned u => exact ih _ s'
      | panicked msg => rfl
      | terminated => rfl
      | undefined => rfl
      | waiting => rfl

/-- A code, if it is one that `send` is called with, is known. -/
def HandlerCall.Known : HandlerCall → Prop
  | send code _ _ => (httpCodeToString code.toNat).isSome
  | _ => True

/-- With a client and known codes, a run ends as the writing of its pieces does. -/
theorem runHandler_known {conn : HttpConnection} {calls : List HandlerCall} (hconn : conn.currentClient.isSome)
    (h : ∀ call ∈ calls, call.Known) (s : Socket) :
    runHandler strerror conn s calls = (s.sendAll strerror (handlerPieces conn calls)).bind fun s _ =>
      (s, .returned (calls.foldl HandlerCall.leaves conn)) := by
  induction calls generalizing conn s with
  | nil => rfl
  | cons call calls ih =>
    rw [List.forall_mem_cons] at h
    obtain ⟨fd, hfd⟩ := Option.isSome_iff_exists.1 hconn
    have hleaves : (call.leaves conn).currentClient.isSome := by
      cases call <;> exact hconn
    obtain ⟨msgs, hmsgs⟩ : ∃ msgs, call.pieces conn = some msgs := by
      cases call with
      | sendHeader name value => exact ⟨_, rfl⟩
      | setContentLength contentLength => exact ⟨_, rfl⟩
      | send code contentType content =>
        obtain ⟨codeText, htext⟩ := Option.isSome_iff_exists.1 h.1
        exact ⟨_, by rw [HandlerCall.pieces, hfd, Option.bind_some, htext, Option.map_some]⟩
      | sendData content => exact ⟨_, by rw [HandlerCall.pieces, hfd, Option.map_some]⟩
    rw [runHandler, HandlerCall.perform_some strerror hmsgs, handlerPieces, hmsgs, Option.elim_some,
      Socket.sendAll_append, Writing.bind_assoc, Writing.bind_assoc]
    congr 1
    funext s _
    exact ih hleaves h.2 s

end Calls

/-! ### A response -/

def HandlerCall.header : HandlerCall → Option Http.Field
  | sendHeader name value => some (name.text, value.text)
  | _ => none

def HandlerCall.contentLength : HandlerCall → Option Nat
  | setContentLength contentLength => some contentLength
  | _ => none

/-- A call that may stand in front of `send`.  The name and the value keep to one line, and the name has no colon. -/
def HandlerCall.Prepares : HandlerCall → Prop
  | sendHeader name value => COLON ∉ name.text ∧ IsLine name.text ∧ IsLine value.text
  | setContentLength _ => True
  | _ => False

/-- What a handler answers with: the calls in front of `send`, its arguments, and the chunks behind it. -/
structure Answering where
  before : List HandlerCall
  code : UInt16
  contentType : StaticString
  content : StaticString
  chunks : List StaticString
  prepares : ∀ call ∈ before, call.Prepares
  known : code = 200 ∨ code = 302 ∨ code = 404

namespace Answering

variable (a : Answering)

def calls : List HandlerCall :=
  a.before ++ .send a.code a.contentType a.content :: a.chunks.map HandlerCall.sendData

/-- The length that was set last. -/
def contentLength : Option Nat := (a.before.filterMap HandlerCall.contentLength).getLast?

def typeField : Http.Field := (ascii "Content-Type", a.contentType.text ++ ascii "; charset=ISO-8859-5")

/-- The header fields of the response. -/
def fields : List Http.Field :=
  a.typeField :: (a.before.filterMap HandlerCall.header ++
    a.contentLength.elim [] fun n => [(ascii "Content-Length", toDecimal n)])

def body : Bytes := a.content.text ++ (a.chunks.map StaticString.text).flatten

/-- The handler completes, and the bytes are read as its response. -/
def Read (x : Writing HttpConnection) : Prop :=
  (∃ conn, x.2 = .returned conn) ∧ ∃ m, Http.readMessage x.1.received = some m ∧ m.first = ascii "HTTP/1.0" ∧
    digitsValue m.second = a.code.toNat ∧ m.fields = a.fields ∧ m.body = a.body

end Answering

/-- The connection that a handler gets. -/
def HttpConnection.Fresh (conn : HttpConnection) : Prop :=
  conn.currentClient.isSome ∧ conn.currentHeaders = [] ∧ conn.currentContentLength = none

theorem leaves_prepared {calls : List HandlerCall} (h : ∀ call ∈ calls, call.Prepares) (conn : HttpConnection) :
    calls.foldl HandlerCall.leaves conn = { conn with
      currentHeaders := conn.currentHeaders ++ Http.render (calls.filterMap HandlerCall.header)
      currentContentLength :=
        ((calls.filterMap HandlerCall.contentLength).getLast?).or conn.currentContentLength } := by
  induction calls generalizing conn with
  | nil =>
    rw [List.foldl_nil, List.filterMap_nil, List.filterMap_nil, show Http.render [] = [] from rfl, List.append_nil]
    rfl
  | cons call calls ih =>
    rw [List.forall_mem_cons] at h
    rw [List.foldl_cons, ih h.2]
    cases call with
    | sendHeader name value =>
      have hline : ascii "\r\n" = Http.lineEnd := rfl
      have hsep : ascii ": " = [58, 32] := rfl
      simp [HandlerCall.leaves, HttpConnection.sendHeader, HandlerCall.header, HandlerCall.contentLength, Http.render,
        Http.renderField, hline, hsep]
    | setContentLength contentLength =>
      have hlast : ((HandlerCall.setContentLength contentLength :: calls).filterMap
          HandlerCall.contentLength).getLast? =
          some (((calls.filterMap HandlerCall.contentLength).getLast?).getD contentLength) := List.getLast?_cons
      rw [hlast]
      cases (calls.filterMap HandlerCall.contentLength).getLast? <;> rfl
    | send code contentType content => exact absurd h.1 not_false
    | sendData content => exact absurd h.1 not_false

theorem handlerPieces_prepared {calls : List HandlerCall} (h : ∀ call ∈ calls, call.Prepares) (conn : HttpConnection)
    (rest : List HandlerCall) :
    handlerPieces conn (calls ++ rest) = handlerPieces (calls.foldl HandlerCall.leaves conn) rest := by
  induction calls generalizing conn with
  | nil => rfl
  | cons call calls ih =>
    rw [List.forall_mem_cons] at h
    have hcall : call.pieces conn = some [] := by
      cases call with
      | sendHeader name value => rfl
      | setContentLength contentLength => rfl
      | send code contentType content => exact absurd h.1 not_false
      | sendData content => exact absurd h.1 not_false
    rw [List.cons_append, handlerPieces, hcall, Option.elim_some, List.nil_append, ih h.2]
    rfl

theorem handlerPieces_chunks {conn : HttpConnection} (hconn : conn.currentClient.isSome) (chunks : List StaticString) :
    handlerPieces conn (chunks.map HandlerCall.sendData) = chunks.map StaticString.text := by
  obtain ⟨fd, hfd⟩ := Option.isSome_iff_exists.1 hconn
  induction chunks with
  | nil => rfl
  | cons chunk chunks ih =>
    rw [List.map_cons, List.map_cons, handlerPieces, HandlerCall.pieces, hfd, Option.map_some, Option.elim_some,
      HandlerCall.leaves, ih]
    rfl

/-! ### The round trip -/

theorem httpCodeToString_known {code : UInt16} (h : code = 200 ∨ code = 302 ∨ code = 404) :
    ∃ codeText, httpCodeToString code.toNat = some codeText ∧ codeText ≠ [] ∧ IsLine codeText := by
  rcases h with rfl | rfl | rfl
  · exact ⟨ascii "OK", rfl, by decide, by decide⟩
  · exact ⟨ascii "Found", rfl, by decide, by decide⟩
  · exact ⟨ascii "Not Found", rfl, by decide, by decide⟩

theorem toDecimal_ne_nil (n : Nat) : toDecimal n ≠ [] := by
  intro h
  exact Nat.toDigits_ne_nil (List.map_eq_nil_iff.1 h)

namespace Answering

variable (a : Answering)

/-- The pieces of a response -/
def pieces (conn : HttpConnection) (codeText : Bytes) : List Bytes :=
  (a.before.foldl HandlerCall.leaves conn).sendPieces a.code codeText a.contentType.text a.content.text ++
    a.chunks.map StaticString.text

variable {a} {conn : HttpConnection} {codeText : Bytes}

theorem handlerPieces_calls (hconn : conn.currentClient.isSome) (hcode : httpCodeToString a.code.toNat = some codeText) :
    handlerPieces conn a.calls = a.pieces conn codeText := by
  have hclient : (a.before.foldl HandlerCall.leaves conn).currentClient.isSome := by
    rw [leaves_prepared a.prepares]
    exact hconn
  obtain ⟨fd, hfd⟩ := Option.isSome_iff_exists.1 hclient
  rw [calls, handlerPieces_prepared a.prepares, handlerPieces, HandlerCall.pieces, hfd, Option.bind_some, hcode,
    Option.map_some, Option.elim_some, HandlerCall.leaves, handlerPieces_chunks hclient]
  rfl

/-- The test that keeps an empty text from `send`. -/
theorem nil_not_mem_guard (text : Bytes) : [] ∉ if text.length > 0 then [text] else [] := by
  intro hmem
  split at hmem
  · rename_i htext
    rw [List.mem_singleton] at hmem
    rw [← hmem] at htext
    exact Nat.lt_irrefl 0 htext
  · cases hmem

theorem flatten_guard (text : Bytes) : (if text.length > 0 then [text] else []).flatten = text := by
  cases text with
  | nil => rfl
  | cons c text =>
    rw [if_pos (List.length_pos_iff.2 (List.cons_ne_nil c text)), List.flatten_singleton]

/-- Only the type and the chunks can be empty pieces. -/
theorem nil_mem_pieces (hcode : codeText ≠ []) :
    [] ∈ a.pieces conn codeText ↔ a.contentType.text = [] ∨ ∃ chunk ∈ a.chunks, chunk.text = [] := by
  have hnumber : ∀ n, ([] : Bytes) ≠ toDecimal n := fun n => Ne.symm (toDecimal_ne_nil n)
  have hlength : ∀ length : Option Nat,
      [] ∉ length.elim [] fun n => [ascii "Content-Length: ", toDecimal n, crlf] := by
    intro length
    cases length with
    | none => exact List.not_mem_nil
    | some n =>
      rw [Option.elim_some, List.mem_cons, List.mem_cons, List.mem_singleton, not_or, not_or]
      exact ⟨by decide, hnumber n, by decide⟩
  have hfirst : [] ∈ [ascii "HTTP/1.0 ", toDecimal a.code.toNat, ascii " ", codeText, crlf, ascii "Content-Type: ",
      a.contentType.text, ascii "; charset=ISO-8859-5\r\n"] ↔ a.contentType.text = [] := by
    constructor
    · intro hmem
      simp only [List.mem_cons, List.not_mem_nil, or_false] at hmem
      rcases hmem with hmem | hmem | hmem | hmem | hmem | hmem | hmem | hmem
      · exact absurd hmem (by decide)
      · exact absurd hmem (hnumber _)
      · exact absurd hmem (by decide)
      · exact absurd hmem.symm hcode
      · exact absurd hmem (by decide)
      · exact absurd hmem (by decide)
      · exact hmem.symm
      · exact absurd hmem (by decide)
    · intro htype
      rw [htype]
      simp only [List.mem_cons, true_or, or_true]
  have hchunks : [] ∈ a.chunks.map StaticString.text ↔ ∃ chunk ∈ a.chunks, chunk.text = [] := List.mem_map
  have hend : [] ∉ [crlf] := by decide
  rw [pieces, HttpConnection.sendPieces, List.mem_append, List.mem_append, List.mem_append, List.mem_append,
    List.mem_append, hfirst, hchunks]
  constructor
  · rintro (((((htype | hmem) | hmem) | hmem) | hmem) | hmem)
    · exact Or.inl htype
    · exact absurd hmem (nil_not_mem_guard _)
    · exact absurd hmem (hlength _)
    · exact absurd hmem hend
    · exact absurd hmem (nil_not_mem_guard _)
    · exact Or.inr hmem
  · rintro (htype | hmem)
    · exact Or.inl (Or.inl (Or.inl (Or.inl (Or.inl htype))))
    · exact Or.inr hmem

theorem flatten_pieces (hconn : conn.Fresh) (codeText : Bytes) :
    (a.pieces conn codeText).flatten =
      (ascii "HTTP/1.0" ++ 32 :: (toDecimal a.code.toNat ++ 32 :: codeText)) ++ Http.lineEnd ++
        (Http.render a.fields ++ Http.lineEnd ++ a.body) := by
  have hlength : ((a.contentLength.or none).elim [] fun n => [ascii "Content-Length: ", toDecimal n, crlf]).flatten =
      Http.render (a.contentLength.elim [] fun n => [(ascii "Content-Length", toDecimal n)]) := by
    cases a.contentLength with
    | none => rfl
    | some n =>
      rw [Option.some_or, Option.elim_some, Option.elim_some, Http.render, List.flatMap_singleton, Http.renderField,
        List.flatten_cons, List.flatten_cons, List.flatten_singleton, List.append_assoc]
      rfl
  have hfields : Http.render a.fields = Http.renderField a.typeField ++
      (Http.render (a.before.filterMap HandlerCall.header) ++
        Http.render (a.contentLength.elim [] fun n => [(ascii "Content-Length", toDecimal n)])) := by
    rw [Http.render, fields, List.flatMap_cons, List.flatMap_append]
    rfl
  have hversion : ascii "HTTP/1.0 " = ascii "HTTP/1.0" ++ [32] := rfl
  have htype : ascii "Content-Type: " = ascii "Content-Type" ++ [58, 32] := rfl
  have hcharset : ascii "; charset=ISO-8859-5\r\n" = ascii "; charset=ISO-8859-5" ++ Http.lineEnd := rfl
  have hsp : ascii " " = [32] := rfl
  rw [pieces, leaves_prepared a.prepares, HttpConnection.sendPieces, hconn.2.1, hconn.2.2, List.nil_append,
    List.flatten_append, List.flatten_append, List.flatten_append, List.flatten_append, List.flatten_append,
    flatten_guard, flatten_guard]
  rw [← contentLength, hlength, hfields, Http.renderField, typeField, body, hversion, htype, hcharset, hsp]
  simp only [List.flatten_cons, List.flatten_nil, List.append_nil, List.append_assoc, List.cons_append,
    List.nil_append]

theorem typeField_broken_iff :
    Http.lineEnd <:+: a.typeField.1 ++ [58, 32] ++ a.typeField.2 ↔ crlf <:+: a.contentType.text := by
  have hname : 13 ∉ ascii "Content-Type" ++ [58, 32] := by decide
  have hcharset : ascii "; charset=ISO-8859-5" = 59 :: ascii " charset=ISO-8859-5" := rfl
  rw [typeField, Http.lineEnd_infix_skip_iff hname, hcharset]
  exact Http.lineEnd_infix_append_iff (by decide) (by decide)

/-- All header lines can be read if the type keeps to one line. -/
theorem readable_fields (h : ¬ crlf <:+: a.contentType.text) : ∀ f ∈ a.fields, Http.Readable f := by
  intro f hf
  rcases List.mem_cons.1 hf with rfl | hf
  · have hname : 58 ∉ ascii "Content-Type" := by decide
    exact ⟨hname, fun hbroken => h (typeField_broken_iff.1 hbroken)⟩
  · rcases List.mem_append.1 hf with hf | hf
    · obtain ⟨call, hcall, hheader⟩ := List.mem_filterMap.1 hf
      have hprepares := a.prepares call hcall
      cases call with
      | sendHeader name value =>
        obtain rfl := Option.some.inj hheader
        exact Http.readable_of_lines hprepares.1 hprepares.2.1.1 hprepares.2.2.1
      | setContentLength contentLength => cases hheader
      | send code contentType content => cases hheader
      | sendData content => cases hheader
    · cases hlength : a.contentLength with
      | none =>
        rw [hlength] at hf
        cases hf
      | some n =>
        rw [hlength, Option.elim_some, List.mem_singleton] at hf
        rw [hf]
        exact Http.readable_of_lines (by decide) (by decide) (isText_of_digits (isDigit_toDecimal n)).1.1

/-- What is read from the pieces of a response, whatever its type. -/
theorem readMessage_pieces {codeText : Bytes} (hconn : conn.Fresh) (hcode : IsLine codeText) :
    (∃ m, Http.readMessage (a.pieces conn codeText).flatten = some m ∧ m.first = ascii "HTTP/1.0" ∧
      digitsValue m.second = a.code.toNat ∧ m.fields = a.fields ∧ m.body = a.body) ↔
      ¬ crlf <:+: a.contentType.text := by
  have hdigits : IsText (toDecimal a.code.toNat) := isText_of_digits (isDigit_toDecimal _)
  have hsp : SP ∉ toDecimal a.code.toNat := fun h => absurd (isDigit_toDecimal _ _ h) (by decide)
  have hline : ¬ Http.lineEnd <:+: ascii "HTTP/1.0" ++ 32 :: (toDecimal a.code.toNat ++ 32 :: codeText) := by
    have hword : IsLine (ascii "HTTP/1.0") := by decide
    have hspace : IsLine [SP] := by decide
    have h := hword.append (hspace.append (hdigits.1.append (hspace.append hcode)))
    exact Http.not_lineEnd_inside h.1
  rw [flatten_pieces hconn]
  constructor
  · rintro ⟨m, hm, -, -, hfields, -⟩ hbroken
    obtain ⟨l, hl, hm⟩ := Option.bind_eq_some_iff.1 hm
    obtain ⟨first, -, hm⟩ := Option.bind_eq_some_iff.1 hm
    obtain ⟨second, -, hm⟩ := Option.bind_eq_some_iff.1 hm
    obtain ⟨r, hr, rfl⟩ := Option.map_eq_some_iff.1 hm
    rw [Http.readLine_append hline, Option.some.injEq] at hl
    rw [← hl] at hr
    have hsplit : Http.render a.fields ++ Http.lineEnd ++ a.body = a.typeField.1 ++ [58, 32] ++ a.typeField.2 ++
        (Http.lineEnd ++ (Http.render a.fields.tail ++ Http.lineEnd ++ a.body)) := by
      rw [fields, List.tail_cons, Http.render, List.flatMap_cons, Http.renderField]
      simp only [Http.render, List.append_assoc]
    dsimp only at hr hfields
    rw [hsplit] at hr
    apply Http.readFields_broken (typeField_broken_iff.2 hbroken) hr
    rw [hfields, fields, List.head?_cons]
  · intro h
    have hversion : SP ∉ ascii "HTTP/1.0" := by decide
    exact ⟨_, Http.readMessage_render hversion hsp hline (readable_fields h) a.body, rfl, digitsValue_toDecimal _, rfl,
      rfl⟩

end Answering

/-- A handler completes and is read as it answered exactly if no piece of the answer is empty and its type keeps to one
line. -/
theorem respond_iff (strerror : Nat → Bytes) (a : Answering) {conn : HttpConnection} (hconn : conn.Fresh) {s : Socket}
    (hs : s.results = completely (handlerPieces conn a.calls)) (hreceived : s.received = []) :
    a.Read (runHandler strerror conn s a.calls) ↔
      a.contentType.text ≠ [] ∧ ¬ crlf <:+: a.contentType.text ∧ ∀ chunk ∈ a.chunks, chunk.text ≠ [] := by
  obtain ⟨codeText, hcode, hne, hline⟩ := httpCodeToString_known a.known
  have hknown : ∀ call ∈ a.calls, call.Known := by
    intro call hcall
    rcases List.mem_append.1 hcall with hcall | hcall
    · have hprepares := a.prepares call hcall
      cases call with
      | sendHeader name value => trivial
      | setContentLength contentLength => trivial
      | send code contentType content => exact absurd hprepares not_false
      | sendData content => trivial
    · rcases List.mem_cons.1 hcall with rfl | hcall
      · exact Option.isSome_iff_exists.2 ⟨codeText, hcode⟩
      · obtain ⟨chunk, -, rfl⟩ := List.mem_map.1 hcall
        trivial
  have hnil : [] ∈ a.pieces conn codeText ↔ ¬ (a.contentType.text ≠ [] ∧ ∀ chunk ∈ a.chunks, chunk.text ≠ []) := by
    rw [Answering.nil_mem_pieces hne, not_and_or, not_not]
    simp only [not_forall, not_not, exists_prop]
  rw [Answering.handlerPieces_calls hconn.1 hcode, ← List.append_nil (completely _)] at hs
  rw [runHandler_known strerror hconn.1 hknown, Answering.handlerPieces_calls hconn.1 hcode]
  by_cases hempty : [] ∈ a.pieces conn codeText
  · -- the write of an empty piece takes nothing: the handler panics
    have hreturned := Socket.sendAll_empty strerror hs hempty
    refine iff_of_false ?_ ?_
    · rintro ⟨⟨conn', h⟩, -⟩
      obtain ⟨u, hu⟩ := Writing.returned_of_bind h
      exact hreturned hu
    · rintro ⟨htype, -, hchunks⟩
      exact hnil.1 hempty ⟨htype, hchunks⟩
  · obtain ⟨htype, hchunks⟩ := not_not.1 (mt hnil.2 hempty)
    rw [Socket.sendAll_completely strerror hs hempty, Writing.bind_returned, Answering.Read]
    dsimp only
    rw [hreceived, List.nil_append, Answering.readMessage_pieces hconn hline]
    constructor
    · rintro ⟨-, h⟩
      exact ⟨htype, h, hchunks⟩
    · rintro ⟨-, h, -⟩
      exact ⟨⟨_, rfl⟩, h⟩

/-- The page of a captive portal, sent in chunks. -/
def portalPage : Answering where
  before := [.setContentLength 7, .sendHeader ⟨ascii "Cache-Control", by decide⟩ ⟨ascii "no-cache", by decide⟩]
  code := 200
  contentType := ⟨ascii "text/html", by decide⟩
  content := ⟨[], List.not_mem_nil⟩
  chunks := [⟨ascii "<p>", by decide⟩, ⟨ascii "</p>", by decide⟩]
  prepares := by
    intro call hcall
    simp only [List.mem_cons, List.not_mem_nil, or_false] at hcall
    rcases hcall with rfl | rfl
    · trivial
    · refine ⟨?_, ?_, ?_⟩ <;> decide
  known := Or.inl rfl

theorem respond_portalPage :
    portalPage.Read (runHandler (fun _ => []) (.accepted 4)
      ⟨completely (handlerPieces (.accepted 4) portalPage.calls), 0, [], []⟩ portalPage.calls) := by
  refine (respond_iff _ portalPage ⟨rfl, rfl, rfl⟩ rfl rfl).2 ⟨?_, ?_, ?_⟩ <;> decide

/-- A page whose last chunk is empty. -/
def emptyChunkPage : Answering := { portalPage with chunks := [⟨ascii "<p></p>", by decide⟩, ⟨[], List.not_mem_nil⟩] }

theorem respond_panics :
    ¬ emptyChunkPage.Read (runHandler (fun _ => ascii "Success") (.accepted 4)
        ⟨completely (handlerPieces (.accepted 4) emptyChunkPage.calls), 0, [], []⟩ emptyChunkPage.calls) ∧
      (runHandler (fun _ => ascii "Success") (.accepted 4)
        ⟨completely (handlerPieces (.accepted 4) emptyChunkPage.calls), 0, [], []⟩ emptyChunkPage.calls).2 =
          .panicked (ascii "Sent failed (0) [0] Success: ") := by
  have h : (runHandler (fun _ => ascii "Success") (.accepted 4)
      ⟨completely (handlerPieces (.accepted 4) emptyChunkPage.calls), 0, [], []⟩ emptyChunkPage.calls).2 =
        .panicked (ascii "Sent failed (0) [0] Success: ") := by decide +kernel
  refine ⟨?_, h⟩
  rintro ⟨⟨conn, hreturned⟩, -⟩
  rw [h] at hreturned
  cases hreturned

end IopHal
