import IopHal.Response
import IopHal.Library.Feed

/-!
# `Session::sendRequest`

The Linux HTTP client as the source runs it: the request is written piece by piece, then the receive loop reads into
an 8192-byte buffer and, read after read, cuts off the status line, the header lines and the blank line by shifting
the buffer, and appends what follows to the payload.  One round of the loop (`round`) is fed with the result of one
`recv`; it is split as the source is, into the test for a blank line at the start of a read (`findPayload`), the test
for a newline (`checkNewline`), the status line (`readStatus`), the header loop (`headerLoop`) and the payload
(`appendPayload`).  The model leaves the log lines out and takes the buffer to be allocated.
-/

namespace IopHal

open Find Feed

def bufferSize : Nat := 8192

/-- A read that delivers bytes: at least one and at most the `n` asked for. -/
abbrev Chunk (n : Nat) := { bs : Bytes // bs ≠ [] ∧ bs.length ≤ n }

/-- The result of one `recv` -/
inductive Recv
  | failed (errno : Nat)
  | eof
  | data (chunk : Chunk bufferSize)

inductive StationStatus
  | idle
  | connecting
  | wrongPassword
  | noApFound
  | connectFail
  | gotIp
  deriving DecidableEq

/-- What `HTTPClient::begin` hands to a session.  It has a socket or, over TLS, a BIO. -/
structure SessionContext where
  fd : Int
  headersToCollect : List Bytes
  headers : Headers
  uri : Bytes
  bio : Bool
  opened : fd ≠ -1 ∨ bio = true

/-- `HTTPClient::headersToCollect` -/
def headersToCollect (keys : List Bytes) : List Bytes := keys.map lower

/-! ### Writing the request -/

/-- The path in the request line.  The position of the slash is relative to the host but used relative to the URI. -/
def requestPath (uri : Bytes) : Bytes :=
  let hostIndex := find (ascii "://") uri
  let pathIndex := find (ascii "/") (cview (uri.drop (hostIndex.elim 0 (· + 3))))
  pathIndex.elim (ascii "/") fun i => cview (uri.drop i)

/-- The pieces handed to `send`, in order. -/
def requestPieces (ctx : SessionContext) (method data : Bytes) : List Bytes :=
  [method, ascii " ", requestPath ctx.uri, ascii " HTTP/1.0\r\n", ascii "Content-Length: ", toDecimal data.length,
    crlf] ++ ctx.headers.flatMap (fun (key, value) => [key, ascii ": ", value, crlf]) ++ [crlf, data]

/-! ### The receive loop -/

/-- The variables of the receive loop.  `buffer` is the memory behind `buffer.get()`; the view `buff` always covers
its first `size` bytes. -/
structure Locals where
  buffer : Bytes
  signedSize : Nat
  size : Nat
  firstLine : Bool
  isPayload : Bool
  status : Option Int
  responseHeaders : Headers
  responsePayload : Bytes

def Locals.start : Locals where
  buffer := List.replicate bufferSize NUL
  signedSize := 0
  size := 0
  firstLine := true
  isPayload := false
  status := some 1000
  responseHeaders := []
  responsePayload := []

/-- `buff` -/
def Locals.buff (s : Locals) : Bytes := s.buffer.take s.size

/-- The part of the buffer behind `buff` -/
def Locals.beyond (s : Locals) : Bytes := s.buffer.drop s.size

def shiftChars (mem : Bytes) (start n : Nat) : Bytes := memsetTail (memmove mem start n) n (bufferSize - n)

/-- Cut the first `n` bytes off `buff`. -/
def Locals.shift (s : Locals) (n : Nat) : Locals :=
  { s with size := s.size - n, buffer := shiftChars s.buffer n (s.size - n) }

def ioError : Outcome Response := .returned (.ofStatus .ioError)

def findPayload (s : Locals) : Locals :=
  if !s.firstLine ∧ !s.isPayload ∧ find crlf s.buff = some 0 then { s.shift 2 with isPayload := true } else s

/-- The panic whose message ends with the buffer read as a C string. -/
def headerLinePanic (buffer : Bytes) : Outcome Response :=
  match cstring buffer with
  | some text => .panicked (ascii "Header line used more than 4kb, currently we don't support this: " ++ text)
  | none => .undefined

def checkNewline (s : Locals) : Except (Outcome Response) Unit :=
  if !s.isPayload ∧ find [LF] s.buff = none then .error (headerLinePanic s.buffer) else .ok ()

def readStatus (s : Locals) : Except (Outcome Response) Locals :=
  if s.firstLine ∧ s.size < 10 then .error ioError
  else if s.firstLine ∧ s.size > 0 then
    match cstring (s.buffer.drop 9) with
    | none => .error .undefined
    | some statusStr =>
      match find [SP] statusStr with
      | none => .error ioError
      | some codeEnd =>
        -- `npos + 1` is zero
        let newlineIndex := (find [LF] s.buff).elim 0 (· + 1)
        .ok { s.shift newlineIndex with status := some (atoi (statusStr.take codeEnd)), firstLine := false }
  else .ok s

/-- `status <= 0`, which an empty optional satisfies -/
def checkStatus (s : Locals) : Except (Outcome Response) Unit :=
  if s.status.elim true (· ≤ 0) then .error ioError else .ok ()

/-- `while (*valueView.begin() == ' ') valueView = valueView.substr(1)`, where `beyond` is the memory behind the view -/
def skipSpaces : Bytes → Bytes → Except (Outcome Response) Bytes
  | [], [] => .error .undefined
  | [], c :: _ => if c = SP then .error .terminated else .ok []
  | c :: v, beyond => if c = SP then skipSpaces v beyond else .ok (c :: v)

/-- What the header loop does with one of the keys to collect when a header line starts at `buff`. -/
def collectKey (buff beyond : Bytes) (headers : Headers) (key : Bytes) : Except (Outcome Response) Headers :=
  if buff.length < key.length + 2 then .ok headers
  else if lower (buff.take key.length) ≠ cview key then .ok headers
  else
    let valueView := buff.drop key.length
    let valueView := if valueView.head? = some COLON then valueView.tail else valueView
    match skipSpaces valueView beyond with
    | .error o => .error o
    | .ok valueView =>
      let value := valueView.take ((find crlf valueView).getD valueView.length)
      .ok (headers.emplace (cview key) value)

def headerLoop (keys : List Bytes) (s : Locals) : Except (Outcome Response) Locals :=
  if _h : s.size > 0 ∧ !s.isPayload then
    match find crlf s.buff with
    | some 0 => headerLoop keys { s.shift 2 with isPayload := true }
    | some i =>
      match keys.foldlM (collectKey s.buff s.beyond) s.responseHeaders with
      | .error o => .error o
      | .ok headers => headerLoop keys { s.shift (i + 2) with responseHeaders := headers }
    | none => .error ioError
  else .ok s
termination_by s.size
decreasing_by all_goals (simp only [Locals.shift]; omega)

def appendPayload (s : Locals) : Locals :=
  if s.isPayload ∧ s.size > 0 then
    { s with
      responsePayload := s.responsePayload ++ s.buff
      buffer := memsetTail s.buffer 0 bufferSize
      size := 0 }
  else s

/-- After the loop -/
def finish (s : Locals) : Outcome Response :=
  match s.status with
  | none => .panicked (ascii "Status not available")
  | some status => .returned (.ofHeaders s.responseHeaders s.responsePayload status)

/-- A round of the loop from the point where `recv` has returned. -/
def afterRecv (keys : List Bytes) (s : Locals) : Except (Outcome Response) Locals :=
  if s.firstLine ∧ s.size = 0 then .error (.returned (.ofCode (s.status.getD 500)))
  else if s.size = 0 then .error (finish s)
  else if s.size > bufferSize then .error .undefined
  else do
    let s := findPayload s
    checkNewline s
    let s ← readStatus s
    checkStatus s
    let s ← headerLoop keys s
    pure (appendPayload s)

/-- A round of the loop.  A full buffer is not read into: `signedSize` keeps the value of the last read. -/
def round (keys : List Bytes) (s : Locals) (r : Recv) : Except (Outcome Response) Locals :=
  if s.size < bufferSize then
    match r with
    | .failed _ => .error ioError
    | .eof => afterRecv keys { s with signedSize := 0 }
    | .data c => afterRecv keys
        { s with
          buffer := s.buffer.take s.size ++ c.1 ++ s.buffer.drop (s.size + c.1.length)
          signedSize := c.1.length
          size := s.size + c.1.length }
  else afterRecv keys { s with size := s.size + s.signedSize }

/-- What a call writes and how it ends. -/
structure Exchange where
  sent : List Bytes
  outcome : Outcome Response

def sendRequest (ctx : SessionContext) (wifi : StationStatus) (method data : Bytes) (recvs : List Recv) : Exchange :=
  if wifi ≠ .gotIp then ⟨[], ioError⟩
  else if ¬ (ctx.fd ≠ -1 ∨ ctx.bio) then ⟨[], .panicked (ascii "Invalid file descriptor or ctx.bio")⟩
  else ⟨requestPieces ctx method data,
    match feed (round ctx.headersToCollect) .start recvs with
    | .error o => o
    | .ok _ => .waiting⟩

end IopHal
