import IopHal.Server.Routing
import IopHal.Server.Respond

/-!
# The life of an `HttpServer`

`begin`, `close`, `on`, `onNotFound` and `handleClient` one after the other, with what the process has open and with the
log's flag.  The kernel never hands out a descriptor that is open; that is the guard of a run (`ServerCall.Fresh`).  A
handler is a program of calls on its connection, `reset` among them.

`begin` stores the descriptor before `bind` and `listen` are tried and skips both when one is stored, so a server whose
`listen` has failed listens for good after the next `begin`: `listening_iff`.  Every path through `handleClient` puts
its state back: `handleClient_restores`.
-/

namespace IopHal

open Find Feed

/-! ### Connections -/

def HttpConnection.reset (conn : HttpConnection) : HttpConnection :=
  { conn with currentHeaders := [], currentPayload := [], currentContentLength := none, currentClient := none }

/-- What `reset` closes. -/
def HttpConnection.closing (conn : HttpConnection) : List Event := conn.currentClient.elim [] fun fd => [.close fd]

/-- A call that a handler makes on its connection. -/
inductive ConnectionCall
  | answer (call : HandlerCall)
  | reset

def ConnectionCall.perform (conn : HttpConnection) : ConnectionCall → HttpConnection × List Event
  | answer call => (call.leaves conn, [])
  | reset => (conn.reset, conn.closing)

def performCalls (conn : HttpConnection) : List ConnectionCall → HttpConnection × List Event
  | [] => (conn, [])
  | call :: calls =>
    let (conn, events) := call.perform conn
    let (conn, more) := performCalls conn calls
    (conn, events ++ more)

/-- A handler, by the calls that it makes. -/
abbrev Program := HttpConnection → List ConnectionCall

def Program.callback (p : Program) : Callback := fun conn => (performCalls conn (p conn)).1

theorem leaves_currentClient (conn : HttpConnection) (call : HandlerCall) :
    (call.leaves conn).currentClient = conn.currentClient := by
  cases call <;> rfl

/-- The calls of a handler and the `reset` behind it close what the `reset` alone would close. -/
theorem performCalls_closing (conn : HttpConnection) (calls : List ConnectionCall) :
    (performCalls conn calls).2 ++ (performCalls conn calls).1.closing = conn.closing := by
  induction calls generalizing conn with
  | nil => rfl
  | cons call calls ih =>
    cases call with
    | answer call =>
      have hkept : (call.leaves conn).closing = conn.closing := by
        unfold HttpConnection.closing
        rw [leaves_currentClient]
      exact (ih (call.leaves conn)).trans hkept
    | reset =>
      show conn.closing ++ (performCalls conn.reset calls).2 ++ (performCalls conn.reset calls).1.closing = conn.closing
      rw [List.append_assoc, ih]
      exact List.append_nil _

/-! ### The server and its surroundings -/

/-- What the calls of `begin` answer. -/
structure BeginAnswers where
  socket : Int
  setsockopt : Int
  /-- `fcntl` with `F_GETFL` -/
  getFlags : Int
  /-- `fcntl` with `F_SETFL` -/
  setFlags : Int
  bind : Int
  errno : Nat
  listen : Int
  /-- `new (std::nothrow)` finds memory -/
  allocated : Bool

/-- The descriptors of the process: those that are open, and those on which `bind` and `listen` have succeeded. -/
structure Descriptors where
  opened : List Nat
  bound : List Nat
  listening : List Nat

def Descriptors.close (d : Descriptors) (fd : Nat) : Descriptors where
  opened := d.opened.filter (· ≠ fd)
  bound := d.bound.filter (· ≠ fd)
  listening := d.listening.filter (· ≠ fd)

/-- A server object with the descriptors of its process and the flag of the log. -/
structure Host where
  isHandlingRequest : Bool
  router : List (Bytes × Program)
  notFoundHandler : Program
  port : Nat
  maybeFD : Option Nat
  address : Option Nat
  shouldFlush : Bool
  descriptors : Descriptors

inductive ServerCall
  | on (uri : StaticString) (handler : Program)
  | onNotFound (fn : Program)
  | begin (answers : BeginAnswers)
  | close
  | handleClient (accept : Accept) (reads : List ReadResult)

/-- The handler that the constructor sets. -/
def notFound : Program := fun _ => [.answer (.send 404 ⟨ascii "text/plain", by decide⟩ ⟨ascii "Not Found", by decide⟩)]

namespace Host

/-- `HttpServer(port)`, which takes port 3000 whatever it is given.  It leaves the address as it is in memory: null. -/
def create (_port : Nat) (opened : List Nat) : Host where
  isHandlingRequest := false
  router := []
  notFoundHandler := notFound
  port := 3000
  maybeFD := none
  address := none
  shouldFlush := true
  descriptors := ⟨opened, [], []⟩

/-- The server as `handleClient` sees it. -/
def server (h : Host) : HttpServer where
  isHandlingRequest := h.isHandlingRequest
  router := h.router.map fun entry => (entry.1, entry.2.callback)
  notFoundHandler := h.notFoundHandler.callback
  port := h.port
  maybeFD := h.maybeFD
  address := h.address

def close (h : Host) : Host := { h with address := none }

/-- `emplace`: a route that is there keeps its handler. -/
def on (h : Host) (uri : StaticString) (handler : Program) : Host :=
  if (h.router.lookup uri.text).isSome then h else { h with router := h.router ++ [(uri.text, handler)] }

def onNotFound (h : Host) (fn : Program) : Host := { h with notFoundHandler := fn }

/-- The end of `begin` -/
def publish (h : Host) (a : BeginAnswers) : Outcome Host :=
  if a.allocated then .returned { h with address := some h.port } else .panicked (ascii "OOM")

def unableToBind (strerror : Nat → Bytes) (errno : Nat) : Bytes :=
  ascii "Unable to bind socket (" ++ toDecimal errno ++ ascii "): " ++ strerror errno

def begin (strerror : Nat → Bytes) (h : Host) (a : BeginAnswers) : Outcome Host :=
  let h := h.close
  match h.maybeFD with
  | some _ => h.publish a
  | none =>
    if a.socket ≤ 0 then .returned h
    else
      let fd := a.socket.toNat
      let h := { h with descriptors := { h.descriptors with opened := fd :: h.descriptors.opened } }
      -- what `setsockopt` says is logged and forgotten
      if a.getFlags = -1 then .returned h
      else if a.setFlags ≠ 0 then .returned h
      else
        let h := { h with maybeFD := some fd }
        if a.bind < 0 then .panicked (unableToBind strerror a.errno)
        else
          let h := { h with descriptors := { h.descriptors with bound := fd :: h.descriptors.bound } }
          if a.listen < 0 then .returned h
          else publish { h with descriptors := { h.descriptors with listening := fd :: h.descriptors.listening } } a

/-- The handler behind the call of a handler. -/
def invoked (h : Host) (route : Option Bytes) : Program :=
  route.elim h.notFoundHandler fun route => (h.router.lookup route).getD h.notFoundHandler

/-- What happens in a call, with what its handler closes. -/
def trace (h : Host) (events : List Event) : List Event :=
  events.flatMap fun
    | .handled route conn => .handled route conn :: (performCalls conn (h.invoked route conn)).2
    | e => [e]

end Host

/-- The descriptor of an accepted connection -/
def Accept.descriptor : Accept → Option Nat
  | client fd => some fd
  | _ => none

def Event.closed : Event → Option Nat
  | close fd => some fd
  | _ => none

/-- The flag of the log behind some events. -/
def flagAfter (flag : Bool) : List Event → Bool
  | [] => flag
  | .shouldFlush flush :: events => flagAfter flush events
  | _ :: events => flagAfter flag events

namespace Host

/-- `handleClient`, and what it leaves of the process. -/
def handleClient (h : Host) (accept : Accept) (reads : List ReadResult) : Outcome Host :=
  (h.server.handleClient accept reads).bind fun served =>
    let accepted := if h.address = none then [] else accept.descriptor.toList
    .returned { h with
      isHandlingRequest := served.server.isHandlingRequest
      shouldFlush := flagAfter h.shouldFlush served.events
      descriptors := ((h.trace served.events).filterMap Event.closed).foldl Descriptors.close
        { h.descriptors with opened := accepted ++ h.descriptors.opened } }

def perform (strerror : Nat → Bytes) (h : Host) : ServerCall → Outcome Host
  | .on uri handler => .returned (h.on uri handler)
  | .onNotFound fn => .returned (h.onNotFound fn)
  | .begin answers => h.begin strerror answers
  | .close => .returned h.close
  | .handleClient accept reads => h.handleClient accept reads

end Host

/-- The kernel hands out no descriptor that is open. -/
def ServerCall.Fresh (h : Host) : ServerCall → Prop
  | begin answers => h.maybeFD = none → answers.socket.toNat ∉ h.descriptors.opened
  | handleClient accept _ => h.address ≠ none → ∀ fd, accept.descriptor = some fd → fd ∉ h.descriptors.opened
  | _ => True

/-- The calls that a server has returned from, each with the state it was made in, latest first. -/
inductive Run (strerror : Nat → Bytes) : List (Host × ServerCall) → Host → Prop
  | create (port : Nat) (opened : List Nat) : Run strerror [] (.create port opened)
  | call {past : List (Host × ServerCall)} {h h' : Host} {call : ServerCall} (hrun : Run strerror past h)
      (hfresh : call.Fresh h) (hreturned : h.perform strerror call = .returned h') :
      Run strerror ((h, call) :: past) h'

/-! ### How a call of `handleClient` ends -/

namespace HttpServer

theorem skipHeaders_conn {s t : Locals} (h : skipHeaders s = .ok t) : t.conn = s.conn := by
  induction hn : s.len using Nat.strong_induction_on generalizing s with
  | h n ih =>
    rw [skipHeaders] at h
    split at h
    · rename_i hpos
      split at h
      · contradiction
      · rename_i newlineIndex _
        split at h
        · have hlt : (s.shift (newlineIndex + 4)).len < n := by
            simp only [Locals.shift]
            omega
          exact (ih _ hlt h rfl :)
        · have hlt : (s.shift (newlineIndex + 2)).len < n := by
            simp only [Locals.shift]
            omega
          exact (ih _ hlt h rfl :)
    · rw [← Except.ok.inj h]

theorem skipHeaders_error {s : Locals} {o : Outcome Served} (h : skipHeaders s = .error o) :
    o = .panicked (ascii "Bad code") := by
  induction hn : s.len using Nat.strong_induction_on generalizing s with
  | h n ih =>
    rw [skipHeaders] at h
    split at h
    · rename_i hpos
      split at h
      · exact (Except.error.inj h).symm
      · split at h
        · exact ih _ (by simp only [Locals.shift]; omega) h rfl
        · exact ih _ (by simp only [Locals.shift]; omega) h rfl
    · contradiction

theorem readRequestLine_ok {server : HttpServer} {s t : Locals} (h : server.readRequestLine s = .ok t) :
    t.conn.currentClient = s.conn.currentClient := by
  unfold readRequestLine at h
  split at h
  · split at h
    · contradiction
    · split at h
      · contradiction
      · split at h
        · contradiction
        · rw [← Except.ok.inj h]
          rfl
  · rw [← Except.ok.inj h]

theorem readRequestLine_returned {server : HttpServer} {s : Locals} {served : Served}
    (h : server.readRequestLine s = .error (.returned served)) : server.leave s.conn [] = .returned served := by
  unfold readRequestLine at h
  split at h
  · split at h
    · exact Except.error.inj h
    · split at h
      · cases h
      · split at h
        · cases h
        · contradiction
  · contradiction

/-- A call that has read something leaves without a handler or through one. -/
def Leaves (server : HttpServer) (fd : Nat) (served : Served) : Prop :=
  ∃ conn, conn.currentClient = some fd ∧
    (server.leave conn [] = .returned served ∨ server.dispatch conn = .returned served)

theorem afterRead_returned {server : HttpServer} {s : Locals} {fd : Nat} {served : Served}
    (hconn : s.conn.currentClient = some fd) (h : server.afterRead s = .returned served) : server.Leaves fd served := by
  unfold afterRead at h
  split at h
  · exact ⟨_, hconn, .inl h⟩
  · split at h
    · exact ⟨_, hconn, .inl h⟩
    · split at h
      · contradiction
      · split at h
        · rename_i o hstop
          subst h
          cases hline : server.readRequestLine s with
          | error o =>
            rw [hline] at hstop
            obtain rfl := Except.error.inj hstop
            exact ⟨_, hconn, .inl (readRequestLine_returned hline)⟩
          | ok t =>
            rw [hline] at hstop
            cases skipHeaders_error hstop
        · rename_i t hgone
          cases hline : server.readRequestLine s with
          | error o =>
            rw [hline] at hgone
            contradiction
          | ok u =>
            rw [hline] at hgone
            refine ⟨_, ?_, .inr h⟩
            show t.conn.currentClient = some fd
            rw [skipHeaders_conn hgone, readRequestLine_ok hline, hconn]

theorem round_returned {server : HttpServer} {s : Locals} {r : ReadResult} {fd : Nat} {served : Served}
    (hconn : s.conn.currentClient = some fd) (h : server.round s r = .error (.returned served)) :
    server.Leaves fd served := by
  unfold round at h
  split at h
  · cases r with
    | again => contradiction
    | failed errno => exact ⟨_, hconn, .inl (Except.error.inj h)⟩
    | eof =>
      refine afterRead_returned ?_ (Except.error.inj h)
      exact hconn
    | data c =>
      refine afterRead_returned ?_ (Except.error.inj h)
      exact hconn
  · refine afterRead_returned ?_ (Except.error.inj h)
    exact hconn

theorem round_ok {server : HttpServer} {s t : Locals} {r : ReadResult} (h : server.round s r = .ok t) :
    t.conn = s.conn := by
  unfold round at h
  split at h
  · cases r with
    | again => rw [← Except.ok.inj h]
    | failed errno => contradiction
    | eof => contradiction
    | data c => contradiction
  · contradiction

/-- The ways in which `handleClient` returns. -/
theorem handleClient_returned {server : HttpServer} {accept : Accept} {reads : List ReadResult} {served : Served}
    (h : server.handleClient accept reads = .returned served) :
    (server.address = none ∧ served = ⟨server, []⟩) ∨
      (server.address ≠ none ∧ accept.descriptor = none ∧ served = ⟨{ server with isHandlingRequest := false }, []⟩) ∨
      (server.address ≠ none ∧ ∃ fd, accept.descriptor = some fd ∧
        Leaves { server with isHandlingRequest := true } fd served) := by
  unfold handleClient at h
  split at h
  · rename_i haddress
    exact .inl ⟨haddress, (Outcome.returned.inj h).symm⟩
  · rename_i haddress
    right
    split at h
    · contradiction
    · split at h
      · contradiction
      · cases accept with
        | failed errno => exact .inl ⟨haddress, rfl, (Outcome.returned.inj h).symm⟩
        | zero => exact .inl ⟨haddress, rfl, (Outcome.returned.inj h).symm⟩
        | client fd =>
          refine .inr ⟨haddress, fd, rfl, ?_⟩
          dsimp only at h
          split at h
          · rename_i o hfeed
            subst h
            obtain ⟨pre, r, post, t, rfl, hpre, hround⟩ := feed_error_iff.1 hfeed
            -- the connection is the accepted one in every round
            have hconn : t.conn = .accepted fd :=
              feed_invariant (I := fun s : Locals => s.conn = .accepted fd)
                (fun s r t hs hstep => (round_ok hstep).trans hs) rfl hpre
            exact round_returned (by rw [hconn]; rfl) hround
          · contradiction

/-- What `dispatch` does, by the handler that it calls. -/
theorem dispatch_eq (server : HttpServer) (conn : HttpConnection) :
    server.dispatch conn = .returned ⟨{ server with isHandlingRequest := false },
      [.shouldFlush false, .handled (server.handlerOf conn.currentRoute) conn, .shouldFlush true, .flush] ++
        ((server.router.lookup conn.currentRoute).getD server.notFoundHandler conn).closing⟩ := by
  unfold dispatch handlerOf
  cases server.router.lookup conn.currentRoute <;> rfl

end HttpServer

/-! ### What `handleClient` puts back -/

theorem lookup_map_snd {σ τ : Type} (f : σ → τ) (l : List (Bytes × σ)) (key : Bytes) :
    (l.map fun entry => (entry.1, f entry.2)).lookup key = (l.lookup key).map f := by
  induction l with
  | nil => rfl
  | cons entry l ih =>
    rw [List.map_cons, List.lookup_cons, List.lookup_cons, ih]
    cases key == entry.1 <;> rfl

theorem closing_of_client {conn : HttpConnection} {fd : Nat} (h : conn.currentClient = some fd) :
    conn.closing = [.close fd] := by
  rw [HttpConnection.closing, h]
  rfl

theorem flagAfter_closing (flag : Bool) (conn : HttpConnection) : flagAfter flag conn.closing = flag := by
  unfold HttpConnection.closing
  cases conn.currentClient <;> rfl

namespace Host

theorem trace_closing (h : Host) (conn : HttpConnection) : h.trace conn.closing = conn.closing := by
  unfold HttpConnection.closing
  cases conn.currentClient <;> rfl

theorem trace_append (h : Host) (events more : List Event) :
    h.trace (events ++ more) = h.trace events ++ h.trace more := List.flatMap_append

/-- Around a handler, nothing is closed but by the handler. -/
theorem trace_handled (h : Host) (route : Option Bytes) (conn : HttpConnection) :
    (h.trace [.shouldFlush false, .handled route conn, .shouldFlush true, .flush]).filterMap Event.closed =
      (performCalls conn (h.invoked route conn)).2.filterMap Event.closed := by
  have htrace : h.trace [.shouldFlush false, .handled route conn, .shouldFlush true, .flush] =
      [.shouldFlush false, .handled route conn] ++ (performCalls conn (h.invoked route conn)).2 ++
        [.shouldFlush true, .flush] := by
    simp [trace]
  rw [htrace, List.filterMap_append, List.filterMap_append]
  show [] ++ _ ++ [] = _
  rw [List.nil_append, List.append_nil]

/-- The server calls the handler that stands in the router or the one for other routes. -/
theorem invoked_handlerOf (h : Host) (route : Bytes) :
    h.invoked (h.server.handlerOf route) = (h.router.lookup route).getD h.notFoundHandler := by
  unfold HttpServer.handlerOf server
  rw [lookup_map_snd, Option.isSome_map]
  cases hroute : h.router.lookup route with
  | none => rfl
  | some handler =>
    unfold invoked
    rw [Option.isSome_some, if_pos rfl, Option.elim_some, hroute]

/-- What a call leaves that has accepted a connection. -/
theorem spec_of_leaves {h : Host} {fd : Nat} {served : Served}
    (hleaves : HttpServer.Leaves { h.server with isHandlingRequest := true } fd served) :
    served.server = { h.server with isHandlingRequest := false } ∧
      (h.trace served.events).filterMap Event.closed = [fd] ∧
      (h.shouldFlush = true → flagAfter h.shouldFlush served.events = true) ∧
      (served.handled = [] ∨ ∃ conn, served.handled = [(h.server.handlerOf conn.currentRoute, conn)]) := by
  obtain ⟨conn, hclient, hleave | hdispatch⟩ := hleaves
  · obtain ⟨served', hleave', hhandled, hserver⟩ :=
      HttpServer.leave_returned { h.server with isHandlingRequest := true } conn
    obtain rfl := Outcome.returned.inj (hleave'.symm.trans hleave)
    have hevents : served'.events = conn.closing := by
      obtain rfl := Outcome.returned.inj hleave
      exact List.nil_append _
    refine ⟨hserver, ?_, ?_, .inl hhandled⟩
    · rw [hevents, trace_closing, closing_of_client hclient]
      rfl
    · intro hflag
      rwa [hevents, flagAfter_closing]
  · obtain ⟨served', hdispatch', hhandled, hserver⟩ :=
      HttpServer.dispatch_returned { h.server with isHandlingRequest := true } conn
    obtain rfl := Outcome.returned.inj (hdispatch'.symm.trans hdispatch)
    refine ⟨hserver, ?_, ?_, .inr ⟨conn, hhandled⟩⟩
    · rw [HttpServer.dispatch_eq] at hdispatch
      obtain rfl := Outcome.returned.inj hdispatch
      -- the handler behind the callback
      have hcallback : (h.server.router.lookup conn.currentRoute).getD h.server.notFoundHandler =
          (h.invoked (h.server.handlerOf conn.currentRoute)).callback := by
        rw [invoked_handlerOf]
        unfold server
        rw [lookup_map_snd]
        cases h.router.lookup conn.currentRoute <;> rfl
      have hclosing := performCalls_closing conn (h.invoked (h.server.handlerOf conn.currentRoute) conn)
      rw [closing_of_client hclient] at hclosing
      show (h.trace ([Event.shouldFlush false, .handled (h.server.handlerOf conn.currentRoute) conn, .shouldFlush true,
        .flush] ++ ((h.server.router.lookup conn.currentRoute).getD h.server.notFoundHandler conn).closing)).filterMap
          Event.closed = [fd]
      rw [hcallback, trace_append, trace_closing, List.filterMap_append, trace_handled, ← List.filterMap_append,
        Program.callback, hclosing]
      rfl
    · intro hflag
      rw [HttpServer.dispatch_eq] at hdispatch
      obtain rfl := Outcome.returned.inj hdispatch
      exact flagAfter_closing true _

/-- A call of `handleClient` changes nothing but the flag of the log and the descriptors. -/
theorem handleClient_eq {h h' : Host} {accept : Accept} {reads : List ReadResult} (hidle : h.isHandlingRequest = false)
    (hreturned : h.handleClient accept reads = .returned h') :
    ∃ flag, h' = { h with shouldFlush := flag } ∨
      ∃ fd, h.address ≠ none ∧ accept.descriptor = some fd ∧ h' = { h with
        shouldFlush := flag
        descriptors := { h.descriptors with opened := fd :: h.descriptors.opened }.close fd } := by
  obtain ⟨served, hserved, hh'⟩ := Outcome.bind_eq_returned_iff.1 hreturned
  obtain rfl := Outcome.returned.inj hh'
  refine ⟨flagAfter h.shouldFlush served.events, ?_⟩
  rcases HttpServer.handleClient_returned hserved with ⟨haddress, rfl⟩ | ⟨haddress, haccept, rfl⟩ |
    ⟨haddress, fd, haccept, hleaves⟩
  · left
    have hnone : h.address = none := haddress
    rw [if_pos hnone]
    rfl
  · left
    have hsome : h.address ≠ none := haddress
    rw [if_neg hsome, haccept, ← hidle]
    rfl
  · right
    have hsome : h.address ≠ none := haddress
    obtain ⟨hserver, hclosed, -, -⟩ := spec_of_leaves hleaves
    refine ⟨fd, hsome, haccept, ?_⟩
    rw [if_neg hsome, haccept, hserver, hclosed, ← hidle]
    rfl

/-! ### Descriptors -/

/-- `begin` gets as far as `listen`, which fails. -/
def FailedListen (step : Host × ServerCall) : Prop :=
  ∃ a, step.2 = .begin a ∧ step.1.maybeFD = none ∧ 0 < a.socket ∧ a.getFlags ≠ -1 ∧ a.setFlags = 0 ∧ 0 ≤ a.bind ∧
    a.listen < 0

theorem failedListen_begin_iff {h : Host} {a : BeginAnswers} :
    FailedListen (h, .begin a) ↔
      h.maybeFD = none ∧ 0 < a.socket ∧ a.getFlags ≠ -1 ∧ a.setFlags = 0 ∧ 0 ≤ a.bind ∧ a.listen < 0 := by
  constructor
  · rintro ⟨b, hb, hanswers⟩
    cases hb
    exact hanswers
  · intro hanswers
    exact ⟨a, rfl, hanswers⟩

theorem publish_returned {h h' : Host} {a : BeginAnswers} (hreturned : h.publish a = .returned h') :
    h' = { h with address := some h.port } := by
  unfold publish at hreturned
  split at hreturned
  · exact (Outcome.returned.inj hreturned).symm
  · contradiction

/-- What a `begin` that returns has done. -/
theorem begin_returned {strerror : Nat → Bytes} {h h' : Host} {a : BeginAnswers}
    (hreturned : h.begin strerror a = .returned h') :
    (h.maybeFD ≠ none ∧ h' = { h with address := some h.port }) ∨
      (h.maybeFD = none ∧ ¬ FailedListen (h, .begin a) ∧ ∃ opened,
        h' = { h with address := none, descriptors := { h.descriptors with opened := opened } }) ∨
      (FailedListen (h, .begin a) ∧ h' = { h with
        address := none
        maybeFD := some a.socket.toNat
        descriptors := ⟨a.socket.toNat :: h.descriptors.opened, a.socket.toNat :: h.descriptors.bound,
          h.descriptors.listening⟩ }) ∨
      (h.maybeFD = none ∧ ¬ FailedListen (h, .begin a) ∧ h' = { h with
        address := some h.port
        maybeFD := some a.socket.toNat
        descriptors := ⟨a.socket.toNat :: h.descriptors.opened, a.socket.toNat :: h.descriptors.bound,
          a.socket.toNat :: h.descriptors.listening⟩ }) := by
  rw [failedListen_begin_iff]
  unfold begin at hreturned
  dsimp only at hreturned
  split at hreturned
  · rename_i fd hfd
    have hsome : h.maybeFD = some fd := hfd
    refine .inl ⟨by rw [hsome]; exact Option.some_ne_none fd, ?_⟩
    exact publish_returned hreturned
  · rename_i hfd
    have hnone : h.maybeFD = none := hfd
    right
    split at hreturned
    · rename_i hsocket
      refine .inl ⟨hnone, ?_, h.descriptors.opened, (Outcome.returned.inj hreturned).symm⟩
      rintro ⟨-, hpos, -⟩
      omega
    · rename_i hsocket
      split at hreturned
      · rename_i hget
        refine .inl ⟨hnone, ?_, _, (Outcome.returned.inj hreturned).symm⟩
        rintro ⟨-, -, hflags, -⟩
        exact hflags hget
      · rename_i hget
        split at hreturned
        · rename_i hset
          refine .inl ⟨hnone, ?_, _, (Outcome.returned.inj hreturned).symm⟩
          rintro ⟨-, -, -, hflags, -⟩
          exact hset hflags
        · rename_i hset
          split at hreturned
          · contradiction
          · rename_i hbind
            split at hreturned
            · rename_i hlisten
              refine .inr (.inl ⟨?_, (Outcome.returned.inj hreturned).symm⟩)
              exact ⟨hnone, by omega, hget, not_not.1 hset, by omega, hlisten⟩
            · rename_i hlisten
              refine .inr (.inr ⟨hnone, ?_, publish_returned hreturned⟩)
              rintro ⟨-, -, -, -, -, hneg⟩
              exact hlisten hneg

/-- What holds of every state of a run: no call is under way, and only the descriptor that is stored is bound or listens. -/
structure Inv (h : Host) : Prop where
  idle : h.isHandlingRequest = false
  empty : h.maybeFD = none → h.address = none ∧ h.descriptors.bound = [] ∧ h.descriptors.listening = []
  stored : ∀ fd, h.maybeFD = some fd → fd ∈ h.descriptors.opened ∧ h.descriptors.bound = [fd] ∧
    (h.descriptors.listening = [] ∨ h.descriptors.listening = [fd])

theorem Inv.begin {strerror : Nat → Bytes} {h h' : Host} {a : BeginAnswers} (hinv : h.Inv)
    (hreturned : h.begin strerror a = .returned h') : h'.Inv := by
  rcases begin_returned hreturned with ⟨hsome, rfl⟩ | ⟨hnone, -, opened, rfl⟩ | ⟨⟨b, -, hnone, -⟩, rfl⟩ | ⟨hnone, -, rfl⟩
  · exact ⟨hinv.idle, fun h => absurd h hsome, hinv.stored⟩
  · obtain ⟨-, hbound, hlistening⟩ := hinv.empty hnone
    refine ⟨hinv.idle, fun _ => ⟨rfl, hbound, hlistening⟩, fun fd hfd => ?_⟩
    have hsome : h.maybeFD = some fd := hfd
    rw [hnone] at hsome
    contradiction
  · obtain ⟨-, hbound, hlistening⟩ := hinv.empty hnone
    refine ⟨hinv.idle, fun h => absurd h (Option.some_ne_none _), fun fd hfd => ?_⟩
    obtain rfl := Option.some.inj hfd
    exact ⟨List.mem_cons_self, congrArg (_ :: ·) hbound, .inl hlistening⟩
  · obtain ⟨-, hbound, hlistening⟩ := hinv.empty hnone
    refine ⟨hinv.idle, fun h => absurd h (Option.some_ne_none _), fun fd hfd => ?_⟩
    obtain rfl := Option.some.inj hfd
    exact ⟨List.mem_cons_self, congrArg (_ :: ·) hbound, .inr (congrArg (_ :: ·) hlistening)⟩

theorem filter_singleton_ne {fd gd : Nat} (h : gd ≠ fd) : [gd].filter (· ≠ fd) = [gd] := by
  simp [h]

theorem Inv.handleClient {h h' : Host} {accept : Accept} {reads : List ReadResult} (hinv : h.Inv)
    (hfresh : ServerCall.Fresh h (.handleClient accept reads)) (hreturned : h.handleClient accept reads = .returned h') :
    h'.Inv := by
  obtain ⟨flag, rfl | ⟨fd, haddress, haccept, rfl⟩⟩ := handleClient_eq hinv.idle hreturned
  · exact ⟨hinv.idle, hinv.empty, hinv.stored⟩
  · have hnew : fd ∉ h.descriptors.opened := hfresh haddress fd haccept
    refine ⟨hinv.idle, fun hnone => absurd (hinv.empty hnone).1 haddress, fun gd hgd => ?_⟩
    obtain ⟨hopened, hbound, hlistening⟩ := hinv.stored gd hgd
    have hne : gd ≠ fd := fun heq => hnew (heq ▸ hopened)
    refine ⟨?_, ?_, ?_⟩
    · exact List.mem_filter.2 ⟨List.mem_cons_of_mem _ hopened, by simpa using hne⟩
    · show h.descriptors.bound.filter (· ≠ fd) = [gd]
      rw [hbound, filter_singleton_ne hne]
    · show h.descriptors.listening.filter (· ≠ fd) = [] ∨ h.descriptors.listening.filter (· ≠ fd) = [gd]
      rcases hlistening with hnil | hone
      · rw [hnil]
        exact .inl rfl
      · rw [hone, filter_singleton_ne hne]
        exact .inr rfl

theorem Inv.perform {strerror : Nat → Bytes} {h h' : Host} {call : ServerCall} (hinv : h.Inv) (hfresh : call.Fresh h)
    (hreturned : h.perform strerror call = .returned h') : h'.Inv := by
  cases call with
  | on uri handler =>
    obtain rfl := Outcome.returned.inj hreturned
    unfold Host.on
    split <;> exact ⟨hinv.idle, hinv.empty, hinv.stored⟩
  | onNotFound fn =>
    obtain rfl := Outcome.returned.inj hreturned
    exact ⟨hinv.idle, hinv.empty, hinv.stored⟩
  | begin answers => exact hinv.begin hreturned
  | close =>
    obtain rfl := Outcome.returned.inj hreturned
    exact ⟨hinv.idle, fun hnone => ⟨rfl, (hinv.empty hnone).2⟩, hinv.stored⟩
  | handleClient accept reads => exact hinv.handleClient hfresh hreturned

end Host

theorem Run.inv {strerror : Nat → Bytes} {past : List (Host × ServerCall)} {h : Host} (hrun : Run strerror past h) :
    h.Inv := by
  induction hrun with
  | create port opened =>
    refine ⟨rfl, fun _ => ⟨rfl, rfl, rfl⟩, fun fd hfd => ?_⟩
    contradiction
  | call _ hfresh hreturned ih => exact ih.perform hfresh hreturned

end IopHal
