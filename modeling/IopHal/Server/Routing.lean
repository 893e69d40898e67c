import IopHal.Server.Requests

/-!
# Requests in one read

The method of a request is the first of `POST`, `GET` and `OPTIONS` that occurs anywhere in the read (`methodWord`), and
the route stands behind as many bytes as that word has, and one.  For a well-formed request that gives the target, the
target without its first letter, or the end of the method's own word (`routeAt_request`).

* (`handleClient_returns_iff`) which first reads a call survives, whatever they are;
* (`handleClient_route_iff`) when a request is routed to its target;
* (`handleClient_payload_iff`) when its handler sees its body.
-/

namespace IopHal

open Find Feed Framing

namespace HttpServer

/-! ### Calls of handlers -/

/-- The route whose handler is called, if it has one. -/
def handlerOf (server : HttpServer) (route : Bytes) : Option Bytes :=
  if (server.router.lookup route).isSome then some route else none

private theorem handled_reset (server : HttpServer) (conn : HttpConnection) (events : List Event) :
    (Served.mk server (events ++ conn.currentClient.elim [] fun fd => [.close fd])).handled =
      (Served.mk server events).handled := by
  cases h : conn.currentClient <;> simp [Served.handled]

/-- A call ends between two calls, with the handler called once. -/
theorem dispatch_returned (server : HttpServer) (conn : HttpConnection) :
    ∃ served, server.dispatch conn = .returned served ∧
      served.handled = [(server.handlerOf conn.currentRoute, conn)] ∧
      served.server = { server with isHandlingRequest := false } := by
  unfold dispatch handlerOf leave
  cases server.router.lookup conn.currentRoute with
  | none => exact ⟨_, rfl, by rw [handled_reset]; rfl, rfl⟩
  | some handler => exact ⟨_, rfl, by rw [handled_reset]; rfl, rfl⟩

theorem leave_returned (server : HttpServer) (conn : HttpConnection) :
    ∃ served, server.leave conn [] = .returned served ∧ served.handled = [] ∧
      served.server = { server with isHandlingRequest := false } :=
  ⟨_, rfl, by rw [handled_reset]; rfl, rfl⟩

/-- A handler is called exactly for a text that is scanned as a request. -/
theorem serve_handled_iff (server : HttpServer) (fd : Nat) {b : Bytes} {call : Option Bytes × HttpConnection} :
    (∃ served, serve server fd b = .returned served ∧ served.handled = [call]) ↔
      ∃ route payload, scan b = .request route payload ∧
        call = (server.handlerOf route, connection fd route payload) := by
  unfold serve
  cases scan b with
  | noMethod =>
    obtain ⟨served, hleave, hnone, -⟩ := leave_returned server (.accepted fd)
    simp [hleave, hnone]
  | noRoute => simp
  | noNewline => simp
  | badCode => simp
  | request route payload =>
    obtain ⟨served, hcall, hhandled, -⟩ := dispatch_returned server (connection fd route payload)
    simp only [hcall, Outcome.returned.injEq, exists_eq_left', hhandled, List.cons.injEq, and_true,
      Scan.request.injEq]
    constructor
    · rintro rfl
      exact ⟨_, _, ⟨rfl, rfl⟩, rfl⟩
    · rintro ⟨_, _, ⟨rfl, rfl⟩, rfl⟩
      rfl

/-- What the handler of a call sees is what the text is scanned as. -/
theorem exists_call_iff (server : HttpServer) (fd : Nat) {b : Bytes} (seen : HttpConnection → Prop) :
    (∃ served call, serve server fd b = .returned served ∧ served.handled = [call] ∧ seen call.2) ↔
      ∃ route payload, scan b = .request route payload ∧ seen (connection fd route payload) := by
  constructor
  · rintro ⟨served, call, hserve, hhandled, hseen⟩
    obtain ⟨route, payload, hreq, rfl⟩ := (serve_handled_iff server fd).1 ⟨served, hserve, hhandled⟩
    exact ⟨route, payload, hreq, hseen⟩
  · rintro ⟨route, payload, hreq, hseen⟩
    obtain ⟨served, hserve, hhandled⟩ := (serve_handled_iff server fd).2 ⟨route, payload, hreq, rfl⟩
    exact ⟨served, _, hserve, hhandled, hseen⟩

/-! ### Any first read -/

/-- A call returns, with at most one handler called and ready for the next call, exactly when no method word occurs in
the first read, or the read is long enough for the route, has a CRLF, and its rest gets through the header loop. -/
theorem handleClient_returns_iff {server : HttpServer} (hready : server.Ready) (fd n : Nat) (c : Chunk maxSize)
    (rest : List ReadResult) :
    (∃ served, server.handleClient (.client fd) (List.replicate n .again ++ .data c :: rest) = .returned served ∧
        served.handled.length ≤ 1 ∧ served.server.Ready) ↔
      ∀ word, methodWord c.1 = some word →
        offset word ≤ c.1.length ∧ ∃ i, find crlf c.1 = some i ∧ HeadEnds (c.1.drop (i + 2)) := by
  have hidle : HttpServer.Ready { server.busy with isHandlingRequest := false } :=
    ⟨hready.address, hready.maybeFD, rfl⟩
  rw [handleClient_data hready, serve, scan]
  cases methodWord c.1 with
  | none =>
    obtain ⟨served, hleave, hnone, hserver⟩ := leave_returned server.busy (.accepted fd)
    refine iff_of_true ⟨served, hleave, by simp [hnone], ?_⟩ fun word h => by simp at h
    rw [hserver]
    exact hidle
  | some word =>
    simp only [Option.some.injEq, forall_eq', routeAt, substr]
    by_cases hlen : offset word ≤ c.1.length
    · rw [if_pos hlen]
      cases find crlf c.1 with
      | none => simp
      | some i =>
        simp only [Option.map_some, hlen, true_and, Option.some.injEq, exists_eq_left', ← skipHead_isSome_iff]
        cases skipHead (c.1.drop (i + 2)) with
        | none => simp
        | some payload =>
          simp only [Option.elim_some, Option.isSome_some, iff_true]
          generalize (c.1.drop (offset word)).take _ = route
          obtain ⟨served, hcall, hhandled, hserver⟩ := dispatch_returned server.busy (connection fd route payload)
          refine ⟨served, hcall, by simp [hhandled], ?_⟩
          rw [hserver]
          exact hidle
    · simp [hlen]

/-- The portal that asks for credentials -/
def portal : HttpServer where
  isHandlingRequest := false
  router := [(ascii "/", fun conn => conn), (ascii "/submit", fun conn => conn)]
  notFoundHandler := fun conn => conn
  port := 3000
  maybeFD := some 3
  address := some 3000

theorem portal_ready : portal.Ready := ⟨by decide, by decide, rfl⟩

theorem handleClient_returns_portal :
    ∃ served, portal.handleClient (.client 4) (List.replicate 2 .again ++
        .data ⟨ascii "GET / HTTP/1.1\r\nHost: a\r\n\r\n", by decide⟩ :: []) = .returned served ∧
      served.handled.length ≤ 1 ∧ served.server.Ready := by
  refine (handleClient_returns_iff portal_ready 4 2 ⟨ascii "GET / HTTP/1.1\r\nHost: a\r\n\r\n", by decide⟩ []).2 ?_
  intro word hword
  have hget : methodWord (ascii "GET / HTTP/1.1\r\nHost: a\r\n\r\n") = some (ascii "GET") := by decide
  obtain rfl : ascii "GET" = word := Option.some.inj (hget.symm.trans hword)
  exact ⟨by decide, 14, by decide, by decide⟩

/-- A method word alone terminates the process. -/
theorem handleClient_crash :
    portal.handleClient (.client 4) [.data ⟨ascii "POST", by decide⟩] = .terminated ∧
      ¬ ∃ served, portal.handleClient (.client 4) [.data ⟨ascii "POST", by decide⟩] = .returned served ∧
        served.handled.length ≤ 1 ∧ served.server.Ready := by
  have hscan : scan (ascii "POST") = .noRoute := by
    have hword : methodWord (ascii "POST") = some (ascii "POST") := by decide
    have hroute : routeAt (offset (ascii "POST")) (ascii "POST") = none := by decide
    simp only [scan, hword, hroute]
  have hrun : portal.handleClient (.client 4) [.data ⟨ascii "POST", by decide⟩] = .terminated := by
    have := handleClient_data portal_ready 4 0 ⟨ascii "POST", by decide⟩ []
    rwa [serve, hscan] at this
  refine ⟨hrun, ?_⟩
  rintro ⟨served, h, -⟩
  rw [hrun] at h
  cases h

/-! ### Well-formed requests -/

/-- The words that can be taken for a method: its own, and those that are searched for earlier. -/
def Misreads (method : Method) (word : Bytes) : Prop :=
  word = method.word ∨ word = ascii "POST" ∨ word = ascii "GET" ∧ method = .options

private theorem methodWord_of_infix {method : Method} {b : Bytes} (h : method.word <:+: b) :
    ∃ word, methodWord b = some word ∧ Misreads method word := by
  have hown : find method.word b ≠ none := by
    rw [ne_eq, find_eq_none_iff, not_not]
    exact h
  unfold methodWord
  by_cases hpost : find (ascii "POST") b ≠ none
  · exact ⟨_, if_pos hpost, Or.inr (Or.inl rfl)⟩
  · rw [if_neg hpost]
    cases method with
    | post => exact absurd hown hpost
    | get => exact ⟨_, if_pos hown, Or.inl rfl⟩
    | options =>
      by_cases hget : find (ascii "GET") b ≠ none
      · exact ⟨_, if_pos hget, Or.inr (Or.inr ⟨rfl, rfl⟩)⟩
      · rw [if_neg hget]
        exact ⟨_, if_pos hown, Or.inl rfl⟩

private theorem routeAt_split {a b rest : Bytes} (hb : SP ∉ b) {n : Nat} (hn : a.length = n) :
    routeAt n (a ++ (b ++ SP :: rest)) = some b := by
  have hle : n ≤ (a ++ (b ++ SP :: rest)).length := by rw [List.length_append]; omega
  have hfind : find [SP] (b ++ SP :: rest) = some b.length := by
    have := find_append_here hb [] rest
    simpa using this
  rw [routeAt, substr, if_pos hle, List.drop_left' hn, Option.map_some, hfind, Option.getD_some, List.take_left' rfl]

/-- What is taken for the route of a request when `word` is taken for its method. -/
def routeFor (m : HttpRequest) (word : Bytes) : Bytes :=
  if offset word ≤ m.method.word.length then m.method.word.drop (offset word)
  else m.target.drop (offset word - m.method.word.length - 1)

private theorem routeAt_request (m : HttpRequest) {word : Bytes} (hword : Misreads m.method word) (t : Bytes) :
    routeAt (offset word) (m.requestLine ++ t) = some (routeFor m word) := by
  have htarget := List.length_pos_iff.2 m.target_ne
  have hoffset : offset word ≤ m.method.word.length + 2 := by
    rcases hword with rfl | rfl | ⟨rfl, hm⟩
    · simp only [offset]; omega
    · cases m.method <;> decide
    · rw [hm]; decide
  have hsp : SP ∉ m.method.word := by cases m.method <;> decide
  unfold routeFor
  by_cases hshort : offset word ≤ m.method.word.length
  · have hsplit : m.requestLine ++ t = m.method.word.take (offset word) ++ (m.method.word.drop (offset word) ++
        SP :: (m.target ++ SP :: (ascii "HTTP/1." ++ [m.minor]) ++ t)) := by
      rw [← List.append_assoc, List.take_append_drop]
      simp [HttpRequest.requestLine]
    have hsp' : SP ∉ m.method.word.drop (offset word) := fun h => hsp ((List.drop_sublist _ _).subset h)
    rw [if_pos hshort, hsplit]
    exact routeAt_split hsp' (by rw [List.length_take]; omega)
  · generalize hk : offset word - m.method.word.length - 1 = k
    have hsplit : m.requestLine ++ t = (m.method.word ++ SP :: m.target.take k) ++ (m.target.drop k ++
        SP :: (ascii "HTTP/1." ++ [m.minor] ++ t)) := by
      simp only [HttpRequest.requestLine, List.append_assoc, List.cons_append]
      rw [← List.append_assoc (m.target.take k), List.take_append_drop]
    have hsp' : SP ∉ m.target.drop k := fun h => m.target_line.2 ((List.drop_sublist _ _).subset h)
    rw [if_neg hshort, hsplit]
    refine routeAt_split hsp' ?_
    simp only [List.length_append, List.length_cons, List.length_take]
    omega

/-- The route is the target if the method is its own, or if the target is by chance what is left of the method. -/
theorem routeFor_eq_target_iff (m : HttpRequest) {word : Bytes} (hword : Misreads m.method word) :
    routeFor m word = m.target ↔ word = m.method.word ∨ m.target = m.method.word.drop (offset word) := by
  have htarget := List.length_pos_iff.2 m.target_ne
  unfold routeFor
  by_cases hshort : offset word ≤ m.method.word.length
  · have hne : word ≠ m.method.word := by
      rintro rfl
      simp [offset] at hshort
    rw [if_pos hshort]
    simp [hne, eq_comm]
  · rw [if_neg hshort]
    by_cases hown : word = m.method.word
    · subst hown
      simp [offset]
    · have hnil : m.method.word.drop (offset word) = [] := List.drop_eq_nil_of_le (by omega)
      have hlong : 0 < offset word - m.method.word.length - 1 := by
        rcases hword with h | rfl | ⟨rfl, hm⟩
        · exact absurd h hown
        · revert hown hshort
          cases m.method <;> decide
        · rw [hm] at hshort
          exact absurd (by decide) hshort
      refine iff_of_false ?_ ?_
      · intro h
        have := congrArg List.length h
        rw [List.length_drop] at this
        omega
      · rintro (h | h)
        · exact hown h
        · exact m.target_ne (h.trans hnil)

/-- What the server makes of a text that starts with the request line of `m`. -/
theorem scan_requestLine (m : HttpRequest) (t : Bytes) :
    ∃ word, methodWord (m.requestLine ++ crlf ++ t) = some word ∧ Misreads m.method word ∧
      scan (m.requestLine ++ crlf ++ t) = (skipHead t).elim .badCode (.request (routeFor m word)) := by
  have hinf : m.method.word <:+: m.requestLine ++ crlf ++ t := by
    rw [HttpRequest.requestLine, List.append_assoc, List.append_assoc]
    exact (List.prefix_append _ _).isInfix
  obtain ⟨word, hword, hmis⟩ := methodWord_of_infix hinf
  have hroute : routeAt (offset word) (m.requestLine ++ crlf ++ t) = some (routeFor m word) := by
    rw [List.append_assoc]
    exact routeAt_request m hmis _
  have hfind : find crlf (m.requestLine ++ crlf ++ t) = some m.requestLine.length :=
    find_append_here m.requestLine_line.1 [LF] t
  have hdrop : (m.requestLine ++ crlf ++ t).drop (m.requestLine.length + 2) = t := List.drop_left' (by simp)
  refine ⟨word, hword, hmis, ?_⟩
  simp only [scan, hword, hroute, hfind, hdrop]

/-- The whole request in one read -/
def wholeRead (m : HttpRequest) (hsize : m.render.length ≤ maxSize) : Chunk maxSize :=
  ⟨m.render, by simp [HttpRequest.render, HttpRequest.requestLine], hsize⟩

private theorem afterRequestLine_nil {m : HttpRequest} (h : m.headerLines = []) :
    m.afterRequestLine = crlf ++ m.body := by
  simp [HttpRequest.afterRequestLine, h]

/-- A request in one read is routed to its target exactly when its own method is the first one found, or the target is
by chance what is left of the method, and the header loop gets through. -/
theorem handleClient_route_iff {server : HttpServer} (hready : server.Ready) (fd n : Nat) (m : HttpRequest)
    (hsize : m.render.length ≤ maxSize) (rest : List ReadResult) :
    (∃ served call,
        server.handleClient (.client fd) (List.replicate n .again ++ .data (wholeRead m hsize) :: rest) =
          .returned served ∧ served.handled = [call] ∧ call.2.currentRoute = m.target) ↔
      (∃ word, methodWord m.render = some word ∧
        (word = m.method.word ∨ m.target = m.method.word.drop (offset word))) ∧ HeadEnds m.afterRequestLine := by
  obtain ⟨word, hword, hmis, hscan⟩ := scan_requestLine m m.afterRequestLine
  rw [handleClient_data hready, ← skipHead_isSome_iff]
  show (∃ served call, serve server.busy fd m.render = .returned served ∧ _) ↔ _
  have hroute : (∃ word, methodWord m.render = some word ∧
      (word = m.method.word ∨ m.target = m.method.word.drop (offset word))) ↔ routeFor m word = m.target := by
    rw [routeFor_eq_target_iff m hmis, HttpRequest.render, hword]
    simp
  rw [hroute, exists_call_iff server.busy fd fun conn => conn.currentRoute = m.target, HttpRequest.render, hscan]
  cases skipHead m.afterRequestLine with
  | none => simp
  | some payload =>
    constructor
    · rintro ⟨route, payload', hreq, htarget⟩
      exact ⟨(Scan.request.inj hreq).1.trans htarget, rfl⟩
    · rintro ⟨htarget, -⟩
      exact ⟨_, _, rfl, htarget⟩

/-- A form sent to the portal -/
def submitForm : HttpRequest where
  method := .post
  target := ascii "/submit"
  minor := 49
  headerLines := [ascii "Content-Length: 6"]
  body := ascii "ssid=a"
  target_ne := by decide
  target_line := by decide
  minor_digit := isDigit_one
  headers_line := by decide

theorem handleClient_route_submit :
    ∃ served call,
      portal.handleClient (.client 4) (List.replicate 1 .again ++ .data (wholeRead submitForm (by decide)) :: []) =
        .returned served ∧ served.handled = [call] ∧ call.2.currentRoute = ascii "/submit" :=
  (handleClient_route_iff portal_ready 4 1 submitForm (by decide) []).2 ⟨⟨_, by decide, Or.inl rfl⟩, by decide⟩

/-- The preflight of a form -/
def preflight : HttpRequest where
  method := .options
  target := ascii "/submit"
  minor := 49
  headerLines := [ascii "Access-Control-Request-Method: POST"]
  body := []
  target_ne := by decide
  target_line := by decide
  minor_digit := isDigit_one
  headers_line := by decide

/-- A method named in a header line shifts the route. -/
theorem handleClient_route_preflight :
    (∃ served call, portal.handleClient (.client 4) [.data (wholeRead preflight (by decide))] = .returned served ∧
        served.handled = [call] ∧ call.2.currentRoute = ascii "NS") ∧
      ¬ ∃ served call, portal.handleClient (.client 4) [.data (wholeRead preflight (by decide))] = .returned served ∧
        served.handled = [call] ∧ call.2.currentRoute = preflight.target := by
  have hrun : portal.handleClient (.client 4) [.data (wholeRead preflight (by decide))] =
      serve portal.busy 4 preflight.render := handleClient_data portal_ready 4 0 _ []
  have hscan : scan preflight.render = .request (ascii "NS") [] := by
    obtain ⟨word, hword, -, hscan⟩ := scan_requestLine preflight preflight.afterRequestLine
    have hpost : methodWord preflight.render = some (ascii "POST") := by decide
    obtain rfl : ascii "POST" = word := Option.some.inj (hpost.symm.trans hword)
    rw [HttpRequest.render, hscan, HttpRequest.afterRequestLine, skipHead_head (by decide) preflight.headers_cr]
    rfl
  rw [hrun, exists_call_iff portal.busy 4 fun conn => conn.currentRoute = ascii "NS",
    exists_call_iff portal.busy 4 fun conn => conn.currentRoute = preflight.target, hscan]
  constructor
  · exact ⟨_, _, rfl, rfl⟩
  · rintro ⟨route, payload, hreq, htarget⟩
    cases hreq
    revert htarget
    decide

/-- Without a header line the search for the end of the head runs on into the body. -/
private theorem skipHead_crlf_iff (body : Bytes) : skipHead (crlf ++ body) = some body ↔ body = [] := by
  by_cases hpre : crlf <+: body
  · obtain ⟨t, rfl⟩ := hpre
    have hblank : skipHead (crlf ++ (crlf ++ t)) = some t := skipHead_blank (l := []) (by simp) t
    refine iff_of_false ?_ (by simp)
    intro h
    have hlen := congrArg List.length (Option.some.inj (hblank.symm.trans h))
    rw [List.length_append, List.length_cons] at hlen
    omega
  · have hline : skipHead (crlf ++ body) = skipHead body := skipHead_line (l := []) (by simp) hpre
    rw [hline]
    constructor
    · intro h
      by_contra hbody
      exact absurd (length_skipHead_lt hbody h) (by omega)
    · rintro rfl
      exact skipHead_nil

/-- The handler of a request in one read sees its body exactly when the request has a header line or no body. -/
theorem handleClient_payload_iff {server : HttpServer} (hready : server.Ready) (fd n : Nat) (m : HttpRequest)
    (hsize : m.render.length ≤ maxSize) (rest : List ReadResult) :
    (∃ served call,
        server.handleClient (.client fd) (List.replicate n .again ++ .data (wholeRead m hsize) :: rest) =
          .returned served ∧ served.handled = [call] ∧ call.2.currentPayload = m.body) ↔
      m.headerLines ≠ [] ∨ m.body = [] := by
  obtain ⟨word, -, -, hscan⟩ := scan_requestLine m m.afterRequestLine
  have hskip : skipHead m.afterRequestLine = some m.body ↔ m.headerLines ≠ [] ∨ m.body = [] := by
    by_cases hne : m.headerLines = []
    · rw [afterRequestLine_nil hne, skipHead_crlf_iff]
      simp [hne]
    · rw [HttpRequest.afterRequestLine, skipHead_head hne m.headers_cr]
      simp [hne]
  rw [handleClient_data hready, ← hskip]
  show (∃ served call, serve server.busy fd m.render = .returned served ∧ _) ↔ _
  rw [exists_call_iff server.busy fd fun conn => conn.currentPayload = m.body, HttpRequest.render, hscan]
  cases skipHead m.afterRequestLine with
  | none => simp
  | some payload =>
    constructor
    · rintro ⟨route, payload', hreq, hbody⟩
      exact congrArg some ((Scan.request.inj hreq).2.trans hbody)
    · intro h
      exact ⟨_, _, rfl, Option.some.inj h⟩

theorem handleClient_payload_submit :
    ∃ served call,
      portal.handleClient (.client 4) (List.replicate 1 .again ++ .data (wholeRead submitForm (by decide)) :: []) =
        .returned served ∧ served.handled = [call] ∧ call.2.currentPayload = ascii "ssid=a" :=
  (handleClient_payload_iff portal_ready 4 1 submitForm (by decide) []).2 (Or.inl (by decide))

/-- A form without header lines -/
def bareForm : HttpRequest := { submitForm with headerLines := [], headers_line := by decide }

/-- A body behind an empty header makes the call panic. -/
theorem handleClient_payload_bare :
    portal.handleClient (.client 4) [.data (wholeRead bareForm (by decide))] = .panicked (ascii "Bad code") ∧
      ¬ ∃ served call, portal.handleClient (.client 4) [.data (wholeRead bareForm (by decide))] = .returned served ∧
        served.handled = [call] ∧ call.2.currentPayload = bareForm.body := by
  have hskip : skipHead bareForm.afterRequestLine = none := by
    have hpre : ¬ crlf <+: bareForm.body := by decide
    have hline : skipHead (crlf ++ bareForm.body) = skipHead bareForm.body := skipHead_line (l := []) (by simp) hpre
    rw [afterRequestLine_nil rfl, hline]
    exact skipHead_broken (by decide) (by decide)
  have hrun : portal.handleClient (.client 4) [.data (wholeRead bareForm (by decide))] =
      .panicked (ascii "Bad code") := by
    have hserve : portal.handleClient (.client 4) [.data (wholeRead bareForm (by decide))] =
        serve portal.busy 4 bareForm.render := handleClient_data portal_ready 4 0 _ []
    obtain ⟨word, -, -, hscan⟩ := scan_requestLine bareForm bareForm.afterRequestLine
    rw [hserve, serve, HttpRequest.render, hscan, hskip]
    rfl
  refine ⟨hrun, ?_⟩
  rintro ⟨served, call, h, -⟩
  rw [hrun] at h
  cases h

end HttpServer

end IopHal
