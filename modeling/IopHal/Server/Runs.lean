import IopHal.Server.Lifecycle

/-!
# Runs of a server

What holds in every state that the calls of a server lead through: when the address means that the server listens
(`listening_iff`), and what a call of `handleClient` leaves behind (`handleClient_restores`).
-/

namespace IopHal

open Find

variable {strerror : Nat → Bytes} {past : List (Host × ServerCall)} {h h' : Host} {call : ServerCall}

/-! ### Listening -/

/-- While the address is there, the stored descriptor is one on which `bind` and `listen` have succeeded. -/
def Host.Listening (h : Host) : Prop :=
  h.address ≠ none → ∃ fd, h.maybeFD = some fd ∧ fd ∈ h.descriptors.bound ∧ fd ∈ h.descriptors.listening

/-- A descriptor is stored that does not listen. -/
def Host.Deaf (h : Host) : Prop := h.maybeFD ≠ none ∧ h.descriptors.listening = []

theorem deaf_step (hinv : h.Inv) (hfresh : call.Fresh h) (hreturned : h.perform strerror call = .returned h') :
    h'.Deaf ↔ h.Deaf ∨ Host.FailedListen (h, call) := by
  have hother : (∀ a, call ≠ .begin a) → ¬ Host.FailedListen (h, call) := by
    intro hne hfailed
    obtain ⟨a, ha, -⟩ := hfailed
    exact hne a ha
  cases call with
  | on uri handler =>
    obtain rfl := Outcome.returned.inj hreturned
    rw [or_iff_left (hother fun a => ServerCall.noConfusion)]
    unfold Host.on
    split <;> exact Iff.rfl
  | onNotFound fn =>
    obtain rfl := Outcome.returned.inj hreturned
    rw [or_iff_left (hother fun a => ServerCall.noConfusion)]
    exact Iff.rfl
  | close =>
    obtain rfl := Outcome.returned.inj hreturned
    rw [or_iff_left (hother fun a => ServerCall.noConfusion)]
    exact Iff.rfl
  | handleClient accept reads =>
    rw [or_iff_left (hother fun a => ServerCall.noConfusion)]
    obtain ⟨flag, rfl | ⟨fd, haddress, haccept, rfl⟩⟩ := Host.handleClient_eq hinv.idle hreturned
    · exact Iff.rfl
    · refine and_congr_right fun hsome => ?_
      obtain ⟨gd, hgd⟩ := Option.ne_none_iff_exists'.1 hsome
      obtain ⟨hopened, -, hlistening⟩ := hinv.stored gd hgd
      have hne : gd ≠ fd := fun heq => hfresh haddress fd haccept (heq ▸ hopened)
      show h.descriptors.listening.filter (· ≠ fd) = [] ↔ h.descriptors.listening = []
      rcases hlistening with hnil | hone
      · rw [hnil]
        exact Iff.rfl
      · rw [hone, Host.filter_singleton_ne hne]
  | begin a =>
    rcases Host.begin_returned hreturned with ⟨hsome, rfl⟩ | ⟨hnone, hnot, opened, rfl⟩ | ⟨hfailed, rfl⟩ |
      ⟨hnone, hnot, rfl⟩
    · rw [or_iff_left]
      · exact Iff.rfl
      · intro hfailed
        obtain ⟨b, -, hnone, -⟩ := hfailed
        exact hsome hnone
    · rw [or_iff_left hnot]
      exact Iff.rfl
    · apply iff_of_true
      · obtain ⟨b, -, hnone, -⟩ := hfailed
        exact ⟨Option.some_ne_none _, (hinv.empty hnone).2.2⟩
      · exact .inr hfailed
    · apply iff_of_false
      · exact fun hdeaf => absurd hdeaf.2 (List.cons_ne_nil _ _)
      · rw [or_iff_left hnot]
        exact fun hdeaf => hdeaf.1 hnone

/-- The stored descriptor does not listen exactly if the `listen` of some `begin` has failed. -/
theorem deaf_iff (hrun : Run strerror past h) : h.Deaf ↔ ∃ step ∈ past, Host.FailedListen step := by
  induction hrun with
  | create port opened =>
    apply iff_of_false
    · exact fun hdeaf => hdeaf.1 rfl
    · simp
  | @call past h h' call hrun hfresh hreturned ih =>
    rw [deaf_step hrun.inv hfresh hreturned, ih, List.exists_mem_cons_iff, or_comm]

theorem listening_step (hinv : h.Inv) (hlistening : h.Listening) (hfresh : call.Fresh h)
    (hreturned : h.perform strerror call = .returned h') : h'.Listening ↔ (h.Deaf → ∀ a, call ≠ .begin a) := by
  cases call with
  | on uri handler =>
    obtain rfl := Outcome.returned.inj hreturned
    apply iff_of_true
    · unfold Host.on
      split <;> exact hlistening
    · exact fun _ a => ServerCall.noConfusion
  | onNotFound fn =>
    obtain rfl := Outcome.returned.inj hreturned
    exact iff_of_true hlistening fun _ a => ServerCall.noConfusion
  | close =>
    obtain rfl := Outcome.returned.inj hreturned
    exact iff_of_true (fun h => absurd rfl h) fun _ a => ServerCall.noConfusion
  | handleClient accept reads =>
    refine iff_of_true ?_ fun _ a => ServerCall.noConfusion
    obtain ⟨flag, rfl | ⟨fd, haddress, haccept, rfl⟩⟩ := Host.handleClient_eq hinv.idle hreturned
    · exact hlistening
    · intro hthere
      obtain ⟨gd, hgd, hbound, hlisten⟩ := hlistening hthere
      have hne : gd ≠ fd := fun heq => hfresh haddress fd haccept (heq ▸ (hinv.stored gd hgd).1)
      have hkeep : decide (gd ≠ fd) = true := by simpa using hne
      exact ⟨gd, hgd, List.mem_filter.2 ⟨hbound, hkeep⟩, List.mem_filter.2 ⟨hlisten, hkeep⟩⟩
  | begin a =>
    rcases Host.begin_returned hreturned with ⟨hsome, rfl⟩ | ⟨hnone, hnot, opened, rfl⟩ | ⟨⟨b, -, hnone, -⟩, rfl⟩ |
      ⟨hnone, hnot, rfl⟩
    · obtain ⟨fd, hfd⟩ := Option.ne_none_iff_exists'.1 hsome
      obtain ⟨-, hbound, hlisten⟩ := hinv.stored fd hfd
      constructor
      · intro hnew hdeaf
        obtain ⟨gd, -, -, hgd⟩ := hnew (Option.some_ne_none _)
        have hmem : gd ∈ h.descriptors.listening := hgd
        rw [hdeaf.2] at hmem
        contradiction
      · intro hdeaf _
        rcases hlisten with hnil | hone
        · exact absurd rfl (hdeaf ⟨hsome, hnil⟩ a)
        · exact ⟨fd, hfd, hbound ▸ List.mem_singleton_self fd, hone ▸ List.mem_singleton_self fd⟩
    · exact iff_of_true (fun h => absurd rfl h) fun hdeaf => absurd hnone hdeaf.1
    · exact iff_of_true (fun h => absurd rfl h) fun hdeaf => absurd hnone hdeaf.1
    · refine iff_of_true (fun _ => ⟨_, rfl, ?_, ?_⟩) fun hdeaf => absurd hnone hdeaf.1
      · exact List.mem_cons_self
      · exact List.mem_cons_self

theorem listening_length_le (hrun : Run strerror past h) : h.descriptors.listening.length ≤ 1 := by
  cases hfd : h.maybeFD with
  | none =>
    rw [(hrun.inv.empty hfd).2.2]
    exact Nat.zero_le 1
  | some fd =>
    rcases (hrun.inv.stored fd hfd).2.2 with hnil | hone
    · rw [hnil]
      exact Nat.zero_le 1
    · rw [hone]
      exact Nat.le_refl 1

/-- At most one socket listens, and it is the stored one whenever the address is there, in every state of a run in which
no `begin` comes after one whose `listen` has failed, and only in those. -/
theorem listening_iff (hrun : Run strerror past h) :
    (∀ s ∈ h :: past.map Prod.fst, s.Listening ∧ s.descriptors.listening.length ≤ 1) ↔
      past.Pairwise fun later earlier => Host.FailedListen earlier → ∀ a, later.2 ≠ .begin a := by
  induction hrun with
  | create port opened =>
    refine iff_of_true (fun s hs => ?_) List.Pairwise.nil
    rw [List.map_nil, List.mem_singleton] at hs
    subst hs
    exact ⟨fun hthere => absurd rfl hthere, Nat.zero_le 1⟩
  | @call past h h' call hrun hfresh hreturned ih =>
    have hlength := listening_length_le (.call hrun hfresh hreturned)
    rw [List.pairwise_cons, ← ih, List.map_cons, List.forall_mem_cons]
    refine and_congr_left fun hall => ?_
    have hbefore := hall h List.mem_cons_self
    rw [and_iff_left hlength, listening_step hrun.inv hbefore.1 hfresh hreturned, deaf_iff hrun]
    constructor
    · intro hdeaf step hstep hfailed
      exact hdeaf ⟨step, hstep, hfailed⟩
    · intro hpast hdeaf
      obtain ⟨step, hstep, hfailed⟩ := hdeaf
      exact hpast step hstep hfailed

/-- The answers to a first `begin` that gets its socket, and to a later one. -/
def wellBegun : BeginAnswers := ⟨3, 0, 2, 0, 0, 0, 0, true⟩

def begunHost : Host := { Host.create 80 [] with maybeFD := some 3, address := some 3000, descriptors := ⟨[3], [3], [3]⟩ }

/-- A server that is closed between two trials and begins again on the same socket. -/
theorem reopened : Run (fun _ => [])
    [(begunHost.close, .begin wellBegun), (begunHost, .close), (.create 80 [], .begin wellBegun)] begunHost := by
  refine .call (.call (.call (.create 80 []) ?_ rfl) trivial rfl) ?_ rfl
  · exact fun _ => List.not_mem_nil
  · intro hnone
    contradiction

theorem listening_reopened :
    [begunHost, begunHost.close, begunHost, .create 80 []].Forall fun s =>
      s.Listening ∧ s.descriptors.listening.length ≤ 1 := by
  rw [List.forall_iff_forall_mem]
  apply (listening_iff reopened).2
  have hbegan : ∀ s, ¬ Host.FailedListen (s, .begin wellBegun) := by
    intro s hfailed
    obtain ⟨a, ha, -, -, -, -, -, hlisten⟩ := hfailed
    cases ha
    revert hlisten
    decide
  have hclosed : ∀ s, ¬ Host.FailedListen (s, .close) := by
    intro s hfailed
    obtain ⟨a, ha, -⟩ := hfailed
    contradiction
  simp [List.pairwise_cons, hbegan, hclosed]

/-- After a `listen` that fails, the next `begin` sets the address all the same. -/
theorem listening_after_failure :
    ∃ h₁ h₂ : Host, Run (fun _ => [])
        [(h₁, .begin wellBegun), (.create 80 [], .begin { wellBegun with listen := -1 })] h₂ ∧
      h₂.address ≠ none ∧ h₂.maybeFD = some 3 ∧ 3 ∉ h₂.descriptors.listening := by
  refine ⟨_, _, .call (.call (.create 80 []) ?_ rfl) ?_ rfl, ?_, rfl, ?_⟩
  · exact fun _ => List.not_mem_nil
  · intro hnone
    contradiction
  · exact Option.some_ne_none _
  · exact List.not_mem_nil

/-! ### A call of `handleClient` -/

/-- The handler that a call registers for a route. -/
def ServerCall.registers (route : Bytes) : ServerCall → Option Program
  | on uri handler => if uri.text = route then some handler else none
  | _ => none

/-- The handler that a call sets for other routes. -/
def ServerCall.setsNotFound : ServerCall → Option Program
  | onNotFound fn => some fn
  | _ => none

theorem lookup_on (h : Host) (uri : StaticString) (handler : Program) (route : Bytes) :
    (h.on uri handler).router.lookup route =
      (h.router.lookup route).or ((ServerCall.on uri handler).registers route) := by
  have hregisters : (ServerCall.on uri handler).registers route = if uri.text = route then some handler else none := rfl
  rw [hregisters]
  unfold Host.on
  cases huri : h.router.lookup uri.text with
  | none =>
    show (h.router ++ [(uri.text, handler)]).lookup route = _
    rw [List.lookup_append, List.lookup_cons]
    by_cases hroute : uri.text = route
    · subst hroute
      simp
    · have hbeq : (route == uri.text) = false := by simpa using Ne.symm hroute
      rw [hbeq, if_neg hroute]
      rfl
  | some first =>
    rw [Option.isSome_some, if_pos rfl]
    by_cases hroute : uri.text = route
    · subst hroute
      rw [huri]
      rfl
    · rw [if_neg hroute, Option.or_none]

/-- What a call that returns does to the handlers. -/
theorem handlers_step (hinv : h.Inv) (hreturned : h.perform strerror call = .returned h') (route : Bytes) :
    h'.router.lookup route = (h.router.lookup route).or (call.registers route) ∧
      h'.notFoundHandler = call.setsNotFound.getD h.notFoundHandler := by
  cases call with
  | on uri handler =>
    obtain rfl := Outcome.returned.inj hreturned
    refine ⟨lookup_on h uri handler route, ?_⟩
    unfold Host.on
    split <;> rfl
  | onNotFound fn =>
    obtain rfl := Outcome.returned.inj hreturned
    exact ⟨(Option.or_none).symm, rfl⟩
  | close =>
    obtain rfl := Outcome.returned.inj hreturned
    exact ⟨(Option.or_none).symm, rfl⟩
  | handleClient accept reads =>
    obtain ⟨flag, rfl | ⟨fd, -, -, rfl⟩⟩ := Host.handleClient_eq hinv.idle hreturned
    · exact ⟨(Option.or_none).symm, rfl⟩
    · exact ⟨(Option.or_none).symm, rfl⟩
  | begin a =>
    rcases Host.begin_returned hreturned with ⟨-, rfl⟩ | ⟨-, -, opened, rfl⟩ | ⟨-, rfl⟩ | ⟨-, -, rfl⟩
    · exact ⟨(Option.or_none).symm, rfl⟩
    · exact ⟨(Option.or_none).symm, rfl⟩
    · exact ⟨(Option.or_none).symm, rfl⟩
    · exact ⟨(Option.or_none).symm, rfl⟩

/-- The handlers of a server: the first that was registered for a route, and the last that was set for other routes. -/
theorem handlers_run (hrun : Run strerror past h) (route : Bytes) :
    h.router.lookup route = past.reverse.findSome? (fun step => step.2.registers route) ∧
      h.notFoundHandler = (past.findSome? fun step => step.2.setsNotFound).getD notFound := by
  induction hrun with
  | create port opened => exact ⟨rfl, rfl⟩
  | @call past h h' call hrun hfresh hreturned ih =>
    obtain ⟨hrouter, hfn⟩ := handlers_step hrun.inv hreturned route
    constructor
    · rw [hrouter, ih.1, List.reverse_cons, List.findSome?_append]
      simp
    · rw [hfn, ih.2, List.findSome?_cons]
      cases call.setsNotFound <;> rfl

/-- A call of `handleClient` that returns, whatever it met: no request is being handled, the accepted connection and
nothing else was closed, once, the log is flushed if it was, and at most one handler was called, the right one. -/
theorem handleClient_restores (hrun : Run strerror past h) {accept : Accept} {reads : List ReadResult} {served : Served}
    (hreturned : h.server.handleClient accept reads = .returned served) :
    served.server.isHandlingRequest = false ∧
      (h.trace served.events).filterMap Event.closed = (if h.address = none then [] else accept.descriptor.toList) ∧
      (h.shouldFlush = true → flagAfter h.shouldFlush served.events = true) ∧
      served.handled.length ≤ 1 ∧
      ∀ called ∈ served.handled, h.invoked called.1 =
        (past.reverse.findSome? fun step => step.2.registers called.2.currentRoute).getD
          ((past.findSome? fun step => step.2.setsNotFound).getD notFound) := by
  rcases HttpServer.handleClient_returned hreturned with ⟨haddress, rfl⟩ | ⟨haddress, haccept, rfl⟩ |
    ⟨haddress, fd, haccept, hleaves⟩
  · have hnone : h.address = none := haddress
    rw [if_pos hnone]
    exact ⟨hrun.inv.idle, rfl, id, Nat.zero_le 1, fun called hcalled => absurd hcalled List.not_mem_nil⟩
  · have hsome : h.address ≠ none := haddress
    rw [if_neg hsome, haccept]
    exact ⟨rfl, rfl, id, Nat.zero_le 1, fun called hcalled => absurd hcalled List.not_mem_nil⟩
  · have hsome : h.address ≠ none := haddress
    rw [if_neg hsome, haccept]
    obtain ⟨hserver, hclosed, hflag, hhandled⟩ := Host.spec_of_leaves hleaves
    rcases hhandled with hnil | ⟨conn, hone⟩
    · refine ⟨by rw [hserver], hclosed, hflag, ?_, ?_⟩
      · rw [hnil]
        exact Nat.zero_le 1
      · intro called hcalled
        rw [hnil] at hcalled
        contradiction
    · refine ⟨by rw [hserver], hclosed, hflag, ?_, ?_⟩
      · rw [hone]
        exact Nat.le_refl 1
      · intro called hcalled
        rw [hone, List.mem_singleton] at hcalled
        obtain ⟨hrouter, hfn⟩ := handlers_run hrun conn.currentRoute
        rw [hcalled, Host.invoked_handlerOf, hrouter, hfn]

/-- A page whose handler closes the connection itself. -/
def closingPage : StaticString × Program := (⟨ascii "/", by decide⟩, fun _ => [.reset])

theorem closingRun : Run (fun _ => [])
    [(begunHost, .on closingPage.1 closingPage.2), (.create 80 [], .begin wellBegun)]
    (begunHost.on closingPage.1 closingPage.2) := by
  refine .call (.call (.create 80 []) ?_ rfl) trivial rfl
  exact fun _ => List.not_mem_nil

theorem handleClient_restores_closing :
    ∃ served, (begunHost.on closingPage.1 closingPage.2).server.handleClient (.client 4)
        (List.replicate 1 .again ++ .data ⟨ascii "GET / HTTP/1.1\r\n", by decide⟩ :: []) = .returned served ∧
      served.server.isHandlingRequest = false ∧
      ((begunHost.on closingPage.1 closingPage.2).trace served.events).filterMap Event.closed = [4] := by
  have hready : (begunHost.on closingPage.1 closingPage.2).server.Ready := ⟨by decide, by decide, rfl⟩
  have hscan : HttpServer.scan (ascii "GET / HTTP/1.1\r\n") = .request (ascii "/") [] := by
    have hword : HttpServer.methodWord (ascii "GET / HTTP/1.1\r\n") = some (ascii "GET") := by decide
    have hroute : HttpServer.routeAt (HttpServer.offset (ascii "GET")) (ascii "GET / HTTP/1.1\r\n") = some (ascii "/") := by
      decide
    have hline : find crlf (ascii "GET / HTTP/1.1\r\n") = some 14 := by decide
    have hrest : (ascii "GET / HTTP/1.1\r\n").drop (14 + 2) = [] := by decide
    simp only [HttpServer.scan, hword, hroute, hline, hrest, HttpServer.skipHead_nil, Option.elim_some]
  have hdata := HttpServer.handleClient_data hready 4 1 ⟨ascii "GET / HTTP/1.1\r\n", by decide⟩ []
  rw [HttpServer.serve, hscan] at hdata
  dsimp only at hdata
  rw [HttpServer.dispatch_eq] at hdata
  obtain ⟨hidle, hclosed, -⟩ := handleClient_restores closingRun hdata
  exact ⟨_, hdata, hidle, hclosed⟩

end IopHal
