import IopHal.Server.Routing

/-!
# Requests cut into reads

A call handles the first read that delivers bytes and leaves its loop, so a request cut into several reads is handled
as its first piece.  `scan_cut` follows a cut through the head of a request: the piece reaches the body, ends behind a
line of the head, or is refused.  `handleClient_cut_iff` says for which pieces the handler cannot tell the difference.
-/

namespace IopHal

open Find Feed Framing

namespace HttpServer

/-- The bytes that the reads deliver. -/
def delivered (reads : List ReadResult) : Bytes :=
  reads.flatMap fun
    | .data c => c.1
    | _ => []

def firstData : List ReadResult → Option Bytes
  | [] => none
  | .data c :: _ => some c.1
  | _ :: reads => firstData reads

/-- The text ends directly behind the request line or a header line. -/
def EndsInHead (m : HttpRequest) (c : Bytes) : Prop :=
  ∃ ls₁ ls₂, m.headerLines = ls₁ ++ ls₂ ∧ c = unlines crlf (m.requestLine :: ls₁)

/-- The same method is found in both texts, or by chance the target is what is left of the method. -/
def SameRoute (m : HttpRequest) (c : Bytes) : Prop :=
  methodWord c = methodWord m.render ∨
    methodWord c = some m.method.word ∧ ∃ word, methodWord m.render = some word ∧ m.target = m.method.word.drop (offset word)

/-! ### The first piece -/

private theorem render_eq (m : HttpRequest) :
    m.render = unlines crlf (m.requestLine :: (m.headerLines ++ [[]])) ++ m.body := by
  simp [HttpRequest.render, HttpRequest.afterRequestLine]

/-- A piece that breaks a line has no CRLF behind its last whole line. -/
private theorem scan_broken {m : HttpRequest} {ls : List Bytes} {p : Bytes}
    (hls : ∀ l ∈ ls, l ∈ m.requestLine :: m.headerLines) (hfirst : ∀ l rest, ls = l :: rest → l = m.requestLine)
    (hp : p ≠ []) (hlf : LF ∉ p) (route payload : Bytes) : scan (unlines crlf ls ++ p) ≠ .request route payload := by
  have hcr : ∀ l ∈ m.requestLine :: m.headerLines, l ≠ [] ∧ CR ∉ l := by
    rw [List.forall_mem_cons]
    refine ⟨⟨?_, m.requestLine_line.1⟩, m.headers_cr⟩
    simp [HttpRequest.requestLine]
  cases ls with
  | nil =>
    have hfind : find crlf p = none := by
      rw [find_eq_none_iff]
      intro hinf
      exact hlf (hinf.subset (by simp))
    show scan p ≠ .request route payload
    unfold scan
    split
    · simp
    · split
      · simp
      · simp [hfind]
  | cons l ls =>
    obtain rfl := hfirst l ls rfl
    have hpre : ¬ crlf <+: p := fun h => hlf (h.subset (by simp))
    have hskip : skipHead (unlines crlf ls ++ p) = none := by
      rw [skipHead_lines (fun l hl => hcr l (hls l (List.mem_cons_of_mem _ hl))) hpre, skipHead_broken hp hlf]
    obtain ⟨word, -, -, hscan⟩ := scan_requestLine m (unlines crlf ls ++ p)
    rw [unlines_cons, List.append_assoc, hscan, hskip]
    simp

/-- The first piece reaches the body, ends behind a line of the head, or is not a request. -/
theorem scan_cut {m : HttpRequest} (hlines : m.headerLines ≠ []) {c t : Bytes} (hc : c ≠ []) (h : c ++ t = m.render) :
    (∃ b word, m.body = b ++ t ∧ methodWord c = some word ∧ Misreads m.method word ∧
        scan c = .request (routeFor m word) b) ∨
      (t ≠ [] ∧ EndsInHead m c ∧ ∃ word, methodWord c = some word ∧ Misreads m.method word ∧
        scan c = .request (routeFor m word) []) ∨
      (t ≠ [] ∧ ¬ EndsInHead m c ∧ ∀ route payload, scan c ≠ .request route payload) := by
  have hscan : ∀ u payload, c = m.requestLine ++ crlf ++ u → skipHead u = some payload →
      ∃ word, methodWord c = some word ∧ Misreads m.method word ∧ scan c = .request (routeFor m word) payload := by
    rintro u payload rfl hskip
    obtain ⟨word, hword, hmis, hscan⟩ := scan_requestLine m u
    rw [hskip] at hscan
    exact ⟨word, hword, hmis, hscan⟩
  have hreach : ∀ b, c = unlines crlf (m.requestLine :: (m.headerLines ++ [[]])) ++ b → m.body = b ++ t →
      ∃ b word, m.body = b ++ t ∧ methodWord c = some word ∧ Misreads m.method word ∧
        scan c = .request (routeFor m word) b := by
    intro b hcb hbody
    rw [unlines_cons, List.append_assoc] at hcb
    obtain ⟨word, hword⟩ := hscan _ b hcb (skipHead_head hlines m.headers_cr b)
    exact ⟨b, word, hbody, hword⟩
  have hhead : EndsInHead m c → ∃ word, methodWord c = some word ∧ Misreads m.method word ∧
      scan c = .request (routeFor m word) [] := by
    rintro ⟨ls₁, ls₂, hsplit, hcl⟩
    have hcr₁ : ∀ l ∈ ls₁, l ≠ [] ∧ CR ∉ l := fun l hl => m.headers_cr l (hsplit ▸ List.mem_append_left _ hl)
    have hskip : skipHead (unlines crlf ls₁) = some [] := by
      have := skipHead_lines hcr₁ (t := []) (by decide)
      rw [List.append_nil, skipHead_nil] at this
      exact this
    exact hscan _ [] hcl hskip
  have hline : ∀ l ∈ m.requestLine :: m.headerLines, IsLine l := by
    rw [List.forall_mem_cons]
    exact ⟨m.requestLine_line, fun l hl => (m.headers_line l hl).2⟩
  rw [render_eq, ← List.cons_append] at h
  rcases head_cases hline h with ⟨b, hcb, hbody⟩ | ⟨ls₁, ls₂, hsplit, hcl, ht⟩ |
    ⟨ls₁, l, ls₂, p, q, hsplit, hmem, hcl, -, hp, -, hlf, ht⟩
  · exact Or.inl (hreach b hcb hbody)
  · cases ls₁ with
    | nil => exact absurd hcl hc
    | cons l ls₁ =>
      obtain ⟨rfl, hheaders⟩ := List.cons.inj hsplit
      have hends : EndsInHead m c := ⟨ls₁, ls₂, hheaders, hcl⟩
      have hne : t ≠ [] := by simp [ht]
      exact Or.inr (Or.inl ⟨hne, hends, hhead hends⟩)
  · have hfirst : ∀ l' rest, ls₁ = l' :: rest → l' = m.requestLine := by
      rintro l' rest rfl
      exact (List.cons.inj hsplit).1.symm
    have hrefused : ∀ route payload, scan c ≠ .request route payload := by
      intro route payload
      rw [hcl]
      exact scan_broken hmem hfirst hp hlf route payload
    refine Or.inr (Or.inr ⟨ht, ?_, hrefused⟩)
    intro hends
    obtain ⟨word, -, -, hreq⟩ := hhead hends
    exact hrefused _ _ hreq

/-! ### Routes -/

theorem infix_of_methodWord {b word : Bytes} (h : methodWord b = some word) : word <:+: b := by
  unfold methodWord at h
  split at h
  · rename_i hf
    obtain rfl := Option.some.inj h
    exact not_not.1 (mt find_eq_none_iff.2 hf)
  · split at h
    · rename_i hf
      obtain rfl := Option.some.inj h
      exact not_not.1 (mt find_eq_none_iff.2 hf)
    · split at h
      · rename_i hf
        obtain rfl := Option.some.inj h
        exact not_not.1 (mt find_eq_none_iff.2 hf)
      · simp at h

/-- A text that is read as its own method has no part that is read as another one. -/
theorem methodWord_of_prefix {method : Method} {b b' word : Bytes} (hpre : b <+: b')
    (hword : methodWord b = some word) (hmis : Misreads method word) (hown : methodWord b' = some method.word) :
    word = method.word := by
  have hin : word <:+: b' := (infix_of_methodWord hword).trans hpre.isInfix
  rcases hmis with h | rfl | ⟨rfl, rfl⟩
  · exact h
  · have hpost : methodWord b' = some (ascii "POST") := if_pos (mt find_eq_none_iff.1 (not_not.2 hin))
    exact Option.some.inj (hpost.symm.trans hown)
  · exfalso
    unfold methodWord at hown
    have hget : find (ascii "GET") b' ≠ none := mt find_eq_none_iff.1 (not_not.2 hin)
    rw [if_pos hget] at hown
    split at hown <;> revert hown <;> decide

private theorem routeFor_eq_iff {m : HttpRequest} {word word' : Bytes} (hmis : Misreads m.method word)
    (hmis' : Misreads m.method word') (hown : word' = m.method.word → word = m.method.word) :
    routeFor m word = routeFor m word' ↔
      word = word' ∨ word = m.method.word ∧ m.target = m.method.word.drop (offset word') := by
  by_cases hw : word = m.method.word
  · have htarget : routeFor m word = m.target := (routeFor_eq_target_iff m hmis).2 (Or.inl hw)
    rw [htarget, eq_comm, routeFor_eq_target_iff m hmis', hw]
    simp [eq_comm]
  · have hw' : word' ≠ m.method.word := fun h => hw (hown h)
    -- two words that are not the method's own can only be POST and GET, of an OPTIONS request
    constructor
    · intro h
      refine Or.inl ?_
      rcases hmis with h₁ | h₁ | ⟨h₁, hm⟩
      · exact absurd h₁ hw
      · rcases hmis' with h₂ | h₂ | ⟨h₂, hm⟩
        · exact absurd h₂ hw'
        · rw [h₁, h₂]
        · rw [h₁, h₂, routeFor, routeFor, hm, if_pos (by decide), if_pos (by decide)] at h
          exact absurd h (by decide)
      · rcases hmis' with h₂ | h₂ | ⟨h₂, -⟩
        · exact absurd h₂ hw'
        · rw [h₁, h₂, routeFor, routeFor, hm, if_pos (by decide), if_pos (by decide)] at h
          exact absurd h (by decide)
        · rw [h₁, h₂]
    · rintro (rfl | ⟨h, -⟩)
      · rfl
      · exact absurd h hw

/-! ### Calls -/

private theorem exists_first_data {reads : List ReadResult} (hreads : ∀ r ∈ reads, r = .again ∨ ∃ c, r = .data c)
    (hne : delivered reads ≠ []) :
    ∃ n c rest, reads = List.replicate n .again ++ .data c :: rest ∧ firstData reads = some c.1 ∧
      delivered reads = c.1 ++ delivered rest := by
  induction reads with
  | nil => exact absurd rfl hne
  | cons r reads ih =>
    rcases hreads r (List.mem_cons_self ..) with rfl | ⟨c, rfl⟩
    · obtain ⟨n, c, rest, rfl, hfirst, hbytes⟩ := ih (fun r hr => hreads r (List.mem_cons_of_mem _ hr)) hne
      exact ⟨n + 1, c, rest, rfl, hfirst, hbytes⟩
    · exact ⟨0, c, reads, rfl, rfl, rfl⟩

/-- Two texts of which the second is a request lead to the same call exactly when the first one is the same request. -/
private theorem same_call_iff (server : HttpServer) (fd : Nat) {b b' route payload : Bytes}
    (hb' : scan b' = .request route payload) :
    (∃ served served' call, serve server fd b = .returned served ∧ serve server fd b' = .returned served' ∧
        served.handled = [call] ∧ served'.handled = [call] ∧ call.2.currentPayload = payload) ↔
      scan b = .request route payload := by
  constructor
  · rintro ⟨served, served', call, hserved, hserved', hcall, hcall', -⟩
    obtain ⟨route₁, payload₁, hreq, rfl⟩ := (serve_handled_iff _ _).1 ⟨served, hserved, hcall⟩
    obtain ⟨route₂, payload₂, hreq', hconn⟩ := (serve_handled_iff _ _).1 ⟨served', hserved', hcall'⟩
    rw [hb'] at hreq'
    cases hreq'
    have hconn := congrArg Prod.snd hconn
    simp only [connection, HttpConnection.mk.injEq] at hconn
    rw [hreq, hconn.2.2.2.2, hconn.2.2.1]
  · intro hb
    obtain ⟨served, hserved, hcall⟩ := (serve_handled_iff server fd).2 ⟨_, _, hb, rfl⟩
    obtain ⟨served', hserved', hcall'⟩ := (serve_handled_iff server fd).2 ⟨_, _, hb', rfl⟩
    exact ⟨served, served', _, hserved, hserved', hcall, hcall', rfl⟩

/-- A request with a header line, cut into reads, is handled as if it came in one read exactly when the first read that
delivers bytes is the whole request, or when there is no body, that read ends directly behind a line of the head, and
the route is the same. -/
theorem handleClient_cut_iff {server : HttpServer} (hready : server.Ready) (fd : Nat) (m : HttpRequest)
    (hlines : m.headerLines ≠ []) (hsize : m.render.length ≤ maxSize) {reads : List ReadResult}
    (hreads : ∀ r ∈ reads, r = .again ∨ ∃ c, r = .data c) (hbytes : delivered reads = m.render) :
    (∃ served whole call, server.handleClient (.client fd) reads = .returned served ∧
        server.handleClient (.client fd) [.data (wholeRead m hsize)] = .returned whole ∧
        served.handled = [call] ∧ whole.handled = [call] ∧ call.2.currentPayload = m.body) ↔
      ∃ c, firstData reads = some c ∧ (c = m.render ∨ m.body = [] ∧ EndsInHead m c ∧ SameRoute m c) := by
  have hne : delivered reads ≠ [] := by
    rw [hbytes]
    exact (wholeRead m hsize).2.1
  obtain ⟨n, c, rest, rfl, hfirst, hcut⟩ := exists_first_data hreads hne
  have hcut : c.1 ++ delivered rest = m.render := hcut.symm.trans hbytes
  have hwhole : server.handleClient (.client fd) [.data (wholeRead m hsize)] = serve server.busy fd m.render :=
    handleClient_data hready fd 0 (wholeRead m hsize) []
  obtain ⟨word', hword', hmis', hscan'⟩ := scan_requestLine m m.afterRequestLine
  rw [HttpRequest.afterRequestLine, skipHead_head hlines m.headers_cr] at hscan'
  change methodWord m.render = some word' at hword'
  change scan m.render = .request (routeFor m word') m.body at hscan'
  rw [handleClient_data hready, hwhole, same_call_iff server.busy fd hscan']
  simp only [hfirst, Option.some.injEq, exists_eq_left']
  have hshort : delivered rest ≠ [] → c.1 ≠ m.render := by
    intro hrest h
    rw [h] at hcut
    exact hrest (List.append_right_eq_self.1 hcut)
  rcases scan_cut hlines c.2.1 hcut with ⟨b, word, hbody, hword, hmis, hscan⟩ |
    ⟨hrest, hends, word, hword, hmis, hscan⟩ | ⟨hrest, hnot, hrefused⟩
  · by_cases hrest : delivered rest = []
    · rw [hrest, List.append_nil] at hcut
      exact iff_of_true (hcut ▸ hscan') (Or.inl hcut)
    · -- the piece ends inside the body
      have hbody' : b ≠ m.body := by
        intro h
        rw [h] at hbody
        exact hrest (List.append_right_eq_self.1 hbody.symm)
      refine iff_of_false ?_ ?_
      · rw [hscan]
        intro h
        exact hbody' (Scan.request.inj h).2
      · rintro (h | ⟨hnil, -⟩)
        · exact hshort hrest h
        · rw [hnil] at hbody
          exact hrest (List.append_eq_nil_iff.1 hbody.symm).2
  · have hpre : c.1 <+: m.render := ⟨_, hcut⟩
    have hown : word' = m.method.word → word = m.method.word :=
      fun h => methodWord_of_prefix hpre hword hmis (h ▸ hword')
    rw [hscan, Scan.request.injEq, routeFor_eq_iff hmis hmis' hown]
    simp only [hshort hrest, false_or, hends, true_and, SameRoute, hword, hword', Option.some.injEq, exists_eq_left']
    rw [and_comm, eq_comm]
  · refine iff_of_false (hrefused _ _) ?_
    rintro (h | ⟨-, hends, -⟩)
    · exact hshort hrest h
    · exact hnot hends

/-- A request for the form of the portal -/
def pageRequest : HttpRequest where
  method := .get
  target := ascii "/"
  minor := 49
  headerLines := [ascii "Host: a", ascii "Accept: b"]
  body := []
  target_ne := by decide
  target_line := by decide
  minor_digit := isDigit_one
  headers_line := by decide

theorem handleClient_cut_page :
    ∃ served whole call,
      portal.handleClient (.client 4) [.again, .data ⟨ascii "GET / HTTP/1.1\r\nHost: a\r\n", by decide⟩, .again,
        .data ⟨ascii "Accept: b\r\n\r\n", by decide⟩] = .returned served ∧
      portal.handleClient (.client 4) [.data (wholeRead pageRequest (by decide))] = .returned whole ∧
      served.handled = [call] ∧ whole.handled = [call] ∧ call.2.currentPayload = [] := by
  have hreads : ∀ r ∈ [ReadResult.again, .data ⟨ascii "GET / HTTP/1.1\r\nHost: a\r\n", by decide⟩, .again,
      .data ⟨ascii "Accept: b\r\n\r\n", by decide⟩], r = .again ∨ ∃ c, r = .data c := by
    intro r hr
    simp only [List.mem_cons, List.not_mem_nil, or_false] at hr
    rcases hr with rfl | rfl | rfl | rfl
    · exact Or.inl rfl
    · exact Or.inr ⟨_, rfl⟩
    · exact Or.inl rfl
    · exact Or.inr ⟨_, rfl⟩
  refine (handleClient_cut_iff portal_ready 4 pageRequest (by decide) (by decide) hreads (by decide)).2 ?_
  exact ⟨_, rfl, Or.inr ⟨rfl, ⟨[ascii "Host: a"], [ascii "Accept: b"], rfl, by decide⟩, Or.inl (by decide)⟩⟩

/-- The head of a form in one read and its body in the next: the handler sees no body. -/
theorem handleClient_cut_before_body :
    let reads : List ReadResult :=
      [.data ⟨ascii "POST /submit HTTP/1.1\r\nContent-Length: 6\r\n\r\n", by decide⟩, .again,
        .data ⟨ascii "ssid=a", by decide⟩]
    delivered reads = submitForm.render ∧
      (∃ served call, portal.handleClient (.client 4) reads = .returned served ∧ served.handled = [call] ∧
        call.2.currentPayload = []) ∧
      ¬ ∃ served whole call, portal.handleClient (.client 4) reads = .returned served ∧
        portal.handleClient (.client 4) [.data (wholeRead submitForm (by decide))] = .returned whole ∧
        served.handled = [call] ∧ whole.handled = [call] ∧ call.2.currentPayload = submitForm.body := by
  intro reads
  have hscan : scan (ascii "POST /submit HTTP/1.1\r\nContent-Length: 6\r\n\r\n") = .request (ascii "/submit") [] := by
    obtain ⟨word, hword, -, hscan⟩ := scan_requestLine submitForm (unlines crlf (submitForm.headerLines ++ [[]]) ++ [])
    have hpost : methodWord (submitForm.requestLine ++ crlf ++ (unlines crlf (submitForm.headerLines ++ [[]]) ++ [])) =
        some (ascii "POST") := by decide
    obtain rfl : ascii "POST" = word := Option.some.inj (hpost.symm.trans hword)
    have hskip : skipHead (unlines crlf (submitForm.headerLines ++ [[]]) ++ []) = some [] :=
      skipHead_head (by decide) (by decide) []
    rw [hskip] at hscan
    exact hscan
  have hrun : portal.handleClient (.client 4) reads =
      serve portal.busy 4 (ascii "POST /submit HTTP/1.1\r\nContent-Length: 6\r\n\r\n") :=
    handleClient_data portal_ready 4 0 _ _
  rw [hrun]
  refine ⟨by decide, ?_, ?_⟩
  · exact (exists_call_iff portal.busy 4 fun conn => conn.currentPayload = []).2 ⟨_, _, hscan, rfl⟩
  · rintro ⟨served, whole, call, hserve, -, hhandled, -, hbody⟩
    obtain ⟨route, payload, hreq, rfl⟩ := (serve_handled_iff _ _).1 ⟨served, hserve, hhandled⟩
    rw [hscan] at hreq
    cases hreq
    revert hbody
    decide

end HttpServer

end IopHal
