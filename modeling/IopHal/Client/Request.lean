import IopHal.Client.SendRequest
import IopHal.Library.Http
import IopHal.Message

/-!
# The bytes of a request

`Session::addHeader`, `Session::setAuthorization` and the request that `sendRequest` writes, read back by a peer.  The
headers are a map that keeps the first value of a key; the order in which it is written does not matter (`lookup_perm`).

`request_iff` is the round trip.  The method, the headers and the body always come back.  The path does exactly if the
search for it is not led astray by a second `://` in the URI, whose scheme is gone by then, nor cut off by a terminator
(`PathFound`).
-/

namespace IopHal

open Find

/-- A call on a session that sets a header. -/
inductive HeaderCall
  | addHeader (key value : Bytes)
  | setAuthorization (auth : Bytes)

def addHeader (headers : Headers) (key value : Bytes) : Headers := headers.emplace key value

def setAuthorization (headers : Headers) (auth : Bytes) : Headers :=
  if auth.length = 0 then headers else headers.emplace (ascii "Authorization") (ascii "Basic " ++ auth)

def HeaderCall.perform (headers : Headers) : HeaderCall → Headers
  | addHeader key value => IopHal.addHeader headers key value
  | setAuthorization auth => IopHal.setAuthorization headers auth

/-- The headers of a session behind some calls. -/
def sessionHeaders (calls : List HeaderCall) : Headers := calls.foldl HeaderCall.perform []

/-! ### What a session is told -/

/-- The header that a call asks for. -/
def HeaderCall.asked : HeaderCall → Option (Bytes × Bytes)
  | addHeader key value => some (key, value)
  | setAuthorization [] => none
  | setAuthorization (c :: auth) => some (ascii "Authorization", ascii "Basic " ++ c :: auth)

/-- The first value asked for under a key. -/
def firstAsked (calls : List HeaderCall) (key : Bytes) : Option Bytes := (calls.filterMap HeaderCall.asked).lookup key

/-- The key and the value keep to one line, and the key is not the one that `sendRequest` writes itself. -/
def HeaderCall.Clean : HeaderCall → Prop
  | addHeader key value => COLON ∉ key ∧ IsLine key ∧ lower key ≠ ascii "content-length" ∧ IsLine value
  | setAuthorization auth => IsLine auth

theorem sessionHeaders_eq (calls : List HeaderCall) :
    sessionHeaders calls = Headers.emplaceAll [] (calls.filterMap HeaderCall.asked) := by
  have hfold : ∀ headers : Headers,
      calls.foldl HeaderCall.perform headers = headers.emplaceAll (calls.filterMap HeaderCall.asked) := by
    induction calls with
    | nil =>
      intro headers
      rfl
    | cons call calls ih =>
      intro headers
      rw [List.foldl_cons, ih]
      cases call with
      | addHeader key value => rfl
      | setAuthorization auth => cases auth <;> rfl
  exact hfold []

/-- A session sends the first value asked for under each key, in whatever order. -/
theorem lookup_session {calls : List HeaderCall} {headers : Headers} (h : headers.Perm (sessionHeaders calls))
    (key : Bytes) : headers.lookup key = firstAsked calls key := by
  have hnil : (([] : Headers).map Prod.fst).Nodup := List.nodup_nil
  have hnodup : ((sessionHeaders calls).map Prod.fst).Nodup := by
    rw [sessionHeaders_eq]
    exact Headers.nodup_emplaceAll hnil _
  rw [← Headers.lookup_perm h.symm hnodup, sessionHeaders_eq, Headers.lookup_emplaceAll, List.lookup_nil,
    Option.none_or]
  rfl

theorem asked_of_mem {calls : List HeaderCall} {headers : Headers} (h : headers.Perm (sessionHeaders calls))
    {f : Bytes × Bytes} (hf : f ∈ headers) : ∃ call ∈ calls, call.asked = some f := by
  have hmem : f ∈ sessionHeaders calls := h.subset hf
  rw [sessionHeaders_eq] at hmem
  rcases Headers.mem_emplaceAll hmem with hmem | hmem
  · cases hmem
  · exact List.mem_filterMap.1 hmem

/-! ### The path -/

/-- A host and a port, as `HTTPClient::begin` leaves them in front of the path. -/
abbrev Authority := { a : Bytes // 47 ∉ a ∧ SP ∉ a ∧ IsText a }

/-- The first slash behind a `://` is the one that the path begins with, counted from there and from the start of the
URI alike; and the path has no terminator in it. -/
def PathFound (authority : Authority) (path : Bytes) : Prop :=
  NUL ∉ path ∧ ∀ n, find (ascii "://") (authority.1 ++ path) = some n →
    find (ascii "/") ((authority.1 ++ path).drop (n + 3)) = some authority.1.length

section Path

variable {a : Bytes}

theorem nul_not_mem_cview (s : Bytes) : NUL ∉ cview s := by
  intro h
  simpa using List.mem_takeWhile_imp h

theorem slash_eq : ascii "/" = [47] := rfl

/-- Without the scheme, the slash that is found is the first one. -/
theorem find_slash (hslash : 47 ∉ a) (t : Bytes) : find (ascii "/") (a ++ 47 :: t) = some a.length := by
  rw [slash_eq, List.append_cons, find_append_here hslash]

/-- A rest of the URI is the path only if it is cut off at the first slash. -/
theorem cview_drop_eq_iff (hslash : 47 ∉ a) (hterminated : NUL ∉ a) (t : Bytes) (i : Nat) :
    cview ((a ++ 47 :: t).drop i) = 47 :: t ↔ i = a.length ∧ NUL ∉ t := by
  constructor
  · intro h
    have hnul : NUL ∉ 47 :: t := h ▸ nul_not_mem_cview _
    refine ⟨?_, fun hmem => hnul (List.mem_cons_of_mem _ hmem)⟩
    have hlength : (cview ((a ++ 47 :: t).drop i)).length ≤ ((a ++ 47 :: t).drop i).length :=
      (List.takeWhile_prefix _).length_le
    rw [h, List.length_drop, List.length_append, List.length_cons] at hlength
    rw [List.drop_append_of_le_length (by omega)] at h
    cases hdrop : a.drop i with
    | nil =>
      have := List.drop_eq_nil_iff.1 hdrop
      omega
    | cons c rest =>
      -- a byte of the authority comes first, and that is no slash
      have hc : c ∈ a := List.mem_of_mem_drop (hdrop ▸ List.mem_cons_self)
      have hcnul : c ≠ NUL := fun heq => hterminated (heq ▸ hc)
      rw [hdrop, List.cons_append, cview, List.takeWhile_cons_of_pos (by simpa using hcnul), List.cons.injEq] at h
      exact absurd (h.1 ▸ hc) hslash
  · rintro ⟨rfl, h⟩
    rw [List.drop_left, cview_eq_self]
    rw [List.mem_cons, not_or]
    exact ⟨by decide, h⟩

/-- A URI that ends with its only slash has no `://` in it. -/
theorem find_scheme_none (hslash : 47 ∉ a) : find (ascii "://") (a ++ [47]) = none := by
  rw [find_eq_none_iff]
  intro hinside
  have hcount := hinside.sublist.count_le 47
  have hzero : a.count 47 = 0 := List.count_eq_zero.2 hslash
  rw [List.count_append, hzero] at hcount
  revert hcount
  decide

/-- The path is what is behind the slash that is found, wherever the search for it starts, unless there is none where the
root is asked for. -/
theorem path_eq_iff (hslash : 47 ∉ a) (hterminated : NUL ∉ a) {t : Bytes} {start : Nat}
    (hroot : t = [] → find (ascii "/") (cview ((a ++ 47 :: t).drop start)) ≠ none) :
    ((find (ascii "/") (cview ((a ++ 47 :: t).drop start))).elim (ascii "/") fun i =>
        cview ((a ++ 47 :: t).drop i)) = 47 :: t ↔
      find (ascii "/") (cview ((a ++ 47 :: t).drop start)) = some a.length ∧ NUL ∉ t := by
  cases hpath : find (ascii "/") (cview ((a ++ 47 :: t).drop start)) with
  | none =>
    rw [Option.elim_none, slash_eq, List.cons.injEq]
    constructor
    · rintro ⟨-, h⟩
      exact absurd hpath (hroot h.symm)
    · rintro ⟨h, -⟩
      cases h
  | some i => rw [Option.elim_some, cview_drop_eq_iff hslash hterminated, Option.some.injEq]

/-- The slash that is found is that of the path, counted from the start of the search and from that of the URI alike. -/
theorem requestPath_eq_iff (hslash : 47 ∉ a) (hterminated : NUL ∉ a) (t : Bytes) :
    requestPath (a ++ 47 :: t) = 47 :: t ↔
      NUL ∉ 47 :: t ∧ ∀ n, find (ascii "://") (a ++ 47 :: t) = some n →
        find (ascii "/") ((a ++ 47 :: t).drop (n + 3)) = some a.length := by
  -- what the search for the slash looks at, if the path has no terminator
  have hview : NUL ∉ 47 :: t → ∀ n, cview ((a ++ 47 :: t).drop n) = (a ++ 47 :: t).drop n := by
    intro h n
    apply cview_eq_self
    intro hmem
    rcases List.mem_append.1 (List.mem_of_mem_drop hmem) with hmem | hmem
    · exact hterminated hmem
    · exact h hmem
  have hnul : NUL ∉ 47 :: t ↔ NUL ∉ t := by
    rw [List.mem_cons, not_or]
    exact and_iff_right (by decide)
  unfold requestPath
  dsimp only
  cases hhost : find (ascii "://") (a ++ 47 :: t) with
  | none =>
    have hfirst : NUL ∉ 47 :: t →
        find (ascii "/") (cview ((a ++ 47 :: t).drop 0)) = some a.length := by
      intro h
      rw [hview h 0, List.drop_zero, find_slash hslash]
    rw [Option.elim_none, path_eq_iff hslash hterminated]
    · constructor
      · rintro ⟨-, h⟩
        exact ⟨hnul.2 h, fun n hn => by cases hn⟩
      · rintro ⟨h, -⟩
        exact ⟨hfirst h, hnul.1 h⟩
    · intro ht hnone
      rw [hfirst (hnul.2 (ht ▸ List.not_mem_nil))] at hnone
      cases hnone
  | some n =>
    rw [Option.elim_some, path_eq_iff hslash hterminated]
    · constructor
      · rintro ⟨hfound, h⟩
        refine ⟨hnul.2 h, ?_⟩
        intro m hm
        obtain rfl := Option.some.inj hm
        rwa [hview (hnul.2 h)] at hfound
      · rintro ⟨h, hfound⟩
        refine ⟨?_, hnul.1 h⟩
        rw [hview h]
        exact hfound n rfl
    · intro ht
      rw [ht, find_scheme_none hslash] at hhost
      cases hhost

theorem pathFound_root (authority : Authority) : PathFound authority (ascii "/") := by
  refine ⟨by decide, ?_⟩
  intro n hn
  rw [slash_eq, find_scheme_none authority.2.1] at hn
  cases hn

/-- A URI without a path asks for the root. -/
theorem requestPath_authority (hslash : 47 ∉ a) (hterminated : NUL ∉ a) : requestPath a = ascii "/" := by
  have hnone : find (ascii "/") a = none := find_singleton_eq_none_iff.2 hslash
  have hscheme : find (ascii "://") a = none := by
    rw [find_eq_none_iff]
    intro hinside
    exact hslash (hinside.subset (by decide))
  rw [requestPath, hscheme, Option.elim_none, List.drop_zero, cview_eq_self hterminated, hnone]
  rfl

theorem mem_requestPath {uri : Bytes} {c : UInt8} (h : c ∈ requestPath uri) : c ∈ uri ∨ c = 47 := by
  unfold requestPath at h
  dsimp only at h
  cases hpath : find (ascii "/") (cview (uri.drop ((find (ascii "://") uri).elim 0 (· + 3)))) with
  | none =>
    rw [hpath, Option.elim_none, slash_eq] at h
    exact Or.inr (List.mem_singleton.1 h)
  | some i =>
    rw [hpath, Option.elim_some] at h
    exact Or.inl (List.mem_of_mem_drop (List.takeWhile_subset _ h))

end Path

/-! ### The round trip -/

/-- The URI that a request for a path goes to. -/
def UriOf (authority : Authority) (path uri : Bytes) : Prop :=
  uri = authority.1 ++ path ∨ uri = authority.1 ∧ path = ascii "/"

/-- The bytes are read as a request for the path with the first value asked for under each key, and with the data. -/
def Recovered (calls : List HeaderCall) (method path data bytes : Bytes) : Prop :=
  ∃ m, Http.readMessage bytes = some m ∧ m.first = method ∧ m.second = path ∧ m.third = ascii "HTTP/1.0" ∧
    m.body = data ∧ ∀ key, m.fields.lookup key =
      if key = ascii "Content-Length" then some (toDecimal data.length) else firstAsked calls key

/-- The header lines of a request -/
def requestFields (headers : Headers) (data : Bytes) : List Http.Field :=
  (ascii "Content-Length", toDecimal data.length) :: headers

theorem flatten_sent (ctx : SessionContext) (method data : Bytes) (recvs : List Recv) :
    (sendRequest ctx .gotIp method data recvs).sent.flatten =
      (method ++ 32 :: (requestPath ctx.uri ++ 32 :: ascii "HTTP/1.0")) ++ Http.lineEnd ++
        (Http.render (requestFields ctx.headers data) ++ Http.lineEnd ++ data) := by
  have hheaders : ∀ headers : Headers,
      (headers.flatMap fun f => [f.1, ascii ": ", f.2, crlf]).flatten = Http.render headers := by
    intro headers
    induction headers with
    | nil => rfl
    | cons f headers ih =>
      rw [List.flatMap_cons, List.flatten_append, ih]
      simp [Http.render, Http.renderField]
      rfl
  have hpieces : requestPieces ctx method data =
      [method, ascii " ", requestPath ctx.uri, ascii " HTTP/1.0\r\n", ascii "Content-Length: ",
        toDecimal data.length, crlf] ++ ctx.headers.flatMap (fun f => [f.1, ascii ": ", f.2, crlf]) ++ [crlf, data] := rfl
  rw [sendRequest, if_neg (by simp), if_neg (not_not.2 ctx.opened)]
  dsimp only
  rw [hpieces, List.flatten_append, List.flatten_append, hheaders]
  simp [Http.render, Http.renderField, requestFields]
  rfl

/-- Each header line of a request can be read. -/
theorem readable_requestFields {calls : List HeaderCall} {headers : Headers}
    (h : headers.Perm (sessionHeaders calls)) (hclean : ∀ call ∈ calls, call.Clean) (data : Bytes) :
    ∀ f ∈ requestFields headers data, Http.Readable f := by
  intro f hf
  rcases List.mem_cons.1 hf with rfl | hf
  · exact Http.readable_of_lines (by decide) (by decide) (isText_of_digits (isDigit_toDecimal _)).1.1
  · obtain ⟨call, hcall, hasked⟩ := asked_of_mem h hf
    have hclean := hclean call hcall
    cases call with
    | addHeader key value =>
      obtain rfl := Option.some.inj hasked
      exact Http.readable_of_lines hclean.1 hclean.2.1.1 hclean.2.2.2.1
    | setAuthorization auth =>
      cases auth with
      | nil => cases hasked
      | cons c auth =>
        obtain rfl := Option.some.inj hasked
        have hbasic : IsLine (ascii "Basic ") := by decide
        exact Http.readable_of_lines (by decide) (by decide) (hbasic.append hclean).1

theorem lookup_requestFields {calls : List HeaderCall} {headers : Headers}
    (h : headers.Perm (sessionHeaders calls)) (data key : Bytes) :
    (requestFields headers data).lookup key =
      if key = ascii "Content-Length" then some (toDecimal data.length) else firstAsked calls key := by
  rw [requestFields, Headers.lookup_cons, lookup_session h]

/-- The request line, whatever path is found. -/
theorem readMessage_sent {ctx : SessionContext} {calls : List HeaderCall} {method : Bytes}
    (hmethod : SP ∉ method ∧ IsLine method) (huri : SP ∉ ctx.uri ∧ IsLine ctx.uri)
    (h : ctx.headers.Perm (sessionHeaders calls)) (hclean : ∀ call ∈ calls, call.Clean) (data : Bytes)
    (recvs : List Recv) :
    Http.readMessage (sendRequest ctx .gotIp method data recvs).sent.flatten =
      some ⟨method, requestPath ctx.uri, ascii "HTTP/1.0", requestFields ctx.headers data, data⟩ := by
  have hpath : ∀ c, c ≠ 47 → c ∉ ctx.uri → c ∉ requestPath ctx.uri := by
    intro c hc huri hmem
    rcases mem_requestPath hmem with hmem | hmem
    · exact huri hmem
    · exact hc hmem
  have hcr : CR ∉ method ++ 32 :: (requestPath ctx.uri ++ 32 :: ascii "HTTP/1.0") := by
    intro hmem
    rcases List.mem_append.1 hmem with hmem | hmem
    · exact hmethod.2.1 hmem
    · rcases List.mem_append.1 (List.mem_of_ne_of_mem (by decide) hmem) with hmem | hmem
      · exact hpath CR (by decide) huri.2.1 hmem
      · revert hmem
        decide
  rw [flatten_sent]
  apply Http.readMessage_render hmethod.1 (hpath SP (by decide) huri.1) (Http.not_lineEnd_inside hcr)
  exact readable_requestFields h hclean data

/-- A request is read back as what was asked for exactly if its path is found. -/
theorem request_iff {ctx : SessionContext} {authority : Authority} {calls : List HeaderCall} {method path data : Bytes}
    (hmethod : SP ∉ method ∧ IsLine method) (hpath : SP ∉ path ∧ IsLine path) (hslash : path.head? = some 47)
    (huri : UriOf authority path ctx.uri) (hclean : ∀ call ∈ calls, call.Clean)
    (h : ctx.headers.Perm (sessionHeaders calls)) (recvs : List Recv) :
    Recovered calls method path data (sendRequest ctx .gotIp method data recvs).sent.flatten ↔
      PathFound authority path := by
  have hline : SP ∉ ctx.uri ∧ IsLine ctx.uri := by
    rcases huri with huri | ⟨huri, -⟩
    · rw [huri, List.mem_append, not_or]
      exact ⟨⟨authority.2.2.1, hpath.1⟩, authority.2.2.2.1.append hpath.2⟩
    · rw [huri]
      exact ⟨authority.2.2.1, authority.2.2.2.1⟩
  have hfound : requestPath ctx.uri = path ↔ PathFound authority path := by
    obtain ⟨t, rfl⟩ : ∃ t, path = 47 :: t := List.head?_eq_some_iff.1 hslash
    rcases huri with huri | ⟨huri, hroot⟩
    · rw [huri]
      exact requestPath_eq_iff authority.2.1 authority.2.2.2.2 t
    · rw [huri, requestPath_authority authority.2.1 authority.2.2.2.2, hroot]
      exact iff_of_true rfl (pathFound_root authority)
  unfold Recovered
  rw [readMessage_sent hmethod hline h hclean, ← hfound]
  constructor
  · rintro ⟨m, hm, -, hsecond, -⟩
    obtain rfl := Option.some.inj hm
    exact hsecond
  · intro hrequest
    exact ⟨_, rfl, rfl, hrequest, rfl, rfl, lookup_requestFields h data⟩

/-- A session with a server that takes reports, behind three calls that set headers. -/
def reportSession : SessionContext where
  fd := -1
  headersToCollect := []
  headers := [(ascii "Authorization", ascii "Basic token"), (ascii "VCC", ascii "3")]
  uri := ascii "iot:443/report"
  bio := true
  opened := Or.inr rfl

theorem request_of_report :
    Recovered [.addHeader (ascii "VCC") (ascii "3"), .setAuthorization (ascii "token"),
        .addHeader (ascii "VCC") (ascii "4")] (ascii "POST") (ascii "/report") [CR, LF, CR, LF, NUL]
      (sendRequest reportSession .gotIp (ascii "POST") [CR, LF, CR, LF, NUL] []).sent.flatten := by
  have hfound : PathFound ⟨ascii "iot:443", by decide⟩ (ascii "/report") := by
    refine ⟨by decide, ?_⟩
    intro n hn
    have hnone : find (ascii "://") (ascii "iot:443" ++ ascii "/report") = none := by decide
    rw [hnone] at hn
    cases hn
  refine (request_iff (by decide) (by decide) rfl (Or.inl rfl) ?_ (List.Perm.swap _ _ []) []).2 hfound
  intro call hcall
  simp only [List.mem_cons, List.not_mem_nil, or_false] at hcall
  rcases hcall with rfl | rfl | rfl <;> simp only [HeaderCall.Clean] <;> decide

/-- A session whose path hands a link over in its query. -/
def linkSession : SessionContext where
  fd := -1
  headersToCollect := []
  headers := []
  uri := ascii "iot:443/view?of=http://plants/"
  bio := true
  opened := Or.inr rfl

/-- The slash is looked for behind the link's `://`: what is asked for begins inside of the port. -/
theorem path_of_link :
    UriOf ⟨ascii "iot:443", by decide⟩ (ascii "/view?of=http://plants/") linkSession.uri ∧
      ¬ Recovered [] (ascii "GET") (ascii "/view?of=http://plants/") []
        (sendRequest linkSession .gotIp (ascii "GET") [] []).sent.flatten := by
  refine ⟨Or.inl rfl, ?_⟩
  rintro ⟨m, hm, -, hsecond, -⟩
  rw [readMessage_sent (by decide) (by decide) (List.Perm.refl []) (List.forall_mem_nil _), Option.some.injEq] at hm
  rw [← hm] at hsecond
  revert hsecond
  decide

end IopHal
