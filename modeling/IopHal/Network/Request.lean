import IopHal.Client.Begin
import IopHal.Client.Request
import IopHal.Network

/-!
# `Network::httpRequest`

What `Network` puts around a session: the request is sent to the server's URI with the path behind it, and tells the server
what the device is and how it is doing.  Names of memory regions come from the platform, and become keys of headers behind a
word of their own (`FREE_`, `BIGGEST_BLOCK_`).  `httpRequest_sent` reads the whole request back.

The log lines are left out.
-/

namespace IopHal

open Find

/-- `iop::HttpMethod` -/
inductive HttpMethod
  | get
  | head
  | post
  | put
  | patch
  | delete
  | connect
  | options
  deriving DecidableEq

namespace Network

def methodToString : HttpMethod → Bytes
  | .get => ascii "GET"
  | .head => ascii "HEAD"
  | .post => ascii "POST"
  | .put => ascii "PUT"
  | .patch => ascii "PATCH"
  | .delete => ascii "DELETE"
  | .connect => ascii "CONNECT"
  | .options => ascii "OPTIONS"

/-- `iop_hal::Memory`; the regions are named, in the order in which the maps are walked through. -/
structure Memory where
  availableStack : UInt64
  availableHeap : List (Bytes × UInt64)
  biggestHeapBlock : List (Bytes × UInt64)

/-- What the device and its thread say of themselves. -/
structure Telemetry where
  firmwareMD5 : Bytes
  macAddress : Bytes
  memory : Memory
  vcc : UInt16
  timeRunning : UInt64
  platform : StaticString

/-- A call of `httpRequest` on a `Network` with this URI. -/
structure Call where
  uri : StaticString
  path : StaticString
  method : HttpMethod
  token : Option Bytes
  data : Option Bytes

def endpoint (uri path : StaticString) : StaticString where
  text := uri.text ++ path.text
  terminated := by
    rw [List.mem_append, not_or]
    exact ⟨uri.terminated, path.terminated⟩

def httpPostAuthenticated (uri : StaticString) (token : Bytes) (path : StaticString) (data : Bytes) : Call :=
  ⟨uri, path, .post, some token, some data⟩

def httpPost (uri path : StaticString) (data : Bytes) : Call := ⟨uri, path, .post, none, some data⟩

def httpGet (uri path : StaticString) (token data : Bytes) : Call := ⟨uri, path, .get, some token, some data⟩

/-- The header of a memory region -/
def regionCall (word : Bytes) (item : Bytes × UInt64) : HeaderCall := .addHeader (word ++ item.1) (toDecimal item.2.toNat)

/-- What `prepareSession` calls on the session, in its order. -/
def prepareSession (t : Telemetry) (c : Call) : List HeaderCall :=
  (c.token.elim [] fun token => [.setAuthorization token]) ++
  (c.data.elim [] fun _ => [.addHeader (ascii "Content-Type") (ascii "application/json")]) ++
  [.addHeader (ascii "VERSION") t.firmwareMD5,
    .addHeader (ascii "x-ESP8266-sketch-md5") t.firmwareMD5,
    .addHeader (ascii "MAC_ADDRESS") t.macAddress,
    .addHeader (ascii "FREE_STACK") (toDecimal t.memory.availableStack.toNat)] ++
  t.memory.availableHeap.map (regionCall (ascii "FREE_")) ++
  t.memory.biggestHeapBlock.map (regionCall (ascii "BIGGEST_BLOCK_")) ++
  [.addHeader (ascii "VCC") (toDecimal t.vcc.toNat),
    .addHeader (ascii "TIME_RUNNING") (toDecimal t.timeRunning.toNat),
    .addHeader (ascii "ORIGIN") c.uri.text,
    .addHeader (ascii "DRIVER") t.platform.text]

/-- What else a call depends on: the order in which the map of headers is walked through, the state of the Wi-Fi when the
request is sent, and what the network answers. -/
structure Surroundings where
  order : Headers → Headers
  perm : ∀ headers, (order headers).Perm headers
  wifi : StationStatus
  recvs : List Recv
  answers : HTTPClient.Answers

/-- The session behind `prepareSession`. -/
def prepared (s : Surroundings) (t : Telemetry) (c : Call) (ctx : SessionContext) : SessionContext :=
  { ctx with headers := s.order ((prepareSession t c).foldl HeaderCall.perform ctx.headers) }

/-- `session.sendRequest` in the callback. -/
def exchange (s : Surroundings) (t : Telemetry) (c : Call) (ctx : SessionContext) : Exchange :=
  sendRequest (prepared s t c ctx) s.wifi (methodToString c.method) (c.data.getD []) s.recvs

def generateRequestProcessor (s : Surroundings) (t : Telemetry) (c : Call) (ctx : SessionContext) : Outcome Response :=
  (exchange s t c ctx).outcome.bind fun response => (processResponse t.firmwareMD5 response).response

/-- The client collects the version from the first `setup` on. -/
def httpRequest (s : Surroundings) (t : Telemetry) (c : Call) : HTTPClient.Begun :=
  HTTPClient.begin (headersToCollect [ascii "LATEST_VERSION"]) (endpoint c.uri c.path) (generateRequestProcessor s t c)
    s.answers

/-! ### The headers of a request -/

/-- The headers whose names do not come from the platform. -/
def plainHeaders (t : Telemetry) (c : Call) : List (Bytes × Option Bytes) :=
  [(ascii "Authorization", (c.token.filter (· ≠ [])).map (ascii "Basic " ++ ·)),
    (ascii "Content-Type", c.data.map fun _ => ascii "application/json"),
    (ascii "VERSION", some t.firmwareMD5),
    (ascii "x-ESP8266-sketch-md5", some t.firmwareMD5),
    (ascii "MAC_ADDRESS", some t.macAddress),
    (ascii "VCC", some (toDecimal t.vcc.toNat)),
    (ascii "TIME_RUNNING", some (toDecimal t.timeRunning.toNat)),
    (ascii "ORIGIN", some c.uri.text),
    (ascii "DRIVER", some t.platform.text)]

/-- The server is told these headers and no others; a region of the heap that is called like the stack is not seen. -/
structure Told (t : Telemetry) (c : Call) (lookup : Bytes → Option Bytes) : Prop where
  plain : ∀ key, ¬ ascii "FREE_" <+: key → ¬ ascii "BIGGEST_BLOCK_" <+: key →
    lookup key = ((plainHeaders t c).lookup key).join
  stack : lookup (ascii "FREE_STACK") = some (toDecimal t.memory.availableStack.toNat)
  heap : ∀ region ≠ ascii "STACK", lookup (ascii "FREE_" ++ region) =
    (t.memory.availableHeap.lookup region).map fun n => toDecimal n.toNat
  biggest : ∀ region, lookup (ascii "BIGGEST_BLOCK_" ++ region) =
    (t.memory.biggestHeapBlock.lookup region).map fun n => toDecimal n.toNat

theorem firstAsked_append (calls more : List HeaderCall) (key : Bytes) :
    firstAsked (calls ++ more) key = (firstAsked calls key).or (firstAsked more key) := by
  rw [firstAsked, List.filterMap_append, List.lookup_append]
  rfl

theorem firstAsked_addHeader (k v : Bytes) (calls : List HeaderCall) (key : Bytes) :
    firstAsked (.addHeader k v :: calls) key = if key = k then some v else firstAsked calls key :=
  Headers.lookup_cons _ k v key

@[simp] theorem firstAsked_nil (key : Bytes) : firstAsked [] key = none := rfl

theorem firstAsked_token (token : Option Bytes) (key : Bytes) :
    firstAsked (token.elim [] fun token => [.setAuthorization token]) key =
      if key = ascii "Authorization" then (token.filter (· ≠ [])).map (ascii "Basic " ++ ·) else none := by
  cases token with
  | none => exact (ite_self none).symm
  | some token =>
    cases token with
    | nil => exact (ite_self none).symm
    | cons b token => exact Headers.lookup_cons [] _ _ key

/-- A region is found behind the word of its map. -/
theorem firstAsked_regions (word : Bytes) (items : List (Bytes × UInt64)) (region : Bytes) :
    firstAsked (items.map (regionCall word)) (word ++ region) = (items.lookup region).map fun n => toDecimal n.toNat := by
  induction items with
  | nil => rfl
  | cons item items ih =>
    obtain ⟨name, n⟩ := item
    rw [List.map_cons, regionCall, firstAsked_addHeader, ih, List.lookup_cons]
    by_cases hname : region = name
    · rw [if_pos (congrArg (word ++ ·) hname), beq_iff_eq.2 hname]
      rfl
    · rw [if_neg fun h => hname (List.append_cancel_left h), beq_eq_false_iff_ne.2 hname]

/-- A key that begins with another word is not that of a region. -/
theorem firstAsked_regions_of_not_prefix {word key : Bytes} (h : ¬ word <+: key) (items : List (Bytes × UInt64)) :
    firstAsked (items.map (regionCall word)) key = none := by
  induction items with
  | nil => rfl
  | cons item items ih =>
    have hne : key ≠ word ++ item.1 := by
      rintro rfl
      exact h (List.prefix_append _ _)
    rw [List.map_cons, regionCall, firstAsked_addHeader, if_neg hne, ih]

theorem firstAsked_data (data : Option Bytes) (key : Bytes) :
    firstAsked (data.elim [] fun _ => [.addHeader (ascii "Content-Type") (ascii "application/json")]) key =
      if key = ascii "Content-Type" then data.map fun _ => ascii "application/json" else none := by
  cases data with
  | none => exact (ite_self none).symm
  | some data => exact Headers.lookup_cons [] _ _ key

/-- A word in front of anything is only in front of what it shares its beginning with. -/
theorem not_prefix_append {word key : Bytes} (h : ¬ word <+: key) (h' : ¬ key <+: word) (rest : Bytes) :
    ¬ word <+: key ++ rest := by
  intro hword
  rcases List.prefix_or_prefix_of_prefix hword (List.prefix_append key rest) with hpre | hpre
  · exact h hpre
  · exact h' hpre

theorem append_ne {word key : Bytes} (h : ¬ word <+: key) (region : Bytes) : word ++ region ≠ key := by
  rintro rfl
  exact h (List.prefix_append _ _)

theorem told_plain {t : Telemetry} {c : Call} {key : Bytes} (hfree : ¬ ascii "FREE_" <+: key)
    (hbiggest : ¬ ascii "BIGGEST_BLOCK_" <+: key) :
    firstAsked (prepareSession t c) key = ((plainHeaders t c).lookup key).join := by
  have hstack : key ≠ ascii "FREE_STACK" := by
    rintro rfl
    exact hfree (by decide)
  simp only [prepareSession, firstAsked_append, firstAsked_token, firstAsked_data, firstAsked_addHeader, firstAsked_nil,
    firstAsked_regions_of_not_prefix hfree, firstAsked_regions_of_not_prefix hbiggest, if_neg hstack]
  by_cases hkey : key ∈ (plainHeaders t c).map Prod.fst
  · simp only [plainHeaders, List.map_cons, List.map_nil, List.mem_cons, List.not_mem_nil, or_false] at hkey
    rcases hkey with rfl | rfl | rfl | rfl | rfl | rfl | rfl | rfl | rfl
    · rcases c with ⟨uri, path, method, _ | _ | ⟨b, token⟩, data⟩ <;> rfl
    · rcases c with ⟨uri, path, method, token, _ | data⟩ <;> rfl
    all_goals rfl
  · have hnone : (plainHeaders t c).lookup key = none := by
      rw [List.lookup_eq_none_iff]
      intro f hf
      rw [bne_iff_ne]
      rintro rfl
      exact hkey (List.mem_map_of_mem hf)
    simp only [plainHeaders, List.map_cons, List.map_nil, List.mem_cons, List.not_mem_nil, or_false, not_or] at hkey
    obtain ⟨h1, h2, h3, h4, h5, h6, h7, h8, h9⟩ := hkey
    rw [hnone]
    simp only [if_neg h1, if_neg h2, if_neg h3, if_neg h4, if_neg h5, if_neg h6, if_neg h7, if_neg h8, if_neg h9]
    rfl

theorem told_prepareSession (t : Telemetry) (c : Call) : Told t c (firstAsked (prepareSession t c)) where
  plain key hfree hbiggest := told_plain hfree hbiggest
  stack := by
    simp only [prepareSession, firstAsked_append, firstAsked_token, firstAsked_data]
    rfl
  heap region hregion := by
    have hstack : ascii "FREE_" ++ region ≠ ascii "FREE_STACK" := fun h => hregion (List.append_cancel_left h)
    have hbiggest : ¬ ascii "BIGGEST_BLOCK_" <+: ascii "FREE_" ++ region := not_prefix_append (by decide) (by decide) region
    have hother : ∀ {key}, ¬ ascii "FREE_" <+: key → ascii "FREE_" ++ region ≠ key := fun h => append_ne h region
    simp only [prepareSession, firstAsked_append, firstAsked_token, firstAsked_data, firstAsked_addHeader, firstAsked_nil,
      firstAsked_regions, firstAsked_regions_of_not_prefix hbiggest, if_neg hstack]
    rw [if_neg (hother (by decide)), if_neg (hother (by decide)), if_neg (hother (by decide)), if_neg (hother (by decide)),
      if_neg (hother (by decide)), if_neg (hother (by decide)), if_neg (hother (by decide)), if_neg (hother (by decide)),
      if_neg (hother (by decide)), Option.or_none, Option.or_none]
    rfl
  biggest region := by
    have hfree : ¬ ascii "FREE_" <+: ascii "BIGGEST_BLOCK_" ++ region := not_prefix_append (by decide) (by decide) region
    have hother : ∀ {key}, ¬ ascii "BIGGEST_BLOCK_" <+: key → ascii "BIGGEST_BLOCK_" ++ region ≠ key :=
      fun h => append_ne h region
    simp only [prepareSession, firstAsked_append, firstAsked_token, firstAsked_data, firstAsked_addHeader, firstAsked_nil,
      firstAsked_regions, firstAsked_regions_of_not_prefix hfree]
    rw [if_neg (hother (by decide)), if_neg (hother (by decide)), if_neg (hother (by decide)), if_neg (hother (by decide)),
      if_neg (hother (by decide)), if_neg (hother (by decide)), if_neg (hother (by decide)), if_neg (hother (by decide)),
      if_neg (hother (by decide)), if_neg (hother (by decide)), Option.or_none]
    rfl

/-! ### The request -/

/-- What goes into the request keeps to its line. -/
structure Clean (t : Telemetry) (c : Call) : Prop where
  token : ∀ token ∈ c.token, IsLine token
  firmwareMD5 : IsLine t.firmwareMD5
  macAddress : IsLine t.macAddress
  regions : ∀ item ∈ t.memory.availableHeap ++ t.memory.biggestHeapBlock, COLON ∉ item.1 ∧ IsLine item.1
  platform : IsLine t.platform.text
  uri : IsLine c.uri.text
  path : SP ∉ c.path.text ∧ IsLine c.path.text
  slash : c.path.text.head? = some 47

theorem isLine_toDecimal (n : Nat) : IsLine (toDecimal n) := (isText_of_digits (isDigit_toDecimal n)).1

theorem clean_regionCall {word : Bytes} {item : Bytes × UInt64} (hword : COLON ∉ word ∧ IsLine word)
    (hlength : ¬ lower word <+: ascii "content-length") (hitem : COLON ∉ item.1 ∧ IsLine item.1) :
    (regionCall word item).Clean := by
  refine ⟨?_, hword.2.append hitem.2, ?_, isLine_toDecimal _⟩
  · rw [List.mem_append, not_or]
    exact ⟨hword.1, hitem.1⟩
  · intro h
    rw [lower, List.map_append] at h
    exact hlength (h ▸ List.prefix_append _ _)

theorem clean_prepareSession {t : Telemetry} {c : Call} (h : Clean t c) : ∀ call ∈ prepareSession t c, call.Clean := by
  have hplain : ∀ {key value : Bytes}, COLON ∉ key ∧ IsLine key ∧ lower key ≠ ascii "content-length" → IsLine value →
      (HeaderCall.addHeader key value).Clean := fun hkey hvalue => ⟨hkey.1, hkey.2.1, hkey.2.2, hvalue⟩
  intro call hcall
  simp only [prepareSession, List.mem_append, List.mem_cons, List.not_mem_nil, or_false, List.mem_map] at hcall
  rcases hcall with ((((hcall | hcall) | rfl | rfl | rfl | rfl) | ⟨item, hitem, rfl⟩) | ⟨item, hitem, rfl⟩) | rfl | rfl |
    rfl | rfl
  · cases htoken : c.token with
    | none => simp [htoken] at hcall
    | some token =>
      simp only [htoken, Option.elim_some, List.mem_singleton] at hcall
      exact hcall ▸ h.token token htoken
  · cases hdata : c.data with
    | none => simp [hdata] at hcall
    | some data =>
      simp only [hdata, Option.elim_some, List.mem_singleton] at hcall
      exact hcall ▸ hplain (by decide) (by decide)
  · exact hplain (by decide) h.firmwareMD5
  · exact hplain (by decide) h.firmwareMD5
  · exact hplain (by decide) h.macAddress
  · exact hplain (by decide) (isLine_toDecimal _)
  · exact clean_regionCall (by decide) (by decide) (h.regions item (List.mem_append_left _ hitem))
  · exact clean_regionCall (by decide) (by decide) (h.regions item (List.mem_append_right _ hitem))
  · exact hplain (by decide) (isLine_toDecimal _)
  · exact hplain (by decide) (isLine_toDecimal _)
  · exact hplain (by decide) h.uri
  · exact hplain (by decide) h.platform

/-- A session starts without headers, and with the URI behind its scheme. -/
theorem session_of_begin {keys : List Bytes} {uri : StaticString} {func : SessionContext → Outcome Response}
    {a : HTTPClient.Answers} {ctx : SessionContext} (h : .session ctx ∈ (HTTPClient.begin keys uri func a).events) :
    ctx.headersToCollect = keys ∧ ctx.headers = [] ∧ ctx.uri = withoutScheme uri.text := by
  have hcallback : ∀ {done frees ctx'}, (∀ ctx, HTTPClient.Event.session ctx ∉ done) →
      HTTPClient.Event.session ctx ∈ (HTTPClient.callback func done ctx' frees).events → ctx = ctx' := by
    intro done frees ctx' hdone hmem
    rcases List.mem_append.1 hmem with hmem | hmem
    · exact absurd hmem (hdone ctx)
    · rcases List.mem_cons.1 hmem with heq | hmem
      · exact HTTPClient.Event.session.inj heq
      · split at hmem <;> simp at hmem
  have hexit := HTTPClient.begin_exit keys func a uri
  generalize HTTPClient.begin keys uri func a = begun at hexit h
  cases hexit with
  | noAddress hwifi => cases h
  | noPort hport => cases h
  | noHost hwifi hport hhost => simp at h
  | setupFailed hready hport htls hsetup => cases HTTPClient.setupTls_exit hsetup <;> simp at h
  | secured hready hport htls hsetup =>
    obtain rfl := (HTTPClient.setupTls_eq_ok_iff.1 hsetup).2
    rw [hcallback (by simp) h]
    exact ⟨rfl, rfl, rfl⟩
  | noSocket hready hport htls hsocket => simp at h
  | refused hready hport htls hsocket hconnect => simp at h
  | connected hready hport htls hsocket hconnect opened =>
    rw [hcallback (by simp) h]
    exact ⟨rfl, rfl, rfl⟩

variable {s : Surroundings} {t : Telemetry} {c : Call} {scheme : Scheme} {authority : Authority} {ctx : SessionContext}

theorem perm_prepared (hctx : ctx.headers = []) : (prepared s t c ctx).headers.Perm (sessionHeaders (prepareSession t c)) := by
  have hperm := s.perm ((prepareSession t c).foldl HeaderCall.perform ctx.headers)
  rw [hctx] at hperm
  rw [prepared, hctx]
  exact hperm

/-- Whatever the device has to say, the request is one for the path with its data, and tells the server just that. -/
theorem httpRequest_sent (huri : c.uri.text = scheme.text ++ authority.1) (hclean : Clean t c)
    (hfound : PathFound authority c.path.text) (hwifi : s.wifi = .gotIp)
    (hsession : .session ctx ∈ (httpRequest s t c).events) :
    ∃ headers : Headers, Told t c (fun key => headers.lookup key) ∧
      Http.readMessage (exchange s t c ctx).sent.flatten =
        some ⟨methodToString c.method, c.path.text, ascii "HTTP/1.0",
          (ascii "Content-Length", toDecimal (c.data.getD []).length) :: headers, c.data.getD []⟩ := by
  obtain ⟨-, hheaders, hctx⟩ := session_of_begin hsession
  have htext : (endpoint c.uri c.path).text = scheme.text ++ (authority.1 ++ c.path.text) := by
    rw [← List.append_assoc, ← huri]
    rfl
  have huri' : ctx.uri = authority.1 ++ c.path.text := by
    rw [hctx, htext, withoutScheme_scheme]
  have hperm : (prepared s t c ctx).headers.Perm (sessionHeaders (prepareSession t c)) := perm_prepared hheaders
  refine ⟨(prepared s t c ctx).headers, ?_, ?_⟩
  · have hlookup : (fun key => (prepared s t c ctx).headers.lookup key) = firstAsked (prepareSession t c) :=
      funext fun key => lookup_session hperm key
    rw [hlookup]
    exact told_prepareSession t c
  · have hmethod : SP ∉ methodToString c.method ∧ IsLine (methodToString c.method) := by
      cases c.method <;> decide
    have hline : SP ∉ (prepared s t c ctx).uri ∧ IsLine (prepared s t c ctx).uri := by
      show SP ∉ ctx.uri ∧ IsLine ctx.uri
      rw [huri', List.mem_append, not_or]
      exact ⟨⟨authority.2.2.1, hclean.path.1⟩, authority.2.2.2.1.append hclean.path.2⟩
    obtain ⟨rest, hrest⟩ : ∃ rest, c.path.text = 47 :: rest := List.head?_eq_some_iff.1 hclean.slash
    have hpath : requestPath ctx.uri = c.path.text := by
      rw [huri', hrest]
      exact (requestPath_eq_iff authority.2.1 authority.2.2.2.2 rest).2 (hrest ▸ hfound)
    rw [exchange, hwifi, readMessage_sent hmethod hline hperm (clean_prepareSession hclean)]
    show some (Http.Message.mk _ (requestPath ctx.uri) _ _ _) = _
    rw [hpath]
    rfl

/-- A report of a device that has a region called like the stack -/
def report : Call :=
  httpPostAuthenticated ⟨ascii "http://iot:3000", by decide⟩ (ascii "token") ⟨ascii "/v1/event", by decide⟩ (ascii "{}")

def telemetry : Telemetry where
  firmwareMD5 := ascii "0CC175B9C0F1B6A831C399E269772661"
  macAddress := ascii "00:1B:44:11:3A:B7"
  memory :=
    { availableStack := 4096
      availableHeap := [(ascii "DRAM", 20480), (ascii "STACK", 1)]
      biggestHeapBlock := [(ascii "DRAM", 8192)] }
  vcc := 65535
  timeRunning := 1000
  platform := ⟨ascii "linux", by decide⟩

theorem silent_connects : (1 : Int) = 1 ∨ (1 : Int) ≤ 0 := Or.inl rfl

/-- The server can be reached but does not answer. -/
def silent : Surroundings where
  order := id
  perm := List.Perm.refl
  wifi := .gotIp
  recvs := []
  answers :=
    { wifi := .gotIp
      gethostbyname := fun _ => true
      tls := ⟨true, true, 1, true, 1, true, 1, 1, true, ⟨1, silent_connects⟩, ⟨1, silent_connects⟩, true, 0⟩
      socket := 3
      connect := 0 }

theorem httpRequest_sent_report :
    ∃ ctx headers, .session ctx ∈ (httpRequest silent telemetry report).events ∧
      Told telemetry report (fun key => List.lookup key headers) ∧
      Http.readMessage (exchange silent telemetry report ctx).sent.flatten =
        some ⟨ascii "POST", ascii "/v1/event", ascii "HTTP/1.0", (ascii "Content-Length", ascii "2") :: headers,
          ascii "{}"⟩ := by
  have hfound : PathFound ⟨ascii "iot:3000", by decide⟩ report.path.text := by
    refine ⟨by decide, fun n hn => ?_⟩
    have hnone : find (ascii "://") (ascii "iot:3000" ++ report.path.text) = none := by decide
    rw [hnone] at hn
    cases hn
  have hclean : Clean telemetry report := by
    refine ⟨?_, ?_, ?_, ?_, ?_, ?_, ?_, ?_⟩ <;> decide
  have hsession : .session ⟨3, [ascii "latest_version"], [], ascii "iot:3000/v1/event", false, by decide⟩ ∈
      (httpRequest silent telemetry report).events := List.mem_append_right _ List.mem_cons_self
  have huri : report.uri.text = Scheme.http.text ++ ascii "iot:3000" := rfl
  obtain ⟨headers, htold, hread⟩ := httpRequest_sent huri hclean hfound rfl hsession
  exact ⟨_, headers, hsession, htold, hread⟩

end Network

end IopHal
