import IopHal.Client.SendRequest
import IopHal.Client.Uri

/-!
# `HTTPClient::begin`

The Linux client as it is built with `IOP_SSL`: `begin` finds the port, resolves the host and sets the connection up,
with a socket or over TLS, then calls back with a session and frees what the connection holds.  What the calls of the
system and of OpenSSL answer is given (`Answers`), and `begin` leaves the list of what it has done (`Event`).  The TLS
setup is a row of calls, each with an error branch of its own (`attempt`).  `tlsGate_iff` says when a session is never
started without a verified peer.  The log lines are left out.
-/

namespace IopHal.HTTPClient

open Find

def X509_V_OK : Int := 0

/-- `BIO_do_connect` and `BIO_do_handshake` return one if they succeed, else zero or a negative number. -/
abbrev BioResult := { n : Int // n = 1 ∨ n ≤ 0 }

/-- What the calls of the TLS setup answer, in their order.  A call that returns a pointer says whether it has one. -/
structure TlsAnswers where
  clientMethod : Bool
  newContext : Bool
  loadVerifyLocations : Int
  newSslConnect : Bool
  setConnHostname : Int
  getSsl : Bool
  setCipherList : Int
  setTlsextHostName : Int
  newFp : Bool
  doConnect : BioResult
  doHandshake : BioResult
  getPeerCertificate : Bool
  getVerifyResult : Int

structure Answers where
  wifi : StationStatus
  /-- The hosts that `gethostbyname` knows -/
  gethostbyname : Bytes → Bool
  tls : TlsAnswers
  socket : Int
  connect : Int

inductive Resource
  | context
  | bio
  | out
  | certificate
  | socket (fd : Int)
  deriving DecidableEq

/-- What `begin` does that its surroundings see. -/
inductive Event
  | resolve (host : Bytes)
  | acquire (r : Resource)
  | release (r : Resource)
  /-- `BIO_do_connect`, with the name and the port as set before -/
  | connectTls (name : Bytes)
  | connect (port : Nat)
  /-- the callback -/
  | session (ctx : SessionContext)

/-- A call of the setup and its error branch: what has been done so far and what the branch frees. -/
def attempt (passed : Bool) (done : List Event) (frees : List Resource) : Except (List Event) Unit :=
  if passed then .ok () else .error (done ++ frees.map .release)

/-- The setup of TLS, for the name `host:port`.  To free a null pointer does nothing. -/
def setupTls (name : Bytes) (a : TlsAnswers) : Except (List Event) (List Event) := do
  attempt a.clientMethod [] []
  attempt a.newContext [] []
  let done := [.acquire .context]
  attempt (a.loadVerifyLocations ≠ 0) done [.context]
  attempt a.newSslConnect done [.context]
  let done := done ++ [.acquire .bio]
  attempt (a.setConnHostname ≠ 0) done [.bio, .context]
  attempt a.getSsl done [.bio, .context]
  attempt (a.setCipherList ≠ 0) done [.bio, .context]
  attempt (a.setTlsextHostName ≠ 0) done [.bio, .context]
  attempt a.newFp done [.bio, .context]
  let done := done ++ [.acquire .out, .connectTls name]
  attempt (a.doConnect.1 ≠ 0) done [.out, .bio, .context]
  attempt (a.doHandshake.1 ≠ 0) done [.out, .bio, .context]
  attempt a.getPeerCertificate done [.out, .bio, .context]
  let done := done ++ [.acquire .certificate, .release .certificate]
  attempt (a.getVerifyResult = X509_V_OK) done [.out, .bio, .context]
  pure done

/-- What a call of `begin` has done and how it ends. -/
structure Begun where
  events : List Event
  outcome : Outcome Response

/-- The end of `begin`: the callback, and the frees behind it. -/
def callback (func : SessionContext → Outcome Response) (done : List Event) (ctx : SessionContext)
    (frees : List Resource) : Begun where
  events := done ++ .session ctx ::
    match func ctx with
    | .returned _ => frees.map .release
    | _ => []
  outcome := func ctx

/-- A session over TLS has no socket of its own. -/
theorem opened_tls : (-1 : Int) ≠ -1 ∨ true = true := .inr rfl

/-- The host of a URI without its scheme: up to the first colon, without one up to the first slash. -/
def hostOf (uri : Bytes) : Bytes :=
  uri.take (((find [COLON] uri).or (find [SLASH] uri)).getD uri.length)

def begin (keys : List Bytes) (uri : StaticString) (func : SessionContext → Outcome Response) (a : Answers) : Begun :=
  if a.wifi ≠ .gotIp then ⟨[], ioError⟩
  else
    match beginPort uri.text with
    | none => ⟨[], ioError⟩
    | some port =>
      let rest := withoutScheme uri.text
      let host := hostOf rest
      if !a.gethostbyname host then ⟨[.resolve host], ioError⟩
      else if useTLS uri.text then
        match setupTls (host ++ [COLON] ++ toDecimal port) a.tls with
        | .error done => ⟨.resolve host :: done, ioError⟩
        | .ok done => callback func (.resolve host :: done) ⟨-1, keys, [], rest, true, opened_tls⟩ [.out, .bio, .context]
      else if hsocket : a.socket < 0 then ⟨[.resolve host], ioError⟩
      else if a.connect < 0 then ⟨[.resolve host, .acquire (.socket a.socket), .connect port], ioError⟩
      else
        callback func [.resolve host, .acquire (.socket a.socket), .connect port]
          ⟨a.socket, keys, [], rest, false, .inl (by omega)⟩ [.socket a.socket]

/-! ### The TLS setup -/

section attempt

variable {passed : Bool} {done es : List Event} {frees : List Resource} {next : Unit → Except (List Event) (List Event)}

theorem attempt_bind_eq_ok_iff : (attempt passed done frees >>= next) = .ok es ↔ passed = true ∧ next () = .ok es := by
  cases passed with
  | true => exact (and_iff_right rfl).symm
  | false =>
    apply iff_of_false
    · intro h
      contradiction
    · intro h
      exact Bool.false_ne_true h.1

theorem attempt_bind_eq_error_iff :
    (attempt passed done frees >>= next) = .error es ↔
      passed = false ∧ es = done ++ frees.map .release ∨ passed = true ∧ next () = .error es := by
  cases passed with
  | true =>
    rw [and_iff_right rfl]
    exact (or_iff_right fun h => Bool.false_ne_true h.1.symm).symm
  | false =>
    rw [and_iff_right rfl]
    constructor
    · intro h
      exact .inl (Except.error.inj h).symm
    · rintro (rfl | h)
      · rfl
      · exact absurd h.1 Bool.false_ne_true

end attempt

/-- What is tested before the connection is made. -/
structure TlsAnswers.Prepared (a : TlsAnswers) : Prop where
  clientMethod : a.clientMethod
  newContext : a.newContext
  loadVerifyLocations : a.loadVerifyLocations ≠ 0
  newSslConnect : a.newSslConnect
  setConnHostname : a.setConnHostname ≠ 0
  getSsl : a.getSsl
  setCipherList : a.setCipherList ≠ 0
  setTlsextHostName : a.setTlsextHostName ≠ 0
  newFp : a.newFp

/-- What is tested after the handshake. -/
def TlsAnswers.Verified (a : TlsAnswers) : Prop := a.getPeerCertificate ∧ a.getVerifyResult = X509_V_OK

theorem setupTls_eq_ok_iff {name : Bytes} {a : TlsAnswers} {es : List Event} :
    setupTls name a = .ok es ↔
      (a.Prepared ∧ a.doConnect.1 ≠ 0 ∧ a.doHandshake.1 ≠ 0 ∧ a.Verified) ∧
        es = [.acquire .context, .acquire .bio, .acquire .out, .connectTls name, .acquire .certificate,
          .release .certificate] := by
  unfold setupTls TlsAnswers.Verified
  simp only [attempt_bind_eq_ok_iff, decide_eq_true_eq]
  constructor
  · rintro ⟨h1, h2, h3, h4, h5, h6, h7, h8, h9, h10, h11, h12, h13, h⟩
    exact ⟨⟨⟨h1, h2, h3, h4, h5, h6, h7, h8, h9⟩, h10, h11, h12, h13⟩, (Except.ok.inj h).symm⟩
  · rintro ⟨⟨⟨h1, h2, h3, h4, h5, h6, h7, h8, h9⟩, h10, h11, h12, h13⟩, rfl⟩
    exact ⟨h1, h2, h3, h4, h5, h6, h7, h8, h9, h10, h11, h12, h13, rfl⟩

/-- The error branches of the TLS setup: what they leave, by how far it has come. -/
inductive SetupExit (name : Bytes) (a : TlsAnswers) : List Event → Prop
  | nothing (hnot : ¬ a.Prepared) : SetupExit name a []
  | context (hnot : ¬ a.Prepared) : SetupExit name a [.acquire .context, .release .context]
  | bio (hnot : ¬ a.Prepared) :
      SetupExit name a [.acquire .context, .acquire .bio, .release .bio, .release .context]
  | connection (hprepared : a.Prepared) :
      SetupExit name a [.acquire .context, .acquire .bio, .acquire .out, .connectTls name, .release .out, .release .bio,
        .release .context]
  | certificate (hprepared : a.Prepared) :
      SetupExit name a [.acquire .context, .acquire .bio, .acquire .out, .connectTls name, .acquire .certificate,
        .release .certificate, .release .out, .release .bio, .release .context]

theorem setupTls_exit {name : Bytes} {a : TlsAnswers} {es : List Event} (h : setupTls name a = .error es) :
    SetupExit name a es := by
  unfold setupTls at h
  simp only [attempt_bind_eq_error_iff, decide_eq_true_eq, decide_eq_false_iff_not, not_not] at h
  rcases h with ⟨hfailed, rfl⟩ | ⟨h1, h⟩
  · exact .nothing fun hprepared => by simp [hprepared.clientMethod] at hfailed
  rcases h with ⟨hfailed, rfl⟩ | ⟨h2, h⟩
  · exact .nothing fun hprepared => by simp [hprepared.newContext] at hfailed
  rcases h with ⟨hfailed, rfl⟩ | ⟨h3, h⟩
  · exact .context fun hprepared => hprepared.loadVerifyLocations hfailed
  rcases h with ⟨hfailed, rfl⟩ | ⟨h4, h⟩
  · exact .context fun hprepared => by simp [hprepared.newSslConnect] at hfailed
  rcases h with ⟨hfailed, rfl⟩ | ⟨h5, h⟩
  · exact .bio fun hprepared => hprepared.setConnHostname hfailed
  rcases h with ⟨hfailed, rfl⟩ | ⟨h6, h⟩
  · exact .bio fun hprepared => by simp [hprepared.getSsl] at hfailed
  rcases h with ⟨hfailed, rfl⟩ | ⟨h7, h⟩
  · exact .bio fun hprepared => hprepared.setCipherList hfailed
  rcases h with ⟨hfailed, rfl⟩ | ⟨h8, h⟩
  · exact .bio fun hprepared => hprepared.setTlsextHostName hfailed
  rcases h with ⟨hfailed, rfl⟩ | ⟨h9, h⟩
  · exact .bio fun hprepared => by simp [hprepared.newFp] at hfailed
  have hprepared : a.Prepared := ⟨h1, h2, h3, h4, h5, h6, h7, h8, h9⟩
  rcases h with ⟨-, rfl⟩ | ⟨-, ⟨-, rfl⟩ | ⟨-, ⟨-, rfl⟩ | ⟨-, ⟨-, rfl⟩ | ⟨-, h⟩⟩⟩⟩
  · exact .connection hprepared
  · exact .connection hprepared
  · exact .connection hprepared
  · exact .certificate hprepared
  · contradiction

/-! ### The gate in front of the callback -/

/-- `https://` and what follows it. -/
def httpsUri (rest : StaticString) : StaticString where
  text := Scheme.https.text ++ rest.text
  terminated := by
    rw [List.mem_append, not_or]
    exact ⟨by decide, rest.terminated⟩

/-- What is tested before the setup. -/
structure Answers.Ready (a : Answers) (uri : StaticString) : Prop where
  wifi : a.wifi = .gotIp
  port : beginPort uri.text ≠ none
  host : a.gethostbyname (hostOf (withoutScheme uri.text))

/-- What is tested on an `https` URI before the callback. -/
def Answers.Passes (a : Answers) (uri : StaticString) : Prop :=
  a.Ready uri ∧ a.tls.Prepared ∧ a.tls.doConnect.1 ≠ 0 ∧ a.tls.doHandshake.1 ≠ 0 ∧ a.tls.Verified

/-- The connection has been made and the handshake has succeeded, with a peer whose certificate is good. -/
def TlsAnswers.Trusted (a : TlsAnswers) : Prop := a.doConnect.1 = 1 ∧ a.doHandshake.1 = 1 ∧ a.Verified

section begin

variable (keys : List Bytes) (rest : StaticString) (func : SessionContext → Outcome Response) (a : Answers)

theorem useTLS_httpsUri : useTLS (httpsUri rest).text = true := useTLS_scheme .https rest.text

theorem not_plain_httpsUri : useTLS (httpsUri rest).text ≠ false := by
  rw [useTLS_httpsUri]
  decide

/-- The exits of `begin`, with what has led there. -/
inductive Exit (uri : StaticString) : Begun → Prop
  | noAddress (hwifi : a.wifi ≠ .gotIp) : Exit uri ⟨[], ioError⟩
  | noPort (hport : beginPort uri.text = none) : Exit uri ⟨[], ioError⟩
  | noHost {port : Nat} (hwifi : a.wifi = .gotIp) (hport : beginPort uri.text = some port)
      (hhost : a.gethostbyname (hostOf (withoutScheme uri.text)) = false) :
      Exit uri ⟨[.resolve (hostOf (withoutScheme uri.text))], ioError⟩
  | setupFailed {port : Nat} {done : List Event} (hready : a.Ready uri) (hport : beginPort uri.text = some port)
      (htls : useTLS uri.text = true)
      (hsetup : setupTls (hostOf (withoutScheme uri.text) ++ [COLON] ++ toDecimal port) a.tls = .error done) :
      Exit uri ⟨.resolve (hostOf (withoutScheme uri.text)) :: done, ioError⟩
  | secured {port : Nat} {done : List Event} (hready : a.Ready uri) (hport : beginPort uri.text = some port)
      (htls : useTLS uri.text = true)
      (hsetup : setupTls (hostOf (withoutScheme uri.text) ++ [COLON] ++ toDecimal port) a.tls = .ok done) :
      Exit uri (callback func (.resolve (hostOf (withoutScheme uri.text)) :: done)
        ⟨-1, keys, [], withoutScheme uri.text, true, opened_tls⟩ [.out, .bio, .context])
  | noSocket {port : Nat} (hready : a.Ready uri) (hport : beginPort uri.text = some port)
      (htls : useTLS uri.text = false) (hsocket : a.socket < 0) :
      Exit uri ⟨[.resolve (hostOf (withoutScheme uri.text))], ioError⟩
  | refused {port : Nat} (hready : a.Ready uri) (hport : beginPort uri.text = some port)
      (htls : useTLS uri.text = false) (hsocket : 0 ≤ a.socket) (hconnect : a.connect < 0) :
      Exit uri ⟨[.resolve (hostOf (withoutScheme uri.text)), .acquire (.socket a.socket), .connect port], ioError⟩
  | connected {port : Nat} (hready : a.Ready uri) (hport : beginPort uri.text = some port)
      (htls : useTLS uri.text = false) (hsocket : 0 ≤ a.socket) (hconnect : 0 ≤ a.connect)
      (opened : a.socket ≠ -1 ∨ false = true) :
      Exit uri (callback func
        [.resolve (hostOf (withoutScheme uri.text)), .acquire (.socket a.socket), .connect port]
        ⟨a.socket, keys, [], withoutScheme uri.text, false, opened⟩ [.socket a.socket])

/-- Every call of `begin` takes one of its exits. -/
theorem begin_exit (uri : StaticString) : Exit keys func a uri (begin keys uri func a) := by
  unfold begin
  split
  · rename_i hwifi
    exact .noAddress hwifi
  · rename_i hwifi
    have hwifi : a.wifi = .gotIp := not_not.1 hwifi
    split
    · rename_i hport
      exact .noPort hport
    · rename_i port hport
      dsimp only
      split
      · rename_i hhost
        exact .noHost hwifi hport (by simpa using hhost)
      · rename_i hhost
        have hready : a.Ready uri := ⟨hwifi, Option.ne_none_iff_exists'.2 ⟨port, hport⟩, by simpa using hhost⟩
        split
        · rename_i htls
          split
          · rename_i done hsetup
            exact .setupFailed hready hport htls hsetup
          · rename_i done hsetup
            exact .secured hready hport htls hsetup
        · rename_i htls
          have htls : useTLS uri.text = false := by simpa using htls
          split
          · rename_i hsocket
            exact .noSocket hready hport htls hsocket
          · rename_i hsocket
            split
            · rename_i hconnect
              exact .refused hready hport htls (by omega) hconnect
            · rename_i hconnect
              exact .connected hready hport htls (by omega) (by omega) _

theorem session_of_passes (h : a.Passes (httpsUri rest)) :
    ∃ ctx, .session ctx ∈ (begin keys (httpsUri rest) func a).events := by
  obtain ⟨hready, hsetup'⟩ := h
  have hexit := begin_exit keys func a (httpsUri rest)
  generalize begin keys (httpsUri rest) func a = begun at hexit ⊢
  cases hexit with
  | noAddress hwifi => exact absurd hready.wifi hwifi
  | noPort hport => exact absurd hport hready.port
  | noHost _ _ hhost => exact absurd hready.host (by rw [hhost]; exact Bool.false_ne_true)
  | setupFailed _ _ _ hsetup =>
    rw [setupTls_eq_ok_iff.2 ⟨hsetup', rfl⟩] at hsetup
    contradiction
  | secured _ _ _ hsetup => exact ⟨_, List.mem_append_right _ List.mem_cons_self⟩
  | noSocket _ _ htls _ => exact absurd htls (not_plain_httpsUri rest)
  | refused _ _ htls _ _ => exact absurd htls (not_plain_httpsUri rest)
  | connected _ _ htls _ _ _ => exact absurd htls (not_plain_httpsUri rest)

theorem begin_of_not_passes (h : ¬ a.Passes (httpsUri rest)) :
    (∀ ctx, .session ctx ∉ (begin keys (httpsUri rest) func a).events) ∧
      (begin keys (httpsUri rest) func a).outcome = ioError := by
  have hexit := begin_exit keys func a (httpsUri rest)
  generalize begin keys (httpsUri rest) func a = begun at hexit ⊢
  cases hexit with
  | noAddress _ => exact ⟨fun ctx => List.not_mem_nil, rfl⟩
  | noPort _ => exact ⟨fun ctx => List.not_mem_nil, rfl⟩
  | noHost _ _ _ => exact ⟨fun ctx hmem => by simp at hmem, rfl⟩
  | setupFailed _ _ _ hsetup =>
    refine ⟨fun ctx hmem => ?_, rfl⟩
    -- no error branch has come to the callback
    cases setupTls_exit hsetup <;> simp at hmem
  | secured hready _ _ hsetup => exact absurd ⟨hready, (setupTls_eq_ok_iff.1 hsetup).1⟩ h
  | noSocket _ _ htls _ => exact absurd htls (not_plain_httpsUri rest)
  | refused _ _ htls _ _ => exact absurd htls (not_plain_httpsUri rest)
  | connected _ _ htls _ _ _ => exact absurd htls (not_plain_httpsUri rest)

/-- Without a trusted peer no session is started and the call fails, except where everything in front of the callback is
as it should be but the connection or the handshake, which has failed with a negative number, and neither with
zero. -/
theorem tlsGate_iff :
    (¬ a.tls.Trusted → (∀ ctx, .session ctx ∉ (begin keys (httpsUri rest) func a).events) ∧
        (begin keys (httpsUri rest) func a).outcome = ioError) ↔
      ¬ (a.Ready (httpsUri rest) ∧ a.tls.Prepared ∧ a.tls.Verified ∧ a.tls.doConnect.1 ≠ 0 ∧ a.tls.doHandshake.1 ≠ 0 ∧
        (a.tls.doConnect.1 < 0 ∨ a.tls.doHandshake.1 < 0)) := by
  have hconnect := a.tls.doConnect.2
  have hhandshake := a.tls.doHandshake.2
  constructor
  · rintro hgate ⟨hready, hprepared, hverified, hc, hh, hnegative⟩
    have hdistrust : ¬ a.tls.Trusted := by
      rintro ⟨hone, hone', -⟩
      omega
    obtain ⟨ctx, hsession⟩ := session_of_passes keys rest func a ⟨hready, hprepared, hc, hh, hverified⟩
    exact (hgate hdistrust).1 ctx hsession
  · intro hcondition hdistrust
    apply begin_of_not_passes
    rintro ⟨hready, hprepared, hc, hh, hverified⟩
    refine hcondition ⟨hready, hprepared, hverified, hc, hh, ?_⟩
    by_contra hneither
    exact hdistrust ⟨by omega, by omega, hverified⟩

end begin

/-- The answers to a server that shows the certificate of another one and cannot sign for it. -/
def impersonated : Answers where
  wifi := .gotIp
  gethostbyname := fun _ => true
  tls :=
    { clientMethod := true
      newContext := true
      loadVerifyLocations := 1
      newSslConnect := true
      setConnHostname := 1
      getSsl := true
      setCipherList := 1
      setTlsextHostName := 1
      newFp := true
      doConnect := ⟨1, by decide⟩
      doHandshake := ⟨-1, by decide⟩
      getPeerCertificate := true
      getVerifyResult := X509_V_OK }
  socket := 3
  connect := 0

theorem session_impersonated :
    ¬ impersonated.tls.Trusted ∧
      (∃ ctx, .session ctx ∈
        (begin [] (httpsUri ⟨ascii "h/", by decide⟩) (fun _ => .returned (.ofCode 200)) impersonated).events) ∧
      (begin [] (httpsUri ⟨ascii "h/", by decide⟩) (fun _ => .returned (.ofCode 200)) impersonated).outcome =
        .returned (.ofCode 200) := by
  refine ⟨fun h => absurd h.2.1 (by decide), ⟨⟨-1, [], [], ascii "h/", true, opened_tls⟩, ?_⟩, by decide⟩
  show _ ∈ [Event.resolve (ascii "h"), .acquire .context, .acquire .bio, .acquire .out, .connectTls (ascii "h:443"),
    .acquire .certificate, .release .certificate, .session ⟨-1, [], [], ascii "h/", true, opened_tls⟩, .release .out,
    .release .bio, .release .context]
  simp

end IopHal.HTTPClient
