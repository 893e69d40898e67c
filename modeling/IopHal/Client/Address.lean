import IopHal.Client.Location

/-!
# Where `HTTPClient::begin` connects to

For a location whose host has no colon and whose port is a number: `begin` looks for the host of the location and for its
port, or refuses a port that is out of range, unless a colon in the path is taken for that of the port or a number above
65535 is cut to 16 bits (`honoured_iff`).
-/

namespace IopHal

open Find HTTPClient

/-- A location with a proper host and a decimal port. -/
structure Address extends Location where
  host_ne : host ≠ []
  host_colon : COLON ∉ host
  digits : ∀ text ∈ port, text ≠ [] ∧ ∀ d ∈ text, isDigit d

namespace HTTPClient

/-- The events that the host and the port of a call can be seen from. -/
def Event.isContact : Event → Bool
  | resolve _ => true
  | connect _ => true
  | connectTls _ => true
  | _ => false

def contacts (events : List Event) : List Event := events.filter Event.isContact

/-- The attempt to connect. -/
def dial (tls : Bool) (host : Bytes) (port : Nat) : Event :=
  if tls then .connectTls (host ++ [COLON] ++ toDecimal port) else .connect port

/-- The host is known and nothing in front of the attempt to connect fails. -/
def Answers.Dials (a : Answers) (tls : Bool) (host : Bytes) : Prop :=
  a.gethostbyname host = true ∧ if tls then a.tls.Prepared else 0 ≤ a.socket

theorem contacts_callback {func : SessionContext → Outcome Response} {done : List Event} {ctx : SessionContext}
    {frees : List Resource} : contacts (callback func done ctx frees).events = contacts done := by
  have hfrees : contacts (frees.map .release) = [] := by
    induction frees with
    | nil => rfl
    | cons r frees ih => exact ih
  unfold callback contacts
  rw [List.filter_append]
  have hsession : ∀ es, (Event.session ctx :: es).filter Event.isContact = es.filter Event.isContact := fun _ => rfl
  rw [hsession]
  split
  · rw [show (frees.map Event.release).filter Event.isContact = [] from hfrees, List.append_nil]
  · exact List.append_nil _

/-- An error branch of the TLS setup has tried to connect exactly if everything was prepared for it. -/
theorem contacts_of_error {name : Bytes} {a : TlsAnswers} {es : List Event} (h : setupTls name a = .error es) :
    (a.Prepared → contacts es = [.connectTls name]) ∧ (¬ a.Prepared → contacts es = []) := by
  cases setupTls_exit h with
  | nothing hnot => exact ⟨fun hprepared => absurd hprepared hnot, fun _ => rfl⟩
  | context hnot => exact ⟨fun hprepared => absurd hprepared hnot, fun _ => rfl⟩
  | bio hnot => exact ⟨fun hprepared => absurd hprepared hnot, fun _ => rfl⟩
  | connection hprepared => exact ⟨fun _ => rfl, fun hnot => absurd hprepared hnot⟩
  | certificate hprepared => exact ⟨fun _ => rfl, fun hnot => absurd hprepared hnot⟩

section begin

variable (keys : List Bytes) (func : SessionContext → Outcome Response) (a : Answers) {uri : StaticString} {port : Nat}

/-- With a port, `begin` looks for the host, and connects to both of them if nothing goes wrong in front of that. -/
theorem begin_contacts (hwifi : a.wifi = .gotIp) (hport : beginPort uri.text = some port) :
    (a.Dials (useTLS uri.text) (hostOf (withoutScheme uri.text)) →
        contacts (begin keys uri func a).events =
          [.resolve (hostOf (withoutScheme uri.text)),
            dial (useTLS uri.text) (hostOf (withoutScheme uri.text)) port]) ∧
      (¬ a.Dials (useTLS uri.text) (hostOf (withoutScheme uri.text)) →
        contacts (begin keys uri func a).events = [.resolve (hostOf (withoutScheme uri.text))]) := by
  have hexit := begin_exit keys func a uri
  generalize begin keys uri func a = begun at hexit ⊢
  have hdials : ∀ tls : Bool, useTLS uri.text = tls → (a.Dials (useTLS uri.text) (hostOf (withoutScheme uri.text)) ↔
      a.gethostbyname (hostOf (withoutScheme uri.text)) = true ∧ if tls then a.tls.Prepared else 0 ≤ a.socket) := by
    rintro tls rfl
    exact Iff.rfl
  cases hexit with
  | noAddress hno => exact absurd hwifi hno
  | noPort hno =>
    rw [hno] at hport
    contradiction
  | noHost _ _ hhost =>
    refine ⟨fun hdial => ?_, fun _ => rfl⟩
    have hfound := hdial.1
    rw [hhost] at hfound
    contradiction
  | setupFailed hready hport' htls hsetup =>
    cases hport.symm.trans hport'
    rw [hdials true htls, htls]
    have hcontacts := contacts_of_error hsetup
    refine ⟨fun hdial => ?_, fun hdial => ?_⟩
    · exact congrArg (_ :: ·) (hcontacts.1 hdial.2)
    · exact congrArg (_ :: ·) (hcontacts.2 fun hprepared => hdial ⟨hready.host, hprepared⟩)
  | secured hready hport' htls hsetup =>
    cases hport.symm.trans hport'
    obtain ⟨⟨hprepared, -⟩, rfl⟩ := setupTls_eq_ok_iff.1 hsetup
    rw [hdials true htls, htls, contacts_callback]
    exact ⟨fun _ => rfl, fun hdial => absurd ⟨hready.host, hprepared⟩ hdial⟩
  | noSocket _ _ htls hsocket =>
    rw [hdials false htls]
    refine ⟨fun hdial => ?_, fun _ => rfl⟩
    have hopen : 0 ≤ a.socket := hdial.2
    omega
  | refused hready hport' htls hsocket _ =>
    cases hport.symm.trans hport'
    rw [hdials false htls, htls]
    exact ⟨fun _ => rfl, fun hdial => absurd ⟨hready.host, hsocket⟩ hdial⟩
  | connected hready hport' htls hsocket _ _ =>
    cases hport.symm.trans hport'
    rw [hdials false htls, htls, contacts_callback]
    exact ⟨fun _ => rfl, fun hdial => absurd ⟨hready.host, hsocket⟩ hdial⟩

/-- Without a port it looks for nothing. -/
theorem begin_no_port (hwifi : a.wifi = .gotIp) (hport : beginPort uri.text = none) :
    begin keys uri func a = ⟨[], ioError⟩ := by
  unfold begin
  rw [if_neg (not_not.2 hwifi), hport]

end begin

end HTTPClient

/-! ### Hosts and ports of locations -/

/-- Everything in front of the first colon is the host, a slash or not. -/
theorem hostOf_firstColon {u before text : Bytes} (h : FirstColon u before text) : hostOf u = before := by
  have hfind := h.find_eq
  obtain ⟨behind, rfl, -⟩ := h
  unfold hostOf
  rw [hfind, Option.some_or, Option.getD_some, List.take_left]

/-- Without a colon the host ends at the first slash. -/
theorem hostOf_of_no_colon {host path : Bytes} (hcolon : COLON ∉ host ++ path) (hslash : SLASH ∉ host)
    (hpath : path = [] ∨ [SLASH] <+: path) : hostOf (host ++ path) = host := by
  unfold hostOf
  rw [find_singleton_eq_none_iff.2 hcolon, Option.none_or]
  rcases hpath with rfl | ⟨t, rfl⟩
  · rw [List.append_nil, find_singleton_eq_none_iff.2 hslash, Option.getD_none, List.take_length]
  · rw [← List.append_assoc, find_append_here hslash, Option.getD_some, List.append_assoc, List.take_left]

namespace Address

variable (l : Address)

/-- The port that the location asks for: the one it gives, if it is in range, or that of the scheme. -/
def wanted : Option Nat :=
  match l.port with
  | none => some l.scheme.port
  | some digits =>
    if 1 ≤ digitsValue digits ∧ digitsValue digits ≤ 65535 then some (digitsValue digits) else none

/-- `begin` looks for the host and connects to it and the port that is wanted, and to nothing else.  If the port is out of
range it fails without a connection. -/
def Honoured : Prop :=
  ∀ (keys : List Bytes) (func : SessionContext → Outcome Response) (a : Answers), a.wifi = .gotIp →
    match l.wanted with
    | some port =>
      (a.Dials (decide (l.scheme = .https)) l.host →
          contacts (begin keys l.uri func a).events =
            [.resolve l.host, dial (decide (l.scheme = .https)) l.host port]) ∧
        (¬ a.Dials (decide (l.scheme = .https)) l.host →
          contacts (begin keys l.uri func a).events = [.resolve l.host])
    | none =>
      (begin keys l.uri func a).outcome = ioError ∧
        ∀ e ∈ contacts (begin keys l.uri func a).events, ∃ host, e = .resolve host

theorem rest_of_port {digits : Bytes} (h : l.port = some digits) : FirstColon l.rest l.host digits := by
  refine ⟨l.path, ?_, l.host_colon, l.port_slash digits h, l.path_slash⟩
  rw [Location.rest, Location.authority, h, Option.elim_some, List.append_assoc, List.cons_append]

theorem rest_of_no_port (h : l.port = none) : l.rest = l.host ++ l.path := by
  rw [Location.rest, Location.authority, h, Option.elim_none, List.append_nil]

/-- If `begin` finds the host and the port that are wanted, it does with them what it should. -/
theorem honoured_of_found {port : Nat} (hwanted : l.wanted = some port) (hhost : hostOf l.rest = l.host)
    (hport : beginPort l.uri.text = some port) : l.Honoured := by
  intro keys func a hwifi
  have hcontacts := begin_contacts keys func a hwifi hport
  rw [l.withoutScheme_uri, l.useTLS_uri, hhost] at hcontacts
  rw [hwanted]
  exact hcontacts

theorem honoured_of_refused (hwanted : l.wanted = none) (hport : beginPort l.uri.text = none) : l.Honoured := by
  intro keys func a hwifi
  rw [hwanted, begin_no_port keys func a hwifi hport]
  exact ⟨rfl, fun e he => absurd he List.not_mem_nil⟩

/-- Answers with which nothing goes wrong. -/
def willing : Answers := impersonated

theorem willing_dials (tls : Bool) (host : Bytes) : willing.Dials tls host := by
  refine ⟨rfl, ?_⟩
  cases tls with
  | true => exact ⟨rfl, rfl, by decide, rfl, by decide, rfl, by decide, by decide, rfl⟩
  | false => exact Int.le_of_lt (by decide : (0 : Int) < 3)

theorem dial_injective (tls : Bool) (host : Bytes) : Function.Injective (dial tls host) := by
  intro port port' h
  unfold dial at h
  split at h
  · have hname := List.append_cancel_left (Event.connectTls.inj h)
    rw [← digitsValue_toDecimal port, hname, digitsValue_toDecimal]
  · exact Event.connect.inj h

/-- What is found where all goes well is what is wanted. -/
theorem found_of_honoured (h : l.Honoured) :
    beginPort l.uri.text = l.wanted ∧ ∀ port, l.wanted = some port → hostOf l.rest = l.host := by
  have hall := h [] (fun _ => .waiting) willing rfl
  cases hport : beginPort l.uri.text with
  | none =>
    rw [begin_no_port [] (fun _ => .waiting) willing rfl hport] at hall
    cases hwanted : l.wanted with
    | none => exact ⟨rfl, fun port => nofun⟩
    | some port =>
      rw [hwanted] at hall
      have hnothing := hall.1 (willing_dials _ _)
      contradiction
  | some port =>
    have hcontacts := (begin_contacts [] (fun _ => .waiting) willing rfl hport).1 (willing_dials _ _)
    rw [l.withoutScheme_uri, l.useTLS_uri] at hcontacts
    rw [hcontacts] at hall
    cases hwanted : l.wanted with
    | none =>
      rw [hwanted] at hall
      obtain ⟨host, hdial⟩ := hall.2 _ (List.mem_cons_of_mem _ List.mem_cons_self)
      unfold dial at hdial
      split at hdial <;> contradiction
    | some port' =>
      rw [hwanted] at hall
      have hsame := hall.1 (willing_dials _ _)
      rw [List.cons.injEq, List.cons.injEq, Event.resolve.injEq] at hsame
      obtain ⟨hhost, hdial, -⟩ := hsame
      rw [hhost] at hdial
      rw [dial_injective _ _ hdial]
      exact ⟨rfl, fun _ _ => hhost⟩

/-- A colon in the path is found for want of one in front of the port. -/
theorem honoured_no_port_iff (hport : l.port = none) : l.Honoured ↔ COLON ∉ l.path := by
  have hwanted : l.wanted = some l.scheme.port := by
    rw [wanted, hport]
  have hrest := l.rest_of_no_port hport
  constructor
  · intro h hcolon
    obtain ⟨-, hhost⟩ := l.found_of_honoured h
    have hmem : COLON ∈ l.rest := by
      rw [hrest]
      exact List.mem_append_right _ hcolon
    obtain ⟨before, text, hfirst⟩ := exists_firstColon hmem
    have hbefore : before = l.host := (hostOf_firstColon hfirst).symm.trans (hhost _ hwanted)
    obtain ⟨behind, heq, -⟩ := hfirst
    rw [hrest, hbefore, List.append_cancel_left_eq] at heq
    -- the path would begin with the colon
    rcases l.path_slash with hempty | ⟨t, ht⟩
    · rw [hempty] at heq
      contradiction
    · rw [← ht, List.singleton_append, List.cons.injEq] at heq
      exact absurd heq.1 (by decide)
  · intro hcolon
    have hfree : COLON ∉ l.host ++ l.path := by
      rw [List.mem_append, not_or]
      exact ⟨l.host_colon, hcolon⟩
    apply l.honoured_of_found hwanted
    · rw [hrest]
      exact hostOf_of_no_colon hfree l.host_slash l.path_slash
    · rw [l.beginPort_uri, hrest, parsePort_none _ hfree]
      cases l.scheme <;> rfl

/-- A number above 65535 is only refused if its last 16 bits are zero. -/
theorem honoured_port_iff {digits : Bytes} (hport : l.port = some digits) :
    l.Honoured ↔ digitsValue digits < 2 ^ 16 ∨ digitsValue digits < 2 ^ 64 ∧ digitsValue digits % 2 ^ 16 = 0 := by
  have hfirst := l.rest_of_port hport
  have hwanted : l.wanted =
      if 1 ≤ digitsValue digits ∧ digitsValue digits ≤ 65535 then some (digitsValue digits) else none := by
    rw [wanted, hport]
  have hfound : beginPort l.uri.text =
      if strtoul digits % 2 ^ 16 = 0 then none else some (strtoul digits % 2 ^ 16) := by
    rw [l.beginPort_uri, parsePort_colon _ hfirst]
  have hvalue := strtoul_digits (l.digits digits hport).2
  constructor
  · intro h
    by_contra hneither
    obtain ⟨heq, -⟩ := l.found_of_honoured h
    have hlarge : ¬ digitsValue digits < 2 ^ 16 := fun hsmall => hneither (.inl hsmall)
    have hcut : strtoul digits % 2 ^ 16 ≠ 0 := by
      rw [hvalue]
      split
      · decide
      · exact fun hzero => hneither (.inr ⟨by omega, hzero⟩)
    rw [hfound, hwanted, if_neg hcut, if_neg (by omega)] at heq
    contradiction
  · intro h
    have hread : strtoul digits = digitsValue digits := by
      rw [hvalue, if_neg (by omega)]
    rw [hread] at hfound
    by_cases hrange : 1 ≤ digitsValue digits ∧ digitsValue digits ≤ 65535
    · rw [if_pos hrange] at hwanted
      apply l.honoured_of_found hwanted (hostOf_firstColon hfirst)
      rw [hfound, if_neg (by omega), Nat.mod_eq_of_lt (by omega)]
    · rw [if_neg hrange] at hwanted
      apply l.honoured_of_refused hwanted
      rw [hfound, if_pos (by omega)]

/-- Exactly when a location is connected to as it says, or refused for its port: without a port, if the path has no colon;
with one, if its number fits 16 bits, or is a multiple of 65536 below the largest that is read. -/
theorem honoured_iff :
    l.Honoured ↔
      (l.port = none → COLON ∉ l.path) ∧
        ∀ digits ∈ l.port,
          digitsValue digits < 2 ^ 16 ∨ digitsValue digits < 2 ^ 64 ∧ digitsValue digits % 2 ^ 16 = 0 := by
  cases hport : l.port with
  | none =>
    rw [honoured_no_port_iff l hport]
    exact ⟨fun h => ⟨fun _ => h, fun _ => nofun⟩, fun h => h.1 rfl⟩
  | some digits =>
    rw [honoured_port_iff l hport]
    constructor
    · intro h
      refine ⟨nofun, fun digits' hdigits' => ?_⟩
      cases hdigits'
      exact h
    · intro h
      exact h.2 digits rfl

/-- A colon in the path. -/
def colonInPath : Address where
  scheme := .http
  host := ascii "h"
  port := none
  path := ascii "/a:1"
  host_slash := by decide
  port_slash := by decide
  path_slash := .inr (by decide)
  terminated := by decide
  host_ne := by decide
  host_colon := by decide
  digits := by decide

/-- The host is looked up with the start of the path, and the port is the number behind the colon. -/
theorem colonInPath_contacts :
    contacts (begin [] colonInPath.uri (fun _ => .waiting) willing).events =
        [.resolve (ascii "h/a"), .connect 1] ∧
      ¬ colonInPath.Honoured := by
  have hport : beginPort colonInPath.uri.text = some 1 := by decide
  have hcontacts := (begin_contacts [] (fun _ => .waiting) willing rfl hport).1 (willing_dials _ _)
  have hhost : hostOf (withoutScheme colonInPath.uri.text) = ascii "h/a" := by decide
  refine ⟨?_, fun h => ?_⟩
  · rw [hcontacts, hhost]
    rfl
  · have hsame := (h [] (fun _ => .waiting) willing rfl).1 (willing_dials _ _)
    rw [hcontacts, hhost, List.cons.injEq, Event.resolve.injEq] at hsame
    exact absurd hsame.1 (by decide)

end Address

end IopHal
