import IopHal.Bytes

/-!
# Ports of URIs

How the two backends find the port of a URI.  The Linux client takes the first colon behind the scheme, wherever it is,
and reads the number behind it with `strtoul`; the ESP client looks for a colon in the host only, and reads the number
with `from_chars`.  `samePort_iff` says for which URIs they agree.
-/

namespace IopHal

open Find

abbrev SLASH : UInt8 := 47

/-! ### Numbers -/

/-- `strtoul` of glibc in base ten: it skips white space, takes a sign, saturates, and negates in 64 bits. -/
def strtoul (s : Bytes) : Nat :=
  let (sign, t) := splitSign (s.dropWhile isspace)
  let value := digitsValue (t.takeWhile isDigit)
  if 2 ^ 64 ≤ value then 2 ^ 64 - 1
  else if sign = 1 then value
  else (2 ^ 64 - value) % 2 ^ 64

/-- The errors of `std::from_chars` -/
inductive Errc
  | invalidArgument
  | resultOutOfRange
  deriving DecidableEq

/-- `std::from_chars` into a `uint16_t`: the digits that come first, which must be there and fit -/
def fromChars (s : Bytes) : Except Errc Nat :=
  if s.takeWhile isDigit = [] then .error .invalidArgument
  else if digitsValue (s.takeWhile isDigit) < 2 ^ 16 then .ok (digitsValue (s.takeWhile isDigit))
  else .error .resultOutOfRange

/-- A number that comes first is read by both. -/
theorem strtoul_of_fromChars {s : Bytes} {n : Nat} (h : fromChars s = .ok n) : strtoul s = n ∧ n < 2 ^ 16 := by
  unfold fromChars at h
  split at h
  · contradiction
  · rename_i hdigits
    split at h
    · rename_i hfits
      obtain rfl := Except.ok.inj h
      refine ⟨?_, hfits⟩
      cases s with
      | nil => exact absurd rfl hdigits
      | cons c s =>
        have hc : isDigit c = true := by
          by_contra hc
          exact hdigits (List.takeWhile_cons_of_neg hc)
        unfold strtoul
        rw [dropWhile_isspace_digit hc, splitSign_digit hc]
        dsimp only
        rw [if_neg (by omega), if_pos rfl]
    · contradiction

/-- Digits are read as their value, if it is not too large. -/
theorem strtoul_digits {ds : Bytes} (h : ∀ d ∈ ds, isDigit d) :
    strtoul ds = if 2 ^ 64 ≤ digitsValue ds then 2 ^ 64 - 1 else digitsValue ds := by
  cases ds with
  | nil => rfl
  | cons d ds =>
    have htake : (d :: ds).takeWhile isDigit = d :: ds := List.takeWhile_eq_self_iff.2 h
    have hd : isDigit d := h d List.mem_cons_self
    unfold strtoul
    rw [dropWhile_isspace_digit hd, splitSign_digit hd]
    dsimp only
    rw [htake, if_pos rfl]

/-! ### The Linux client -/

/-- `useTLS` -/
def useTLS (uri : Bytes) : Bool := find (ascii "https://") uri = some 0

def withoutScheme (uri : Bytes) : Bytes :=
  if useTLS uri then uri.drop 8 else if find (ascii "http://") uri = some 0 then uri.drop 7 else uri

/-- The port of a URI without its scheme, unless it is zero, which is an error. -/
def parsePort (tls : Bool) (uri : Bytes) : Option Nat :=
  match find [COLON] uri with
  | none => some (if tls then 443 else 80)
  | some portIndex =>
    let length := (find [SLASH] (uri.drop (portIndex + 1))).getD uri.length
    let port := strtoul ((uri.drop (portIndex + 1)).take length) % 2 ^ 16
    if port = 0 then none else some port

/-- The port that the Linux `HTTPClient::begin` finds. -/
def beginPort (uri : Bytes) : Option Nat := parsePort (useTLS uri) (withoutScheme uri)

/-! ### The ESP client -/

/-- `std::error_condition(ec).message()` is left open. -/
def unableToConvert (message : Errc → Bytes) (portStr : Bytes) (ec : Errc) : Bytes :=
  ascii "Unable to convert port to uint16_t: " ++ portStr ++ ascii " " ++ message ec

/-- `validateUri`, which returns nothing: the port is a variable of its own.  The message of the panic shows it as a C string,
up to the end of the URI. -/
def validateUri (message : Errc → Bytes) (uri : Bytes) : Outcome Nat :=
  let authority := uri.drop ((find (ascii "://") uri).elim 0 (· + 3))
  let host := authority.take ((find [SLASH] authority).getD authority.length)
  match find [COLON] host with
  | some index =>
    match fromChars (host.drop (index + 1)) with
    | .ok port => .returned port
    | .error ec => .panicked (unableToConvert message (cview (authority.drop (index + 1))) ec)
  | none =>
    if find (ascii "http://") uri ≠ none then .returned 80
    else if find (ascii "https://") uri ≠ none then .returned 443
    else .panicked (ascii "Protocol missing inside HttpClient::begin")

/-! ### URIs with a scheme -/

inductive Scheme
  | http
  | https
  deriving DecidableEq

def Scheme.text : Scheme → Bytes
  | http => ascii "http://"
  | https => ascii "https://"

def Scheme.port : Scheme → Nat
  | http => 80
  | https => 443

theorem not_https_prefix (u : Bytes) : ¬ ascii "https://" <+: ascii "http://" ++ u := by
  intro h
  have hfirst : ascii "https" <+: ascii "http:" := h.take 5
  revert hfirst
  decide

theorem useTLS_scheme (scheme : Scheme) (u : Bytes) : useTLS (scheme.text ++ u) = decide (scheme = .https) := by
  unfold useTLS
  cases scheme with
  | http =>
    apply decide_eq_false
    rw [find_eq_zero_iff]
    exact not_https_prefix u
  | https =>
    apply decide_eq_true
    exact find_of_isPrefix (List.prefix_append _ _)

theorem withoutScheme_scheme (scheme : Scheme) (u : Bytes) : withoutScheme (scheme.text ++ u) = u := by
  unfold withoutScheme
  rw [useTLS_scheme]
  cases scheme with
  | http =>
    have hzero : find (ascii "http://") (Scheme.http.text ++ u) = some 0 := find_of_isPrefix (List.prefix_append _ _)
    rw [if_neg (by decide), if_pos hzero]
    rfl
  | https => rfl

/-- The first colon of a text, with what stands in front of it and the text behind it up to the next slash. -/
def FirstColon (u before text : Bytes) : Prop :=
  ∃ behind, u = before ++ COLON :: (text ++ behind) ∧ COLON ∉ before ∧ SLASH ∉ text ∧
    (behind = [] ∨ [SLASH] <+: behind)

theorem exists_firstColon {u : Bytes} (h : COLON ∈ u) : ∃ before text, FirstColon u before text := by
  obtain ⟨before, rest, rfl, hbefore⟩ := List.eq_append_cons_of_mem h
  by_cases hslash : SLASH ∈ rest
  · obtain ⟨text, behind, rfl, htext⟩ := List.eq_append_cons_of_mem hslash
    exact ⟨before, text, SLASH :: behind, rfl, hbefore, htext, .inr (List.prefix_append [SLASH] behind)⟩
  · exact ⟨before, rest, [], by rw [List.append_nil], hbefore, hslash, .inl rfl⟩

section FirstColon

variable {u before text : Bytes}

theorem FirstColon.mem (h : FirstColon u before text) : COLON ∈ u := by
  obtain ⟨behind, rfl, -⟩ := h
  exact List.mem_append_right _ List.mem_cons_self

theorem FirstColon.find_eq (h : FirstColon u before text) : find [COLON] u = some before.length := by
  obtain ⟨behind, rfl, hbefore, -⟩ := h
  rw [List.append_cons]
  exact find_append_here hbefore [] _

theorem FirstColon.text_eq (h : FirstColon u before text) :
    (u.drop (before.length + 1)).takeWhile (· ≠ SLASH) = text := by
  obtain ⟨behind, rfl, -, htext, hbehind⟩ := h
  have hdrop : (before ++ COLON :: (text ++ behind)).drop (before.length + 1) = text ++ behind := by
    rw [List.append_cons, List.drop_left' (by simp)]
  rw [hdrop]
  rcases hbehind with rfl | ⟨t, rfl⟩
  · rw [List.append_nil, takeWhile_ne_self htext]
  · exact takeWhile_ne_append htext t

theorem FirstColon.unique (h : FirstColon u before text) {before' text' : Bytes} (h' : FirstColon u before' text') :
    before' = before ∧ text' = text := by
  have hlength : before'.length = before.length := Option.some.inj (h'.find_eq.symm.trans h.find_eq)
  refine ⟨?_, by rw [← h'.text_eq, hlength, h.text_eq]⟩
  obtain ⟨behind, rfl, -⟩ := h
  obtain ⟨behind', heq, -⟩ := h'
  exact (List.append_inj heq.symm hlength).1

/-- What is said of every first colon is said of this one. -/
theorem FirstColon.forall_iff (h : FirstColon u before text) (P : Bytes → Bytes → Prop) :
    (∀ before text, FirstColon u before text → P before text) ↔ P before text := by
  constructor
  · intro hall
    exact hall before text h
  · intro hone before' text' h'
    obtain ⟨rfl, rfl⟩ := h.unique h'
    exact hone

theorem parsePort_none (tls : Bool) (h : COLON ∉ u) : parsePort tls u = some (if tls then 443 else 80) := by
  unfold parsePort
  rw [find_singleton_eq_none_iff.2 h]

theorem parsePort_colon (tls : Bool) (h : FirstColon u before text) :
    parsePort tls u = if strtoul text % 2 ^ 16 = 0 then none else some (strtoul text % 2 ^ 16) := by
  unfold parsePort
  rw [h.find_eq]
  dsimp only
  rw [take_find SLASH (u.drop (before.length + 1)) (by rw [List.length_drop]; omega), h.text_eq]

/-- A colon in front of the first slash belongs to the host, and no other. -/
theorem FirstColon.host (h : FirstColon u before text) :
    u.takeWhile (· ≠ SLASH) =
      if SLASH ∈ before then before.takeWhile (· ≠ SLASH) else before ++ COLON :: text := by
  obtain ⟨behind, rfl, -, htext, hbehind⟩ := h
  by_cases hslash : SLASH ∈ before
  · obtain ⟨host, path, rfl, hhost⟩ := List.eq_append_cons_of_mem hslash
    rw [if_pos hslash, List.append_assoc, List.cons_append, takeWhile_ne_append hhost, takeWhile_ne_append hhost]
  · have hfree : SLASH ∉ before ++ COLON :: text := by
      rw [List.mem_append, List.mem_cons, not_or, not_or]
      exact ⟨hslash, by decide, htext⟩
    have hassoc : before ++ COLON :: (text ++ behind) = (before ++ COLON :: text) ++ behind := by
      rw [List.append_assoc, List.cons_append]
    rw [if_neg hslash, hassoc]
    rcases hbehind with rfl | ⟨t, rfl⟩
    · rw [List.append_nil, takeWhile_ne_self hfree]
    · exact takeWhile_ne_append hfree t

end FirstColon

/-- The port of the ESP client where the host has none. -/
def defaultPort (scheme : Scheme) (u : Bytes) : Nat := if scheme = .http ∨ ascii "http://" <:+: u then 80 else 443

theorem infix_https_iff (u : Bytes) : ascii "http://" <:+: ascii "https://" ++ u ↔ ascii "http://" <:+: u := by
  have hascii : ascii "https://" = [104, 116, 116, 112, 115, 58, 47, 47] := by decide
  have hpat : ascii "http://" = [104, 116, 116, 112, 58, 47, 47] := by decide
  rw [hascii, hpat]
  simp [List.infix_cons_iff, List.cons_prefix_cons]

section Esp

variable (message : Errc → Bytes) (scheme : Scheme) {u before text : Bytes}

theorem authority_scheme (u : Bytes) :
    (scheme.text ++ u).drop ((find (ascii "://") (scheme.text ++ u)).elim 0 (· + 3)) = u := by
  cases scheme with
  | http =>
    have hinside : ascii "://" <:+: ascii "http://" := ⟨ascii "http", [], by decide⟩
    have hfind : find (ascii "://") (ascii "http://") = some 4 := by decide
    unfold Scheme.text
    have hwhole := find_append_of_infix hinside u
    rw [hwhole, hfind]
    rfl
  | https =>
    have hinside : ascii "://" <:+: ascii "https://" := ⟨ascii "https", [], by decide⟩
    have hfind : find (ascii "://") (ascii "https://") = some 5 := by decide
    unfold Scheme.text
    have hwhole := find_append_of_infix hinside u
    rw [hwhole, hfind]
    rfl

theorem validateUri_default (h : COLON ∉ u.takeWhile (· ≠ SLASH)) :
    validateUri message (scheme.text ++ u) = .returned (defaultPort scheme u) := by
  unfold validateUri
  rw [authority_scheme]
  dsimp only
  rw [take_find SLASH u (Nat.le_refl _), find_singleton_eq_none_iff.2 h]
  unfold defaultPort
  cases scheme with
  | http =>
    have hfound : find (ascii "http://") (Scheme.http.text ++ u) = some 0 := find_of_isPrefix (List.prefix_append _ _)
    rw [hfound, if_pos (Option.some_ne_none 0)]
    exact congrArg Outcome.returned (if_pos (.inl rfl)).symm
  | https =>
    have hfound : find (ascii "https://") (Scheme.https.text ++ u) = some 0 := find_of_isPrefix (List.prefix_append _ _)
    have hother : find (ascii "http://") (Scheme.https.text ++ u) ≠ none ↔ ascii "http://" <:+: u := by
      rw [Ne, find_eq_none_iff, not_not]
      exact infix_https_iff u
    by_cases hinside : ascii "http://" <:+: u
    · rw [if_pos (hother.2 hinside), if_pos (.inr hinside)]
    · have hneither : ¬ (Scheme.https = .http ∨ ascii "http://" <:+: u) := by
        rw [not_or]
        exact ⟨Scheme.noConfusion, hinside⟩
      rw [if_neg fun hne => hinside (hother.1 hne), hfound, if_pos (Option.some_ne_none 0), if_neg hneither]

/-- A port behind the host is read as it stands there. -/
theorem validateUri_host (h : FirstColon u before text) (hslash : SLASH ∉ before) (port : Nat) :
    validateUri message (scheme.text ++ u) = .returned port ↔ fromChars text = .ok port := by
  have hhost := h.host
  rw [if_neg hslash] at hhost
  have hfind : find [COLON] (before ++ COLON :: text) = some before.length := by
    obtain ⟨-, -, hbefore, -⟩ := h
    rw [List.append_cons]
    exact find_append_here hbefore [] text
  have hdrop : (before ++ COLON :: text).drop (before.length + 1) = text := by
    rw [List.append_cons, List.drop_left' (by simp)]
  unfold validateUri
  rw [authority_scheme]
  dsimp only
  rw [take_find SLASH u (Nat.le_refl _), hhost, hfind]
  dsimp only
  rw [hdrop]
  cases fromChars text with
  | ok n => simp
  | error ec => simp

end Esp

/-- The port of a URI with a scheme, by `begin`. -/
theorem beginPort_scheme (scheme : Scheme) (u : Bytes) :
    beginPort (scheme.text ++ u) = parsePort (decide (scheme = .https)) u := by
  unfold beginPort
  rw [useTLS_scheme, withoutScheme_scheme]

theorem defaultPort_ne_zero (scheme : Scheme) (u : Bytes) : defaultPort scheme u ≠ 0 := by
  unfold defaultPort
  split <;> decide

theorem forall_some_iff_default {n d : Nat} (hd : d ≠ 0) :
    (∀ port, (if n = 0 then none else some n) = some port ↔ (Outcome.returned d : Outcome Nat) = .returned port) ↔
      n = d := by
  constructor
  · intro hall
    have hsome := (hall d).2 rfl
    split at hsome
    · contradiction
    · exact Option.some.inj hsome
  · intro heq port
    subst heq
    rw [if_neg hd, Option.some.injEq, Outcome.returned.injEq]

section SamePort

variable (message : Errc → Bytes) (scheme : Scheme) {u before text : Bytes}

theorem samePort_of_no_colon (h : COLON ∉ u) (port : Nat) :
    parsePort (decide (scheme = .https)) u = some port ↔ validateUri message (scheme.text ++ u) = .returned port := by
  have hhost : COLON ∉ u.takeWhile (· ≠ SLASH) := fun hmem => h ((List.takeWhile_sublist _).subset hmem)
  have hinside : ¬ ascii "http://" <:+: u := fun hinside => h (hinside.subset (by decide))
  rw [parsePort_none _ h, validateUri_default message scheme hhost, Option.some.injEq, Outcome.returned.injEq]
  unfold defaultPort
  cases scheme with
  | http => simp
  | https => simp [hinside]

/-- The first colon belongs to the path, and the host has none. -/
theorem samePort_in_path_iff (h : FirstColon u before text) (hslash : SLASH ∈ before) :
    (∀ port, parsePort (decide (scheme = .https)) u = some port ↔
        validateUri message (scheme.text ++ u) = .returned port) ↔
      strtoul text % 2 ^ 16 = defaultPort scheme u := by
  have hhost : COLON ∉ u.takeWhile (· ≠ SLASH) := by
    obtain ⟨-, -, hbefore, -⟩ := id h
    rw [h.host, if_pos hslash]
    exact fun hmem => hbefore ((List.takeWhile_sublist _).subset hmem)
  rw [parsePort_colon _ h, validateUri_default message scheme hhost]
  exact forall_some_iff_default (defaultPort_ne_zero scheme u)

/-- The first colon belongs to the host, and both read what is behind it. -/
theorem samePort_in_host_iff (h : FirstColon u before text) (hslash : SLASH ∉ before) :
    (∀ port, parsePort (decide (scheme = .https)) u = some port ↔
        validateUri message (scheme.text ++ u) = .returned port) ↔
      (∃ port, fromChars text = .ok port ∧ port ≠ 0) ∨
        (∃ ec, fromChars text = .error ec) ∧ strtoul text % 2 ^ 16 = 0 := by
  simp only [parsePort_colon _ h, validateUri_host message scheme h hslash]
  cases hport : fromChars text with
  | ok port =>
    obtain ⟨hvalue, hfits⟩ := strtoul_of_fromChars hport
    rw [hvalue, Nat.mod_eq_of_lt hfits]
    by_cases hzero : port = 0
    · subst hzero
      apply iff_of_false
      · intro hall
        exact absurd ((hall 0).2 rfl) (by simp)
      · rintro (⟨n, hn, hne⟩ | ⟨⟨ec, hec⟩, -⟩)
        · exact hne (Except.ok.inj hn).symm
        · contradiction
    · apply iff_of_true
      · intro n
        rw [if_neg hzero, Option.some.injEq, Except.ok.injEq]
      · exact .inl ⟨port, rfl, hzero⟩
  | error ec =>
    constructor
    · intro hall
      refine .inr ⟨⟨ec, rfl⟩, ?_⟩
      by_contra hne
      have hsome := (hall (strtoul text % 2 ^ 16)).1 (if_neg hne)
      contradiction
    · rintro (⟨n, hn, -⟩ | ⟨-, hzero⟩) port
      · contradiction
      · rw [if_pos hzero]
        apply iff_of_false
        · intro h
          contradiction
        · intro h
          contradiction

end SamePort

/-- Both backends find the same port, or none, exactly if there is no colon behind the scheme, or the first one belongs to
the host and has a number behind it that both read alike, or it belongs to the path and what follows it reads as
the port of the scheme. -/
theorem samePort_iff (message : Errc → Bytes) (scheme : Scheme) (rest : StaticString) :
    (∀ port, beginPort (scheme.text ++ rest.text) = some port ↔
        validateUri message (scheme.text ++ rest.text) = .returned port) ↔
      ∀ before text, FirstColon rest.text before text →
        (SLASH ∉ before → (∃ port, fromChars text = .ok port ∧ port ≠ 0) ∨
          (∃ ec, fromChars text = .error ec) ∧ strtoul text % 2 ^ 16 = 0) ∧
        (SLASH ∈ before → strtoul text % 2 ^ 16 = defaultPort scheme rest.text) := by
  rw [beginPort_scheme]
  by_cases hcolon : COLON ∈ rest.text
  · obtain ⟨before, text, h⟩ := exists_firstColon hcolon
    rw [h.forall_iff]
    by_cases hslash : SLASH ∈ before
    · rw [samePort_in_path_iff message scheme h hslash]
      exact ⟨fun heq => ⟨fun hnot => absurd hslash hnot, fun _ => heq⟩, fun hcase => hcase.2 hslash⟩
    · rw [samePort_in_host_iff message scheme h hslash]
      exact ⟨fun hread => ⟨fun _ => hread, fun hmem => absurd hmem hslash⟩, fun hcase => hcase.1 hslash⟩
  · apply iff_of_true
    · exact samePort_of_no_colon message scheme hcolon
    · exact fun before text h => absurd h.mem hcolon

/-- A colon in the path, where only the Linux client looks for a port. -/
theorem samePort_path :
    beginPort (ascii "http://h/a:b") = none ∧ ∀ message, validateUri message (ascii "http://h/a:b") = .returned 80 :=
  ⟨by decide, fun _ => rfl⟩

end IopHal
