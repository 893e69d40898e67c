import IopHal.Client.Begin
import IopHal.Client.Request

/-!
# Locations

URIs of the form `scheme://host[:port][path]` in the Linux client: what `HTTPClient::begin` leaves of them for the session,
and the path that `Session::sendRequest` asks for.  It is asked for as it stands unless there is a `://` behind the scheme
(`writesTarget_iff`).
-/

namespace IopHal

open Find HTTPClient

/-- `scheme://host[:port][path]` -/
structure Location where
  scheme : Scheme
  host : Bytes
  port : Option Bytes
  path : Bytes
  host_slash : SLASH ∉ host
  port_slash : ∀ text ∈ port, SLASH ∉ text
  path_slash : path = [] ∨ [SLASH] <+: path
  terminated : NUL ∉ host ∧ (∀ text ∈ port, NUL ∉ text) ∧ NUL ∉ path

namespace Location

variable (l : Location)

/-- `host[:port]` -/
def authority : Bytes := l.host ++ l.port.elim [] (COLON :: ·)

/-- What is behind the scheme. -/
def rest : Bytes := l.authority ++ l.path

/-- A character that neither the host nor the port has, and that is no colon. -/
theorem not_mem_authority {c : UInt8} (hcolon : c ≠ COLON) (hhost : c ∉ l.host) (hport : ∀ text ∈ l.port, c ∉ text) :
    c ∉ l.authority := by
  unfold authority
  cases h : l.port with
  | none => simpa using hhost
  | some text =>
    have htext : c ∉ text := hport text h
    simp [hhost, htext, hcolon]

theorem slash_not_mem_authority : SLASH ∉ l.authority :=
  l.not_mem_authority (by decide) l.host_slash l.port_slash

theorem nul_not_mem_authority : NUL ∉ l.authority :=
  l.not_mem_authority (by decide) l.terminated.1 l.terminated.2.1

def uri : StaticString where
  text := l.scheme.text ++ l.rest
  terminated := by
    have hscheme : NUL ∉ l.scheme.text := by
      cases l.scheme <;> decide
    rw [List.mem_append, rest, List.mem_append, not_or, not_or]
    exact ⟨hscheme, l.nul_not_mem_authority, l.terminated.2.2⟩

theorem withoutScheme_uri : withoutScheme l.uri.text = l.rest := withoutScheme_scheme l.scheme l.rest

theorem useTLS_uri : useTLS l.uri.text = decide (l.scheme = .https) := useTLS_scheme l.scheme l.rest

theorem beginPort_uri : beginPort l.uri.text = parsePort (decide (l.scheme = .https)) l.rest :=
  beginPort_scheme l.scheme l.rest

/-! ### The path that is asked for -/

/-- The path, or the root where there is none. -/
def target : Bytes := if l.path = [] then ascii "/" else l.path

/-- Every request of a session with this URI asks for the target. -/
def WritesTarget : Prop :=
  ∀ (ctx : SessionContext) (method data : Bytes), ctx.uri = l.rest → (requestPieces ctx method data)[2]? = some l.target

/-- The session has the URI without its scheme. -/
theorem session_uri {keys : List Bytes} {uri : StaticString} {func : SessionContext → Outcome Response} {a : Answers}
    {ctx : SessionContext} (h : .session ctx ∈ (begin keys uri func a).events) : ctx.uri = withoutScheme uri.text := by
  have hcallback : ∀ {done frees ctx'}, (∀ ctx, Event.session ctx ∉ done) →
      Event.session ctx ∈ (callback func done ctx' frees).events → ctx = ctx' := by
    intro done frees ctx' hdone hmem
    rcases List.mem_append.1 hmem with hmem | hmem
    · exact absurd hmem (hdone ctx)
    · rcases List.mem_cons.1 hmem with heq | hmem
      · exact Event.session.inj heq
      · split at hmem <;> simp at hmem
  have hexit := begin_exit keys func a uri
  generalize begin keys uri func a = begun at hexit h
  cases hexit with
  | noAddress _ => simp at h
  | noPort _ => simp at h
  | noHost _ _ _ => simp at h
  | setupFailed _ _ _ hsetup => cases setupTls_exit hsetup <;> simp at h
  | secured _ _ _ hsetup =>
    obtain rfl := (setupTls_eq_ok_iff.1 hsetup).2
    rw [hcallback (by simp) h]
  | noSocket _ _ _ _ => simp at h
  | refused _ _ _ _ _ => simp at h
  | connected _ _ _ _ _ _ => rw [hcallback (by simp) h]

theorem requestPath_rest_iff :
    requestPath l.rest = l.target ↔
      ∀ n, find (ascii "://") l.rest = some n → find [SLASH] (l.rest.drop (n + 3)) = some l.authority.length := by
  unfold target rest
  rcases l.path_slash with hempty | ⟨t, ht⟩
  · -- there is no slash at all
    have hnone : find (ascii "://") l.authority = none := by
      rw [find_eq_none_iff]
      intro hinside
      exact l.slash_not_mem_authority (hinside.subset (by decide))
    rw [hempty, if_pos rfl, List.append_nil, hnone]
    exact iff_of_true (requestPath_authority l.slash_not_mem_authority l.nul_not_mem_authority) fun n => nofun
  · have hne : l.path ≠ [] := by
      rw [← ht]
      exact List.cons_ne_nil _ _
    have hnul : NUL ∉ SLASH :: t := by
      rw [← List.singleton_append, ht]
      exact l.terminated.2.2
    rw [if_neg hne, ← ht, List.singleton_append,
      requestPath_eq_iff l.slash_not_mem_authority l.nul_not_mem_authority]
    exact and_iff_right hnul

/-- The URI of every session is what is behind the scheme, and the path asked for with that URI is the target exactly if
there is no `://` in it or the first slash behind the first one stands as far behind it as the authority is long. -/
theorem writesTarget_iff :
    (∀ keys func a ctx, .session ctx ∈ (begin keys l.uri func a).events → ctx.uri = l.rest) ∧
      (l.WritesTarget ↔
        ∀ n, find (ascii "://") l.rest = some n → find [SLASH] (l.rest.drop (n + 3)) = some l.authority.length) := by
  constructor
  · intro keys func a ctx h
    rw [session_uri h, withoutScheme_uri]
  · rw [← requestPath_rest_iff]
    constructor
    · intro h
      exact Option.some.inj (h ⟨-1, [], [], l.rest, true, opened_tls⟩ [] [] rfl)
    · intro h ctx method data huri
      rw [← h, ← huri]
      rfl

/-- A path with another URI in it. -/
def nested : Location where
  scheme := .http
  host := ascii "g"
  port := some (ascii "80")
  path := ascii "/a://b"
  host_slash := by decide
  port_slash := by decide
  path_slash := .inr (by decide)
  terminated := by decide

/-- The root is asked for instead. -/
theorem nested_root : requestPath nested.rest = ascii "/" ∧ ¬ nested.WritesTarget := by
  have hroot : requestPath nested.rest = ascii "/" := by decide
  refine ⟨hroot, fun h => ?_⟩
  have hpath := Option.some.inj (h ⟨-1, [], [], nested.rest, true, opened_tls⟩ [] [] rfl)
  revert hpath
  rw [hroot]
  decide

end Location

end IopHal
