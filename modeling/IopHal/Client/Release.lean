import IopHal.Client.Begin
import IopHal.Library.Ledger

/-!
# What `HTTPClient::begin` releases

The events of a call as a ledger of sockets, TLS contexts, BIOs and certificates.  Every exit of `begin` settles it but
the one behind a `connect` that fails (`begin_releases_iff`).
-/

namespace IopHal.HTTPClient

open Ledger

def Event.entry : Event → Option (Entry Resource)
  | acquire r => some (.acquire r)
  | release r => some (.release r)
  | _ => none

def ledger (events : List Event) : List (Entry Resource) := events.filterMap Event.entry

section callback

variable {func : SessionContext → Outcome Response} {done : List Event} {ctx : SessionContext} {frees : List Resource}

/-- A call that returns from the callback has freed what it still held. -/
theorem settled_callback (hdone : holds [] (ledger done) = some frees) {r : Response}
    (h : (callback func done ctx frees).outcome = .returned r) : Settled (ledger (callback func done ctx frees).events) := by
  have hreturned : func ctx = .returned r := h
  have hfrees : ∀ held : List Resource, holds held (ledger (held.map .release)) = some [] := by
    intro held
    induction held with
    | nil => rfl
    | cons q held ih =>
      show holds (q :: held) (.release q :: ledger (held.map .release)) = some []
      rw [holds, if_pos List.mem_cons_self, List.erase_cons_head]
      exact ih
  unfold Settled callback
  rw [hreturned]
  show holds [] ((done ++ Event.session ctx :: frees.map Event.release).filterMap Event.entry) = some []
  rw [List.filterMap_append, holds_append]
  show (holds [] (ledger done)).bind _ = some []
  rw [hdone]
  exact hfrees frees

end callback

/-- Every error branch of the TLS setup frees what has been made so far. -/
theorem settled_of_error {name : Bytes} {a : TlsAnswers} {es : List Event} (h : setupTls name a = .error es) :
    Settled (ledger es) := by
  cases setupTls_exit h with
  | nothing _ => rfl
  | context _ => rfl
  | bio _ => rfl
  | connection _ => rfl
  | certificate _ => rfl

section begin

variable (keys : List Bytes) (uri : StaticString) (func : SessionContext → Outcome Response) (a : Answers)

/-- A call of `begin` that returns has released everything it has acquired exactly once, unless it has opened a socket that
it could not connect. -/
theorem begin_releases_iff :
    (∀ r, (begin keys uri func a).outcome = .returned r → Settled (ledger (begin keys uri func a).events)) ↔
      ¬ (a.Ready uri ∧ useTLS uri.text = false ∧ 0 ≤ a.socket ∧ a.connect < 0) := by
  have hexit := begin_exit keys func a uri
  generalize begin keys uri func a = begun at hexit ⊢
  cases hexit with
  | noAddress hwifi => exact iff_of_true (fun _ _ => rfl) fun h => hwifi h.1.wifi
  | noPort hport => exact iff_of_true (fun _ _ => rfl) fun h => h.1.port hport
  | noHost _ _ hhost =>
    apply iff_of_true
    · exact fun _ _ => rfl
    · intro h
      have hfound := h.1.host
      rw [hhost] at hfound
      contradiction
  | setupFailed _ _ htls hsetup =>
    apply iff_of_true
    · intro r _
      have hsettled := settled_of_error hsetup
      exact hsettled
    · intro h
      rw [htls] at h
      exact Bool.noConfusion h.2.1
  | secured _ _ htls hsetup =>
    apply iff_of_true
    · obtain rfl := (setupTls_eq_ok_iff.1 hsetup).2
      exact fun r hreturned => settled_callback rfl hreturned
    · intro h
      rw [htls] at h
      exact Bool.noConfusion h.2.1
  | noSocket _ _ _ hsocket => exact iff_of_true (fun _ _ => rfl) fun h => absurd h.2.2.1 (by omega)
  | @refused port hready _ htls hsocket hconnect =>
    -- the socket is still held
    apply iff_of_false
    · intro h
      have hcount := (h _ rfl).count_eq (.socket a.socket)
      have hledger : ledger [.resolve (hostOf (withoutScheme uri.text)), .acquire (.socket a.socket), .connect port] =
          [.acquire (.socket a.socket)] := rfl
      rw [hledger] at hcount
      simp at hcount
    · exact not_not.2 ⟨hready, htls, hsocket, hconnect⟩
  | connected _ _ _ _ hconnect _ =>
    apply iff_of_true
    · exact fun r hreturned => settled_callback rfl hreturned
    · exact fun h => absurd h.2.2.2 (by omega)

end begin

/-- The answers to a host that refuses the connection. -/
def refusing : Answers := { impersonated with connect := -1 }

/-- The socket stays open. -/
theorem socket_left_open :
    (begin [] ⟨ascii "http://h/", by decide⟩ (fun _ => .returned (.ofCode 200)) refusing).outcome = ioError ∧
      ¬ Settled (ledger
        (begin [] ⟨ascii "http://h/", by decide⟩ (fun _ => .returned (.ofCode 200)) refusing).events) := by
  decide

end IopHal.HTTPClient
