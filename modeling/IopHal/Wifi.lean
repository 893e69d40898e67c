import IopHal.Client.Begin

/-!
# `Wifi::status`

On Linux the status is found out by a request to a known host.  The request asks for the status itself, in
`HTTPClient::begin` and in `Session::sendRequest`, and the flag that keeps these calls from asking again is never taken
back.  `truthful_iff` says which runs of calls tell the truth.
-/

namespace IopHal.Wifi

/-- `https://google.com` -/
def probeUri : StaticString := ⟨ascii "https://google.com", by decide⟩

/-- What the system answers to the request of one call.  The status in `answers` is left out of account, as the model asks
for it. -/
structure Probe where
  answers : HTTPClient.Answers
  recvs : List Recv

/-- What a call tells, what it leaves in `running`, and the code of the response to the request it has made. -/
structure Told where
  status : StationStatus
  running : Bool
  probe : Option Int
  deriving DecidableEq

def status (running : Bool) (p : Probe) : Outcome Told :=
  if running then .returned ⟨.gotIp, running, none⟩
  else
    -- `running` is set before the request, and nothing resets it behind
    (status true p).bind fun inBegin =>
      (HTTPClient.begin [] probeUri
        (fun ctx => (status true p).bind fun inRequest =>
          (sendRequest ctx inRequest.status (ascii "GET") [] p.recvs).outcome)
        { p.answers with wifi := inBegin.status }).outcome.bind fun response =>
          .returned ⟨if response.code > 0 then .gotIp else .connectFail, true, some response.code⟩
termination_by if running then 0 else 1
decreasing_by
  all_goals
    have hfirst : ¬ running = true := ‹_›
    rw [if_pos trivial, if_neg hfirst]
    exact Nat.one_pos

/-- The calls of a process, one after the other. -/
def run (running : Bool) : List Probe → Outcome (List Told)
  | [] => .returned []
  | p :: probes =>
    (status running p).bind fun told => (run told.running probes).bind fun later => .returned (told :: later)

/-! ### The truth -/

/-- The code of the last probe that some calls have made. -/
def lastProbe (calls : List Told) : Option Int := calls.reverse.findSome? Told.probe

/-- Who tells that there is an address has seen a probe succeed, and none fail since. -/
def Truthful (calls : List Told) : Prop :=
  ∀ before call after, calls = before ++ call :: after → call.status = .gotIp →
    ∃ code, lastProbe (before ++ [call]) = some code ∧ 0 < code

/-- The request of a call that finds `running` reset, which is let through. -/
def request (p : Probe) : Outcome Response :=
  (HTTPClient.begin [] probeUri (fun ctx => (sendRequest ctx .gotIp (ascii "GET") [] p.recvs).outcome)
    { p.answers with wifi := .gotIp }).outcome

theorem status_running (p : Probe) : status true p = .returned ⟨.gotIp, true, none⟩ := by
  rw [status, if_pos rfl]

theorem status_first (p : Probe) :
    status false p = (request p).bind fun response =>
      .returned ⟨if response.code > 0 then .gotIp else .connectFail, true, some response.code⟩ := by
  rw [status, if_neg Bool.false_ne_true]
  simp only [status_running, Outcome.bind_returned]
  rfl

/-- Behind the first call none makes a request, and all tell the same. -/
theorem run_running (probes : List Probe) :
    run true probes = .returned (List.replicate probes.length ⟨.gotIp, true, none⟩) := by
  induction probes with
  | nil => rfl
  | cons p probes ih =>
    rw [run, status_running, Outcome.bind_returned, ih]
    rfl

/-- A run that has returned is the first call and what it is taken to mean ever after. -/
theorem run_cons_returned {p : Probe} {probes : List Probe} {calls : List Told}
    (h : run false (p :: probes) = .returned calls) :
    ∃ response, request p = .returned response ∧
      calls = ⟨if response.code > 0 then .gotIp else .connectFail, true, some response.code⟩ ::
        List.replicate probes.length ⟨.gotIp, true, none⟩ := by
  rw [run, status_first] at h
  obtain ⟨told, htold, hlater⟩ := Outcome.bind_eq_returned_iff.1 h
  obtain ⟨response, hresponse, heq⟩ := Outcome.bind_eq_returned_iff.1 htold
  cases heq
  rw [run_running, Outcome.bind_returned, Outcome.returned.injEq] at hlater
  exact ⟨response, hresponse, hlater.symm⟩

theorem lastProbe_replicate (told : Told) (n : Nat) :
    lastProbe (told :: List.replicate n ⟨.gotIp, true, none⟩) = told.probe := by
  unfold lastProbe
  rw [List.reverse_cons, List.reverse_replicate, List.findSome?_append, List.findSome?_replicate]
  cases hprobe : told.probe <;> simp [hprobe]

/-- Behind a first call that tells what its probe says, what is told later is true only if the probe has succeeded. -/
theorem truthful_replicate_iff {first : Told} {code : Int} (hprobe : first.probe = some code)
    (hstatus : first.status = .gotIp → 0 < code) (n : Nat) :
    Truthful (first :: List.replicate n ⟨.gotIp, true, none⟩) ↔ n = 0 ∨ 0 < code := by
  constructor
  · intro h
    cases n with
    | zero => exact .inl rfl
    | succ n =>
      obtain ⟨code', hlast, hpositive⟩ := h [first] ⟨.gotIp, true, none⟩ (List.replicate n ⟨.gotIp, true, none⟩) rfl rfl
      have hlast' := lastProbe_replicate first 1
      rw [hprobe] at hlast'
      cases hlast.symm.trans hlast'
      exact .inr hpositive
  · intro h before call after hcalls hcall
    cases before with
    | nil =>
      rw [List.nil_append, List.cons.injEq] at hcalls
      obtain ⟨rfl, -⟩ := hcalls
      exact ⟨code, (lastProbe_replicate first 0).trans hprobe, hstatus hcall⟩
    | cons c before =>
      rw [List.cons_append, List.cons.injEq] at hcalls
      obtain ⟨rfl, hrest⟩ := hcalls
      -- the calls up to this one are the first and some of the same kind
      obtain ⟨hlength, hbefore, hafter⟩ := List.append_eq_replicate_iff.1 hrest.symm
      have hcall' : call = ⟨.gotIp, true, none⟩ :=
        List.eq_of_mem_replicate (hafter ▸ List.mem_cons_self)
      have hpast : before ++ [call] = List.replicate (before.length + 1) ⟨.gotIp, true, none⟩ := by
        rw [hcall', List.replicate_succ', ← hbefore]
      refine ⟨code, ?_, ?_⟩
      · rw [List.cons_append, hpast, lastProbe_replicate, hprobe]
      · rw [List.length_cons] at hlength
        exact h.resolve_left (by omega)

/-- The calls of a process tell the truth exactly if there is one at most, or the probe of the first one gets a positive
code. -/
theorem truthful_iff {probes : List Probe} {calls : List Told} (h : run false probes = .returned calls) :
    Truthful calls ↔
      probes.length ≤ 1 ∨ ∀ p ∈ probes.head?, ∃ response, request p = .returned response ∧ 0 < response.code := by
  cases probes with
  | nil =>
    cases h
    apply iff_of_true
    · intro before call after hcalls
      exact absurd hcalls.symm (List.append_ne_nil_of_right_ne_nil _ (List.cons_ne_nil _ _))
    · exact .inl (Nat.zero_le 1)
  | cons p probes =>
    obtain ⟨response, hresponse, rfl⟩ := run_cons_returned h
    have hstatus : (if response.code > 0 then StationStatus.gotIp else .connectFail) = .gotIp → 0 < response.code := by
      intro hgot
      by_contra hnot
      rw [if_neg hnot] at hgot
      cases hgot
    rw [truthful_replicate_iff rfl hstatus]
    have hone : (p :: probes).length ≤ 1 ↔ probes.length = 0 := by
      rw [List.length_cons]
      omega
    rw [hone]
    refine or_congr_right ?_
    constructor
    · intro hpositive q hq
      cases hq
      exact ⟨response, hresponse, hpositive⟩
    · intro hfirst
      obtain ⟨response', hresponse', hpositive⟩ := hfirst p rfl
      cases hresponse.symm.trans hresponse'
      exact hpositive

/-- The answers to a host without a network. -/
def offline : Probe where
  answers := { HTTPClient.impersonated with gethostbyname := fun _ => false }
  recvs := []

theorem request_offline : request offline = ioError := by decide

/-- The answers of the host. -/
def online : Probe where
  answers := HTTPClient.impersonated
  recvs := [.data ⟨ascii "HTTP/1.1 200 OK\r\n\r\n", by decide⟩, .eof]

theorem request_online : request online = .returned (.ofCode 200) := by decide +kernel

/-- A first call, and others whose probes nothing asks for. -/
theorem run_first {p : Probe} {response : Response} (h : request p = .returned response) (probes : List Probe) :
    run false (p :: probes) = .returned (⟨if response.code > 0 then .gotIp else .connectFail, true, some response.code⟩ ::
      List.replicate probes.length ⟨.gotIp, true, none⟩) := by
  rw [run, status_first, h, Outcome.bind_returned, Outcome.bind_returned, run_running]
  rfl

theorem truthful_online : Truthful [⟨.gotIp, true, some 200⟩, ⟨.gotIp, true, none⟩, ⟨.gotIp, true, none⟩] := by
  refine (truthful_iff (run_first request_online [offline, offline])).2 (.inr fun p hp => ?_)
  cases hp
  exact ⟨_, request_online, by decide⟩

/-- Without a network the second call tells that there is an address. -/
theorem untruthful_twice :
    run false [offline, offline] = .returned [⟨.connectFail, true, some 0⟩, ⟨.gotIp, true, none⟩] ∧
      ¬ Truthful [⟨.connectFail, true, some 0⟩, ⟨.gotIp, true, none⟩] := by
  refine ⟨run_first request_offline [offline], fun h => ?_⟩
  obtain ⟨code, hlast, hpositive⟩ := h [⟨.connectFail, true, some 0⟩] ⟨.gotIp, true, none⟩ [] rfl rfl
  cases hlast
  omega

end IopHal.Wifi
