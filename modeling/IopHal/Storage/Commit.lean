import IopHal.Storage

/-!
# Commits and reboots

`Storage::commit` of the Linux build truncates `eeprom.dat` and writes it anew.  A process is a run of calls and commits
(`runSteps`); the next process begins with what the file holds then, and loads it without a fault (`faultless`).

* `commit_survives`: what a successful commit wrote is what the next process sees.
* `failed_commit`: behind a commit that fails, or that the process does not survive, the next process sees the old
  contents if no commit since has opened the file.  Otherwise it sees those of the last commit that has, as far as they
  got and zeros from there on, and its `setup` says so unless they are complete.
-/

namespace IopHal

open Patch

/-- How a commit fails, or where in it the process is killed.  `kept` bytes are in the file then. -/
inductive CommitFailure
  | cannotOpen
  | writeFails (kept : Nat)
  | closeFails (kept : Nat)
  | killedBefore
  | killedWithin (kept : Nat)

/-- How much of the new contents is in the file; nothing if the file was not opened. -/
def CommitFailure.kept : CommitFailure → Option Nat
  | cannotOpen => none
  | writeFails kept => some kept
  | closeFails kept => some kept
  | killedBefore => none
  | killedWithin kept => some kept

/-- How a call of `commit` ends, and what `eeprom.dat` holds then. -/
def Storage.commit (failure : Option CommitFailure) (s : Storage) (file : Option Bytes) :
    Outcome Bool × Option Bytes :=
  match s.buffer with
  | none => (.panicked (ascii "Unable to allocate storage"), file)
  | some mem =>
    if mem.length < s.size.toNat then (.undefined, file)
    else
      let new := mem.take s.size.toNat
      match failure with
      | none => (.returned true, some new)
      | some .cannotOpen => (.returned false, file)
      | some (.writeFails kept) => (.returned false, some (new.take kept))
      | some (.closeFails kept) => (.returned false, some (new.take kept))
      | some .killedBefore => (.waiting, file)
      | some (.killedWithin kept) => (.waiting, some (new.take kept))

/-- A process that uses the storage, and the file. -/
structure StorageProcess where
  storage : Storage
  file : Option Bytes

inductive StorageStep
  | call (c : StorageCall)
  | commit (failure : Option CommitFailure)

def StorageStep.run (p : StorageProcess) : StorageStep → Outcome StorageProcess
  | call c => (c.run p.storage).bind fun done => .returned ⟨done.2, p.file⟩
  | commit failure =>
    (p.storage.commit failure p.file).1.bind fun _ => .returned ⟨p.storage, (p.storage.commit failure p.file).2⟩

def runSteps (p : StorageProcess) : List StorageStep → Outcome StorageProcess
  | [] => .returned p
  | call :: calls => (call.run p).bind fun q => runSteps q calls

/-- How much of the memory's `n` bytes a step puts into the file; nothing if it does not open it. -/
def StorageStep.reaches (n : Nat) : StorageStep → Option Nat
  | call _ => none
  | commit none => some n
  | commit (some failure) => failure.kept

/-- The last of the steps that opened the file has found the memory of `u`, and put `kept` bytes of it into the file. -/
def LastOpened (n : Nat) (p : StorageProcess) (steps : List StorageStep) (u : StorageProcess) (kept : Nat) : Prop :=
  ∃ earlier step later, steps = earlier ++ step :: later ∧ runSteps p earlier = .returned u ∧
    step.reaches n = some kept ∧ ∀ step ∈ later, step.reaches n = none

/-- A `setup` that gets its memory and reads the file to its end. -/
def faultless (file : Option Bytes) : SetupAnswers := ⟨true, file, true⟩

/-! ### What a fresh process loads -/

/-- What a buffer of `n` zero bytes holds behind the load of a file. -/
def padded (n : Nat) (content : Bytes) : Bytes := content.take n ++ List.replicate (n - content.length) NUL

theorem length_padded (n : Nat) (content : Bytes) : (padded n content).length = n := by
  rw [padded, List.length_append, List.length_take, List.length_replicate]
  omega

/-- A part of contents of the full length, and zeros behind it. -/
theorem getElem?_padded_take {n kept i : Nat} {new : Bytes} (hnew : new.length = n) (hi : i < n) :
    (padded n (new.take kept))[i]? = if i < kept then new[i]? else some NUL := by
  have htake : ((new.take kept).take n).length = min kept n := by
    rw [List.length_take, List.length_take]
    omega
  unfold padded
  by_cases hkept : i < kept
  · rw [if_pos hkept, List.getElem?_append_left (by omega), List.getElem?_take_of_lt hi, List.getElem?_take_of_lt hkept]
  · rw [if_neg hkept, List.getElem?_append_right (by omega), htake, List.getElem?_replicate, if_pos]
    rw [List.length_take]
    omega

theorem setup_faultless {n : UInt64} (hn : n ≠ 0) (hmax : n.toNat < 2 ^ 63) (content : Bytes) :
    Storage.setup (faultless (some content)) .fresh n =
      .returned (decide (n.toNat ≤ content.length), ⟨n, some (padded n.toNat content)⟩) := by
  have hextracted : Storage.extracted content n = content.take n.toNat := if_pos hmax
  have hpatch : patch (List.replicate n.toNat NUL) 0 (content.take n.toNat) = padded n.toNat content := by
    rw [patch_zero, List.drop_replicate, List.length_take, padded]
    congr 2
    omega
  have hfits : ¬ n.toNat < (content.take n.toNat).length := by
    rw [List.length_take]
    omega
  unfold Storage.setup
  rw [if_neg hn]
  simp only [Storage.fresh, faultless, hmax, and_self, if_true, Storage.load, hextracted, List.length_replicate, hfits,
    if_false, hpatch]
  by_cases hlength : n.toNat ≤ content.length
  · rw [if_neg (by rw [List.length_take]; omega), decide_eq_true hlength]
  · rw [if_pos (by rw [List.length_take]; omega), decide_eq_false hlength]

/-! ### Processes -/

/-- What the calls of a process leave as it is. -/
structure Kept (s t : Storage) : Prop where
  sound : t.Sound
  allocated : t.buffer.isSome = s.buffer.isSome
  length : t.bytes.length = s.bytes.length

section Process

variable {p q : StorageProcess}

theorem StorageCall.kept {s t : Storage} (hs : s.Sound) {c : StorageCall} {result : StorageResult}
    (h : c.run s = .returned (result, t)) : Kept s t := by
  obtain ⟨result', t', h', hspec⟩ := c.run_spec hs
  rw [h, Outcome.returned.injEq, Prod.mk.injEq] at h'
  obtain ⟨rfl, rfl⟩ := h'
  refine ⟨hspec.sound, hspec.allocated, ?_⟩
  rw [hspec.bytes, length_replay hspec.inside]

theorem StorageStep.kept (hp : p.storage.Sound) {step : StorageStep} (h : step.run p = .returned q) :
    Kept p.storage q.storage := by
  cases step with
  | call c =>
    obtain ⟨done, hdone, hq⟩ := Outcome.bind_eq_returned_iff.1 h
    cases hq
    exact StorageCall.kept hp hdone
  | commit failure =>
    obtain ⟨ok, hok, hq⟩ := Outcome.bind_eq_returned_iff.1 h
    cases hq
    exact ⟨hp, rfl, rfl⟩

theorem runSteps_kept (hp : p.storage.Sound) {steps : List StorageStep} (h : runSteps p steps = .returned q) :
    Kept p.storage q.storage := by
  induction steps generalizing p with
  | nil =>
    cases h
    exact ⟨hp, rfl, rfl⟩
  | cons step steps ih =>
    obtain ⟨u, hu, hq⟩ := Outcome.bind_eq_returned_iff.1 h
    have hfirst := StorageStep.kept hp hu
    have hrest := ih hfirst.sound hq
    exact ⟨hrest.sound, hrest.allocated.trans hfirst.allocated, hrest.length.trans hfirst.length⟩

/-- Only commits touch the file. -/
theorem runSteps_file {calls : List StorageCall} (h : runSteps p (calls.map .call) = .returned q) : q.file = p.file := by
  induction calls generalizing p with
  | nil =>
    cases h
    rfl
  | cons c calls ih =>
    obtain ⟨u, hu, hq⟩ := Outcome.bind_eq_returned_iff.1 h
    obtain ⟨done, -, hu⟩ := Outcome.bind_eq_returned_iff.1 hu
    cases hu
    have hfile := ih hq
    exact hfile

end Process

/-! ### Commits -/

section Commit

variable {s : Storage} {file : Option Bytes}

theorem commit_cases (hs : s.Sound) (hbuffer : s.buffer.isSome) :
    (s.commit none file).2 = some s.bytes ∧
      ∀ f : CommitFailure, (s.commit (some f) file).2 = f.kept.elim file fun kept => some (s.bytes.take kept) := by
  obtain ⟨mem, hmem⟩ := Option.isSome_iff_exists.1 hbuffer
  have hbytes : s.bytes = mem := by rw [Storage.bytes, hmem]; rfl
  have hsize : s.size.toNat = mem.length := by rw [← hbytes]; exact hs
  unfold Storage.commit
  rw [hmem, hbytes]
  simp only [hsize, lt_irrefl, if_false, List.take_length, true_and]
  intro f
  cases f <;> rfl

/-- A commit that comes back with `true` has written everything. -/
theorem commit_true {failure : Option CommitFailure} (h : (s.commit failure file).1 = .returned true) :
    failure = none ∧ s.buffer.isSome := by
  unfold Storage.commit at h
  cases hbuffer : s.buffer with
  | none =>
    rw [hbuffer] at h
    cases h
  | some mem =>
    rw [hbuffer] at h
    dsimp only at h
    refine ⟨?_, rfl⟩
    split at h
    · cases h
    · cases failure with
      | none => rfl
      | some f => cases f <;> cases h

/-- What a fresh process sees of a full file. -/
theorem setup_full {n : UInt64} (hn : n ≠ 0) (hmax : n.toNat < 2 ^ 63) (hs : s.Sound) (hlength : s.bytes.length = n.toNat) :
    ∃ t, Storage.setup (faultless (some s.bytes)) .fresh n = .returned (true, t) ∧
      ∀ address, t.get address = s.get address := by
  have hfull : padded n.toNat s.bytes = s.bytes := by
    rw [padded, ← hlength, List.take_length, Nat.sub_self]
    exact List.append_nil _
  have hsound : Storage.Sound ⟨n, some s.bytes⟩ := hlength.symm
  refine ⟨⟨n, some s.bytes⟩, ?_, ?_⟩
  · rw [setup_faultless hn hmax, hfull, decide_eq_true hlength.ge]
  · intro address
    rw [Storage.get_eq hsound, Storage.get_eq hs]
    rfl

end Commit

/-- The first `setup` of a process, calls and commits of any result, and a commit that came back with `true`. -/
structure Committed (n : UInt64) (p : StorageProcess) : Prop where
  nonzero : n ≠ 0
  allocated : n.toNat < 2 ^ 63
  sound : p.storage.Sound
  buffer : p.storage.buffer.isSome
  length : p.storage.bytes.length = n.toNat

section Runs

variable {answers : SetupAnswers} {n : UInt64} {ok : Bool} {s : Storage} {prior : Option Bytes}
  {before : List StorageStep} {p q : StorageProcess} {after : List StorageCall}

theorem committed_of_run (hsetup : Storage.setup answers .fresh n = .returned (ok, s))
    (hbefore : runSteps ⟨s, prior⟩ before = .returned p)
    (hcommit : (p.storage.commit none p.file).1 = .returned true) : Committed n p := by
  obtain ⟨hsound, hsize⟩ := Storage.setup_spec hsetup
  have hkept := runSteps_kept hsound hbefore
  obtain ⟨-, hbuffer⟩ := commit_true hcommit
  rcases hsize with ⟨hlength, hmax⟩ | rfl
  · refine ⟨?_, hmax, hkept.sound, hbuffer, hkept.length.trans hlength⟩
    rintro rfl
    cases hsetup
  · -- without memory there is no buffer to commit
    rw [hkept.allocated] at hbuffer
    cases hbuffer

theorem Committed.of_kept (h : Committed n p) (hkept : Kept p.storage q.storage) : Committed n q := by
  refine ⟨h.nonzero, h.allocated, hkept.sound, ?_, hkept.length.trans h.length⟩
  rw [hkept.allocated]
  exact h.buffer

/-- A step puts into the file what it reaches, and else leaves the file alone. -/
theorem Committed.step_file (h : Committed n p) {step : StorageStep} (hstep : step.run p = .returned q) :
    q.file = (step.reaches n.toNat).elim p.file fun kept => some (p.storage.bytes.take kept) := by
  cases step with
  | call c =>
    obtain ⟨done, -, hq⟩ := Outcome.bind_eq_returned_iff.1 hstep
    cases hq
    rfl
  | commit failure =>
    obtain ⟨ok, -, hq⟩ := Outcome.bind_eq_returned_iff.1 hstep
    cases hq
    obtain ⟨hnone, hsome⟩ : (p.storage.commit none p.file).2 = some p.storage.bytes ∧ _ :=
      commit_cases h.sound h.buffer
    cases failure with
    | none =>
      show (p.storage.commit none p.file).2 = some (p.storage.bytes.take n.toNat)
      rw [hnone, ← h.length, List.take_length]
    | some f => exact hsome f

/-- What is in the file behind some steps: what was there before them, or what the last one that opened it has left. -/
theorem Committed.steps_file (h : Committed n p) {steps : List StorageStep} (hsteps : runSteps p steps = .returned q) :
    ((∀ step ∈ steps, step.reaches n.toNat = none) ∧ q.file = p.file) ∨
      ∃ u kept, LastOpened n.toNat p steps u kept ∧ q.file = some (u.storage.bytes.take kept) := by
  induction steps generalizing p with
  | nil =>
    cases hsteps
    exact Or.inl ⟨fun step hstep => absurd hstep List.not_mem_nil, rfl⟩
  | cons step steps ih =>
    obtain ⟨v, hv, hq⟩ := Outcome.bind_eq_returned_iff.1 hsteps
    have hfirst := h.step_file hv
    rcases ih (h.of_kept (StorageStep.kept h.sound hv)) hq with ⟨hnone, hfile⟩ | ⟨u, kept, hlast, hfile⟩
    · cases hreaches : step.reaches n.toNat with
      | none =>
        rw [hreaches] at hfirst
        exact Or.inl ⟨List.forall_mem_cons.2 ⟨hreaches, hnone⟩, hfile.trans hfirst⟩
      | some kept =>
        rw [hreaches] at hfirst
        exact Or.inr ⟨p, kept, ⟨[], step, steps, rfl, rfl, hreaches, hnone⟩, hfile.trans hfirst⟩
    · obtain ⟨earlier, last, later, rfl, hu, hreaches, hnone⟩ := hlast
      refine Or.inr ⟨u, kept, ⟨step :: earlier, last, later, rfl, ?_, hreaches, hnone⟩, hfile⟩
      rw [runSteps, hv]
      exact hu

theorem LastOpened.committed (h : Committed n p) {steps : List StorageStep} {u : StorageProcess} {kept : Nat}
    (hlast : LastOpened n.toNat p steps u kept) : Committed n u := by
  obtain ⟨earlier, step, later, -, hu, -⟩ := hlast
  exact h.of_kept (runSteps_kept h.sound hu)

/-- What a fresh process sees of a part of the contents. -/
theorem Committed.setup_part (h : Committed n p) (kept : Nat) :
    ∃ complete t, Storage.setup (faultless (some (p.storage.bytes.take kept))) .fresh n = .returned (complete, t) ∧
      (∀ address < n, t.get address =
        if address.toNat < kept then p.storage.get address else .returned (some NUL)) ∧
      (complete = true → ∀ address < n, t.get address = p.storage.get address) := by
  have hsound : Storage.Sound ⟨n, some (padded n.toNat (p.storage.bytes.take kept))⟩ := (length_padded _ _).symm
  have hget : ∀ address < n,
      (⟨n, some (padded n.toNat (p.storage.bytes.take kept))⟩ : Storage).get address =
        if address.toNat < kept then p.storage.get address else .returned (some NUL) := by
    intro address haddress
    have hpadded : (⟨n, some (padded n.toNat (p.storage.bytes.take kept))⟩ : Storage).bytes[address.toNat]? = _ :=
      getElem?_padded_take h.length (UInt64.lt_iff_toNat_lt.1 haddress)
    rw [Storage.get_eq hsound, Storage.get_eq h.sound, hpadded]
    split <;> rfl
  refine ⟨_, _, setup_faultless h.nonzero h.allocated _, hget, ?_⟩
  intro hcomplete address haddress
  have hlength := of_decide_eq_true hcomplete
  rw [List.length_take] at hlength
  have haddress' := UInt64.lt_iff_toNat_lt.1 haddress
  rw [hget address haddress, if_pos]
  omega

theorem Committed.get_isSome (h : Committed n p) {address : UInt64} (ha : address < n) :
    ∃ b, p.storage.get address = .returned (some b) := by
  have hin : address.toNat < p.storage.bytes.length := by
    rw [h.length]
    exact UInt64.lt_iff_toNat_lt.1 ha
  exact ⟨p.storage.bytes[address.toNat], by rw [Storage.get_eq h.sound, List.getElem?_eq_getElem hin]⟩

/-- What was there at the moment of a successful commit is what the next process finds, whatever else was set or written
between that commit and the end of this one. -/
theorem commit_survives (hsetup : Storage.setup answers .fresh n = .returned (ok, s))
    (hbefore : runSteps ⟨s, prior⟩ before = .returned p) {failure : Option CommitFailure}
    (hcommit : (p.storage.commit failure p.file).1 = .returned true)
    (hafter : runSteps ⟨p.storage, (p.storage.commit failure p.file).2⟩ (after.map .call) = .returned q) :
    ∃ t, Storage.setup (faultless q.file) .fresh n = .returned (true, t) ∧
      ∀ address < n, ∃ b, p.storage.get address = .returned (some b) ∧ t.get address = .returned (some b) := by
  obtain ⟨rfl, -⟩ := commit_true hcommit
  have hp := committed_of_run hsetup hbefore hcommit
  have hfile := runSteps_file hafter
  obtain ⟨t, ht, hget⟩ := setup_full hp.nonzero hp.allocated hp.sound hp.length
  refine ⟨t, ?_, ?_⟩
  · rw [hfile, (commit_cases hp.sound hp.buffer).1]
    exact ht
  · intro address haddress
    obtain ⟨b, hb⟩ := hp.get_isSome haddress
    exact ⟨b, hb, (hget address).trans hb⟩

/-- A commit that fails, or that the process does not survive, behind a successful one and any calls and commits since.
The next process sees the old contents if no commit since has opened the file.  Otherwise it sees those of the last commit
that has, as far as they were written and zeros from there on, and its `setup` returns `true` only if they are complete. -/
theorem failed_commit (hsetup : Storage.setup answers .fresh n = .returned (ok, s))
    (hbefore : runSteps ⟨s, prior⟩ before = .returned p)
    (hcommit : (p.storage.commit none p.file).1 = .returned true) {since : List StorageStep}
    (hsince : runSteps ⟨p.storage, (p.storage.commit none p.file).2⟩ since = .returned q) (failure : CommitFailure) :
    ∃ complete t,
      Storage.setup (faultless (q.storage.commit (some failure) q.file).2) .fresh n = .returned (complete, t) ∧
        ((∀ step ∈ since ++ [.commit (some failure)], step.reaches n.toNat = none) ∧ complete = true ∧
            (∀ address < n, t.get address = p.storage.get address) ∨
          ∃ u kept, LastOpened n.toNat ⟨p.storage, (p.storage.commit none p.file).2⟩
              (since ++ [.commit (some failure)]) u kept ∧
            (∀ address < n, t.get address =
              if address.toNat < kept then u.storage.get address else .returned (some NUL)) ∧
            (complete = true → ∀ address < n, t.get address = u.storage.get address)) := by
  have hp := committed_of_run hsetup hbefore hcommit
  have hstart : Committed n ⟨p.storage, (p.storage.commit none p.file).2⟩ :=
    hp.of_kept ⟨hp.sound, rfl, rfl⟩
  have hq := hstart.of_kept (runSteps_kept hstart.sound hsince)
  rw [(commit_cases hq.sound hq.buffer).2]
  cases hkept : failure.kept with
  | some kept =>
    -- the last commit is the one that has opened the file
    obtain ⟨complete, t, ht, hget, hcomplete⟩ := hq.setup_part kept
    exact ⟨complete, t, ht, Or.inr ⟨q, kept, ⟨since, _, [], rfl, hsince, hkept, fun step hstep => nomatch hstep⟩,
      hget, hcomplete⟩⟩
  | none =>
    have hlast : ∀ step ∈ [StorageStep.commit (some failure)], step.reaches n.toNat = none := by
      intro step hstep
      rw [List.mem_singleton.1 hstep]
      exact hkept
    rcases hstart.steps_file hsince with ⟨hnone, hfile⟩ | ⟨u, kept, hopened, hfile⟩
    · obtain ⟨t, ht, hget⟩ := setup_full hp.nonzero hp.allocated hp.sound hp.length
      rw [(commit_cases hp.sound hp.buffer).1] at hfile
      refine ⟨true, t, by rw [hfile]; exact ht, Or.inl ⟨?_, rfl, fun address _ => hget address⟩⟩
      exact List.forall_mem_append.2 ⟨hnone, hlast⟩
    · have hu := LastOpened.committed hstart hopened
      obtain ⟨complete, t, ht, hget, hcomplete⟩ := hu.setup_part kept
      refine ⟨complete, t, by rw [hfile]; exact ht, Or.inr ⟨u, kept, ?_, hget, hcomplete⟩⟩
      obtain ⟨earlier, step, later, rfl, hrun, hreaches, hnone⟩ := hopened
      refine ⟨earlier, step, later ++ [.commit (some failure)], ?_, hrun, hreaches, ?_⟩
      · rw [List.append_assoc, List.cons_append]
      · exact List.forall_mem_append.2 ⟨hnone, hlast⟩

end Runs

/-! ### A storage of two bytes -/

/-- The process that has stored and committed 1 and 2. -/
def twoBytes : StorageProcess := ⟨⟨2, some [1, 2]⟩, some [9]⟩

/-- The same process when it has gone on to store 3 and 4. -/
def twoBytesLater : StorageProcess := ⟨⟨2, some [3, 4]⟩, some [1, 2]⟩

theorem twoBytes_setup : Storage.setup ⟨true, some [9], true⟩ .fresh 2 = .returned (false, ⟨2, some [9, 0]⟩) := rfl

theorem twoBytes_before :
    runSteps ⟨⟨2, some [9, 0]⟩, some [9]⟩ [.call (.set 0 1), .call (.set 1 2)] = .returned twoBytes := rfl

theorem twoBytes_commit : (twoBytes.storage.commit none twoBytes.file).1 = .returned true := rfl

theorem twoBytes_after :
    runSteps ⟨twoBytes.storage, (twoBytes.storage.commit none twoBytes.file).2⟩
      ([.set 0 3, .set 1 4].map .call) = .returned twoBytesLater := rfl

theorem commit_survives_two :
    ∃ t, Storage.setup (faultless twoBytesLater.file) .fresh 2 = .returned (true, t) ∧
      ∀ address < 2, ∃ b, twoBytes.storage.get address = .returned (some b) ∧ t.get address = .returned (some b) :=
  commit_survives twoBytes_setup twoBytes_before twoBytes_commit twoBytes_after

/-- The same process behind a commit for which the disk was full after one byte. -/
def twoBytesTorn : StorageProcess := ⟨⟨2, some [3, 4]⟩, some [3]⟩

/-- A second commit cannot open the file.  What the first one has left is what there is. -/
theorem failed_commit_two :
    ∃ complete t,
      Storage.setup (faultless (twoBytesTorn.storage.commit (some .cannotOpen) twoBytesTorn.file).2) .fresh 2 =
          .returned (complete, t) ∧
        ∃ u kept, LastOpened 2 ⟨twoBytes.storage, some [1, 2]⟩
            [.call (.set 0 3), .call (.set 1 4), .commit (some (.writeFails 1)), .commit (some .cannotOpen)] u kept ∧
          ∀ address < 2, t.get address =
            if address.toNat < kept then u.storage.get address else .returned (some NUL) := by
  have hsince : runSteps ⟨twoBytes.storage, (twoBytes.storage.commit none twoBytes.file).2⟩
      [.call (.set 0 3), .call (.set 1 4), .commit (some (.writeFails 1))] = .returned twoBytesTorn := rfl
  obtain ⟨complete, t, hsetup, ⟨hnone, -, -⟩ | ⟨u, kept, hlast, hget, -⟩⟩ :=
    failed_commit twoBytes_setup twoBytes_before twoBytes_commit hsince .cannotOpen
  · have hopened := hnone (.commit (some (.writeFails 1))) (by simp)
    cases hopened
  · exact ⟨complete, t, hsetup, u, kept, hlast, hget⟩

/-- Behind a successful commit of 1 and 2, a commit of 3 and 4 fails.  What is left is neither of the two. -/
theorem commit_torn :
    ∃ t, runSteps ⟨⟨2, some [9, 0]⟩, some [9]⟩ [.call (.set 0 1), .call (.set 1 2)] = .returned twoBytes ∧
      (twoBytes.storage.commit none twoBytes.file).1 = .returned true ∧
      runSteps ⟨twoBytes.storage, (twoBytes.storage.commit none twoBytes.file).2⟩
          ([.set 0 3, .set 1 4].map .call) = .returned twoBytesLater ∧
      Storage.setup (faultless (twoBytesLater.storage.commit (some (.writeFails 1)) twoBytesLater.file).2) .fresh 2 =
          .returned (false, t) ∧
      t.get 0 ≠ twoBytes.storage.get 0 ∧ t.get 1 ≠ twoBytesLater.storage.get 1 :=
  ⟨⟨2, some [3, 0]⟩, twoBytes_before, twoBytes_commit, twoBytes_after, rfl, by decide, by decide⟩

end IopHal
