import IopHal.Library.Saves
import IopHal.Library.Transitions
import IopHal.Storage.Setup

/-!
# The storage over many processes

One process after another uses `eeprom.dat`: each sets the storage up, with a size of its own and possibly more than once, makes
calls and commits, and ends somewhere, perhaps in the middle of a commit.  `Lives.step` goes on with the next process.  Over
all of it the storage is a memory that is saved and loaded (`Saves`): `lives_of_run` says what each call sees,
`given_of_run` that every byte was stored at its address by some call, and `durable_of_run` how long a commit lasts.
-/

namespace IopHal.Lives

open Patch Saves Transitions

/-- How a call of `setup` fares: whether it gets memory, whether the file opens, how much of it can be read, and whether it
closes. -/
structure Loading where
  allocates : Bool
  opens : Bool
  readable : Nat
  closes : Bool

def Loading.answers (l : Loading) (file : Option Bytes) : SetupAnswers where
  allocates := l.allocates
  delivers := if l.opens then file.map fun content => content.take l.readable else none
  closes := l.closes

/-- The storage of the process that is there, the file, and what has happened to both since the first process. -/
structure State where
  storage : Storage
  file : Option Bytes
  log : List (Saves.Event UInt8)

inductive Action
  | setup (loading : Loading) (size : UInt64)
  | call (c : StorageCall)
  | commit (failure : Option CommitFailure)
  | reboot

def start (file : Option Bytes) : State := ⟨.fresh, file, []⟩

/-- The next process. -/
def reboot (file : Option Bytes) (log : List (Saves.Event UInt8)) : State := ⟨.fresh, file, .cleared 0 :: log⟩

/-! ### What is logged -/

def loadEvents (answers : SetupAnswers) (size : UInt64) : List (Saves.Event UInt8) :=
  match answers.delivers with
  | none => []
  | some content => [.loaded (Storage.extracted content size).length]

def setupEvents (answers : SetupAnswers) (s : Storage) (size : UInt64) : List (Saves.Event UInt8) :=
  if s.buffer.isSome then loadEvents answers size
  else if answers.allocates ∧ size.toNat < 2 ^ 63 then loadEvents answers size ++ [.cleared size.toNat]
  else []

def callEvents (c : StorageCall) (result : StorageResult) : List (Saves.Event UInt8) :=
  (stored (c, result)).toList.map fun write => .written write.1 write.2

/-- A commit that opens the file saves what it gets to write. -/
def commitEvents (failure : Option CommitFailure) (s : Storage) : List (Saves.Event UInt8) :=
  match failure with
  | none => [.saved s.bytes.length]
  | some f => f.kept.toList.map .saved

/-- A process that panics, or is killed within a commit, is followed by the next one.  There is no step behind undefined
behaviour. -/
def step (s : State) : Action → Option State
  | .setup loading size =>
    match s.storage.setup (loading.answers s.file) size with
    | .returned (_, t) => some ⟨t, s.file, setupEvents (loading.answers s.file) s.storage size ++ s.log⟩
    | .panicked _ => some (reboot s.file s.log)
    | _ => none
  | .call c =>
    match c.run s.storage with
    | .returned (result, t) => some ⟨t, s.file, callEvents c result ++ s.log⟩
    | _ => none
  | .commit failure =>
    match s.storage.commit failure s.file with
    | (.returned _, file) => some ⟨s.storage, file, commitEvents failure s.storage ++ s.log⟩
    | (.waiting, file) => some (reboot file (commitEvents failure s.storage ++ s.log))
    | (.panicked _, file) => some (reboot file s.log)
    | _ => none
  | .reboot => some (reboot s.file s.log)

/-! ### The storage is its cells -/

/-- What the log says of both memories. -/
def State.cells (s : State) (file : Option Bytes) : Cells UInt8 := .ofLog NUL (file.getD []) s.log

structure Refines (file : Option Bytes) (s : State) : Prop where
  sound : s.storage.Sound
  cells : Represents (s.cells file) s.storage.bytes (s.file.getD [])

section Step

variable {file : Option Bytes} {s t : State}

theorem refines_start (file : Option Bytes) : Refines file (start file) :=
  ⟨rfl, fun _ => rfl, fun _ => rfl⟩

theorem refines_reboot {log : List (Saves.Event UInt8)} {mem : Bytes} {content : Option Bytes}
    (h : Represents (Cells.ofLog NUL (file.getD []) log) mem (content.getD [])) : Refines file (reboot content log) :=
  ⟨rfl, h.cleared 0⟩

/-- What a load leaves of the cells. -/
theorem represents_load {loading : Loading} {content : Option Bytes} {storage u : Storage} {mem : Bytes} {size : UInt64}
    {ok : Bool} {log : List (Saves.Event UInt8)}
    (hcells : Represents (Cells.ofLog NUL (file.getD []) log) mem (content.getD []))
    (h : Storage.load (loading.answers content) storage mem size = .returned (ok, u)) :
    Represents (Cells.ofLog NUL (file.getD []) (loadEvents (loading.answers content) size ++ log)) u.bytes (content.getD []) := by
  unfold Storage.load at h
  unfold loadEvents
  cases hdelivers : (loading.answers content).delivers with
  | none =>
    rw [hdelivers] at h
    cases h
    exact hcells
  | some got =>
    obtain ⟨whole, rfl, rfl⟩ : ∃ whole, content = some whole ∧ whole.take loading.readable = got := by
      unfold Loading.answers at hdelivers
      dsimp only at hdelivers
      split at hdelivers
      · exact Option.map_eq_some_iff.1 hdelivers
      · cases hdelivers
    rw [hdelivers] at h
    dsimp only at h
    obtain ⟨count, hcount⟩ : ∃ count, Storage.extracted (whole.take loading.readable) size = whole.take count := by
      unfold Storage.extracted
      split
      · exact ⟨min size.toNat loading.readable, List.take_take⟩
      · exact ⟨0, rfl⟩
    split at h
    · cases h
    · rename_i hfits
      have hbytes : u.bytes = patch mem 0 (Storage.extracted (whole.take loading.readable) size) := by
        split at h <;> (cases h; rfl)
      have htaken : whole.take (Storage.extracted (whole.take loading.readable) size).length =
          Storage.extracted (whole.take loading.readable) size := by
        rw [hcount, List.length_take, List.take_eq_take_iff, Nat.min_assoc, Nat.min_self]
      have hwhole : (Storage.extracted (whole.take loading.readable) size).length ≤ whole.length := by
        rw [hcount, List.length_take]
        exact Nat.min_le_right _ _
      have hloaded := hcells.loads (z := NUL) (Nat.le_of_not_lt hfits) hwhole
      rw [Option.getD_some, htaken] at hloaded
      rw [hbytes]
      exact hloaded

theorem refines_setup (h : Refines file s) {loading : Loading} {size : UInt64} {ok : Bool} {u : Storage}
    (hsetup : s.storage.setup (loading.answers s.file) size = .returned (ok, u)) :
    Refines file ⟨u, s.file, setupEvents (loading.answers s.file) s.storage size ++ s.log⟩ := by
  refine ⟨Storage.setup_sound h.sound hsetup, ?_⟩
  unfold Storage.setup at hsetup
  split at hsetup
  · cases hsetup
  · show Represents (Cells.ofLog NUL (file.getD []) _) _ _
    unfold setupEvents
    split at hsetup
    · rename_i mem hmem
      have hbytes : s.storage.bytes = mem := by
        rw [Storage.bytes, hmem]
        rfl
      rw [if_pos (by rw [hmem]; rfl)]
      exact represents_load (hbytes ▸ h.cells) hsetup
    · rename_i hnone
      rw [if_neg (by rw [hnone]; exact Bool.false_ne_true)]
      split at hsetup
      · rename_i hallocates
        rw [if_pos hallocates, List.append_assoc]
        exact represents_load (h.cells.cleared size.toNat) hsetup
      · rename_i hallocates
        cases hsetup
        rw [if_neg hallocates]
        exact h.cells

theorem refines_call (h : Refines file s) {c : StorageCall} {result : StorageResult} {u : Storage}
    (hcall : c.run s.storage = .returned (result, u)) : Refines file ⟨u, s.file, callEvents c result ++ s.log⟩ := by
  obtain ⟨result', u', hrun, hspec⟩ := c.run_spec h.sound
  rw [hcall, Outcome.returned.injEq, Prod.mk.injEq] at hrun
  obtain ⟨rfl, rfl⟩ := hrun
  refine ⟨hspec.sound, ?_⟩
  show Represents (Cells.ofLog NUL (file.getD []) (callEvents c result ++ s.log)) u.bytes _
  rw [hspec.bytes]
  unfold callEvents
  cases hstored : stored (c, result) with
  | none => exact h.cells
  | some write =>
    have hfits := hspec.inside write (by rw [hstored]; exact List.mem_singleton_self _)
    exact h.cells.written (z := NUL) hfits

theorem refines_commit (h : Refines file s) (failure : Option CommitFailure) (hbuffer : s.storage.buffer.isSome) :
    Represents (Cells.ofLog NUL (file.getD []) (commitEvents failure s.storage ++ s.log)) s.storage.bytes
      ((s.storage.commit failure s.file).2.getD []) := by
  cases failure with
  | none =>
    rw [(commit_cases h.sound hbuffer).1, Option.getD_some]
    have hsaved := h.cells.saves (z := NUL) s.storage.bytes.length
    rwa [List.take_length] at hsaved
  | some f =>
    rw [(commit_cases h.sound hbuffer).2, commitEvents]
    cases f.kept with
    | none => exact h.cells
    | some kept => exact h.cells.saves (z := NUL) kept

/-- A commit panics only where there is no buffer. -/
theorem buffer_of_panicked {storage : Storage} {failure : Option CommitFailure} {content content' : Option Bytes} {message : Bytes}
    (h : storage.commit failure content = (.panicked message, content')) : storage.buffer = none := by
  unfold Storage.commit at h
  split at h
  · assumption
  · split at h
    · cases h
    · cases failure with
      | none => cases h
      | some f => cases f <;> cases h

theorem refines_step (h : Refines file s) {a : Action} (hstep : step s a = some t) : Refines file t := by
  cases a with
  | setup loading size =>
    rw [step] at hstep
    split at hstep
    · rename_i ok u hsetup
      rw [← Option.some.inj hstep]
      exact refines_setup h hsetup
    · rw [← Option.some.inj hstep]
      exact refines_reboot h.cells
    · cases hstep
  | call c =>
    rw [step] at hstep
    split at hstep
    · rename_i result u hcall
      rw [← Option.some.inj hstep]
      exact refines_call h hcall
    · cases hstep
  | commit failure =>
    rw [step] at hstep
    cases hbuffer : s.storage.buffer with
    | none =>
      -- without a buffer there is nothing to commit, and the process ends in a panic
      rw [Storage.commit, hbuffer] at hstep
      rw [← Option.some.inj hstep]
      exact refines_reboot h.cells
    | some mem =>
      have hcells := refines_commit h failure (by rw [hbuffer]; rfl)
      cases hcommit : s.storage.commit failure s.file with
      | mk o content =>
        rw [hcommit] at hstep hcells
        cases o with
        | returned ok =>
          rw [← Option.some.inj hstep]
          exact ⟨h.sound, hcells⟩
        | waiting =>
          rw [← Option.some.inj hstep]
          exact refines_reboot hcells
        | panicked message =>
          rw [buffer_of_panicked hcommit] at hbuffer
          cases hbuffer
        | terminated => cases hstep
        | undefined => cases hstep
  | reboot =>
    rw [← Option.some.inj hstep]
    exact refines_reboot h.cells

end Step

/-! ### Whole lives -/

section Runs

variable {file : Option Bytes} {s : State} {actions : List Action}

theorem refines_of_run (h : run step (start file) actions = some s) : Refines file s :=
  run_invariant (fun _ _ _ hs hstep => refines_step hs hstep) (refines_start file) h

/-- Over any number of processes, each call finds the storage to be the cells of the log, and the file is what they have
saved. -/
theorem lives_of_run (h : run step (start file) actions = some s) :
    (∀ i, (s.file.getD [])[i]? = (s.cells file).saved i) ∧
      (∀ address, s.storage.get address = .returned ((s.cells file).working address.toNat)) ∧
      ∀ c, ∃ result t, StorageCall.run s.storage c = .returned (result, t) ∧
        Permitted s.storage.bytes.length (s.cells file).working c result := by
  have hrefines := refines_of_run h
  have hworking : (s.cells file).working = fun i => s.storage.bytes[i]? := funext hrefines.cells.working
  refine ⟨fun i => (hrefines.cells.saved i).symm, fun address => ?_, fun c => ?_⟩
  · rw [Storage.get_eq hrefines.sound, hworking]
  · obtain ⟨result, t, hrun, hspec⟩ := c.run_spec hrefines.sound
    rw [hworking]
    exact ⟨result, t, hrun, hspec.permitted⟩

/-! ### Where a byte comes from -/

/-- The block that a call overwrites, if it succeeds. -/
def block : StorageCall → Option (Nat × Bytes)
  | .set address val => some (address.toNat, [val])
  | .write _ address array => some (address.toNat, array.toList)
  | _ => none

theorem block_of_stored {c : StorageCall} {result : StorageResult} {write : Nat × Bytes}
    (h : stored (c, result) = some write) : block c = some write := by
  cases c with
  | set address val =>
    cases result with
    | flag ok =>
      cases ok with
      | true => exact h
      | false => cases h
    | byte b => cases h
    | block array => cases h
  | write SIZE address array =>
    cases result with
    | flag ok =>
      cases ok with
      | true => exact h
      | false => cases h
    | byte b => cases h
    | block array => cases h
  | get address => cases h
  | read SIZE address => cases h

/-- The call stores this byte at this address. -/
def Stores (i : Nat) (b : UInt8) (c : StorageCall) : Prop :=
  ∃ write, block c = some write ∧ Covers write.1 write.2.length i ∧ write.2[i - write.1]? = some b

/-- What the log says was written was stored by one of these actions. -/
def Sourced (actions : List Action) (s : State) : Prop :=
  ∀ event ∈ s.log, ∀ i b, event.Writes i b → ∃ c, Action.call c ∈ actions ∧ Stores i b c

theorem sourced_of_events {s : State} {t : State} {events : List (Saves.Event UInt8)} (h : Sourced actions s)
    (hlog : t.log = events ++ s.log)
    (hevents : ∀ event ∈ events, ∀ i b, event.Writes i b → ∃ c, Action.call c ∈ actions ∧ Stores i b c) :
    Sourced actions t := by
  intro event hevent
  rw [hlog, List.mem_append] at hevent
  exact hevent.elim (hevents event) (h event)

theorem not_writes_setup {answers : SetupAnswers} {storage : Storage} {size : UInt64} {event : Saves.Event UInt8} {i : Nat}
    {b : UInt8} (hevent : event ∈ setupEvents answers storage size) : ¬ event.Writes i b := by
  have hload : ∀ event ∈ loadEvents answers size, ¬ event.Writes i b := by
    intro event hevent
    unfold loadEvents at hevent
    split at hevent
    · cases hevent
    · rw [List.mem_singleton.1 hevent]
      exact id
  unfold setupEvents at hevent
  split at hevent
  · exact hload event hevent
  · split at hevent
    · rw [List.mem_append, List.mem_singleton] at hevent
      rcases hevent with hevent | rfl
      · exact hload event hevent
      · exact id
    · cases hevent

theorem not_writes_commit {failure : Option CommitFailure} {storage : Storage} {event : Saves.Event UInt8} {i : Nat} {b : UInt8}
    (hevent : event ∈ commitEvents failure storage) : ¬ event.Writes i b := by
  unfold commitEvents at hevent
  split at hevent
  · rw [List.mem_singleton.1 hevent]
    exact id
  · obtain ⟨kept, -, rfl⟩ := List.mem_map.1 hevent
    exact id

theorem sourced_step {s t : State} {a : Action} (ha : a ∈ actions) (h : Sourced actions s) (hstep : step s a = some t) :
    Sourced actions t := by
  have hreboot : ∀ content log, (∀ event ∈ log, ∀ i b, event.Writes i b → ∃ c, Action.call c ∈ actions ∧ Stores i b c) →
      Sourced actions (reboot content log) := by
    intro content log hlog
    exact List.forall_mem_cons.2 ⟨fun i b hwrites => hwrites.elim, hlog⟩
  cases a with
  | setup loading size =>
    rw [step] at hstep
    split at hstep
    · rw [← Option.some.inj hstep]
      exact sourced_of_events h rfl fun event hevent i b hwrites => absurd hwrites (not_writes_setup hevent)
    · rw [← Option.some.inj hstep]
      exact hreboot _ _ h
    · cases hstep
  | call c =>
    rw [step] at hstep
    split at hstep
    · rw [← Option.some.inj hstep]
      refine sourced_of_events h rfl fun event hevent i b hwrites => ⟨c, ha, ?_⟩
      obtain ⟨write, hmem, rfl⟩ := List.mem_map.1 hevent
      exact ⟨write, block_of_stored (Option.mem_toList.1 hmem), hwrites⟩
    · cases hstep
  | commit failure =>
    have hlog : ∀ event ∈ commitEvents failure s.storage ++ s.log, ∀ i b, event.Writes i b →
        ∃ c, Action.call c ∈ actions ∧ Stores i b c := by
      intro event hevent i b hwrites
      rw [List.mem_append] at hevent
      rcases hevent with hevent | hevent
      · exact absurd hwrites (not_writes_commit hevent)
      · exact h event hevent i b hwrites
    rw [step] at hstep
    split at hstep
    · rw [← Option.some.inj hstep]
      exact hlog
    · rw [← Option.some.inj hstep]
      exact hreboot _ _ hlog
    · rw [← Option.some.inj hstep]
      exact hreboot _ _ h
    · cases hstep
  | reboot =>
    rw [← Option.some.inj hstep]
    exact hreboot _ _ h

/-- Every byte that is ever found at an address, in the storage or in the file, is a zero, was in the file at this address in the
beginning, or was stored at this address by a call of one of the processes. -/
theorem given_of_run (h : run step (start file) actions = some s) {address : UInt64} {b : UInt8}
    (hb : s.storage.get address = .returned (some b) ∨ (s.file.getD [])[address.toNat]? = some b) :
    b = NUL ∨ (file.getD [])[address.toNat]? = some b ∨ ∃ c, Action.call c ∈ actions ∧ Stores address.toNat b c := by
  have hrefines := refines_of_run h
  have hsourced : Sourced actions s :=
    run_invariant_of (· ∈ actions) (fun _ _ _ ha hs hstep => sourced_step ha hs hstep) (fun _ ha => ha)
      (fun event hevent => by cases hevent) h
  have hgiven : b = NUL ∨ Given (file.getD []) s.log address.toNat b := by
    rcases hb with hb | hb
    · rw [Storage.get_eq hrefines.sound, ← hrefines.cells.working] at hb
      exact (given_of_cells NUL _ s.log _ _).1 (Outcome.returned.inj hb)
    · rw [← hrefines.cells.saved] at hb
      exact (given_of_cells NUL _ s.log _ _).2 hb
  rcases hgiven with hzero | hfile | ⟨event, hevent, hwrites⟩
  · exact Or.inl hzero
  · exact Or.inr (Or.inl hfile)
  · exact Or.inr (Or.inr (hsourced event hevent _ _ hwrites))

/-! ### How long a commit lasts -/

/-- The action is a commit that gets to open the file. -/
def Action.opens : Action → Bool
  | .commit none => true
  | .commit (some f) => f.kept.isSome
  | _ => false

theorem file_of_step {s t : State} {a : Action} (ha : a.opens = false) (hstep : step s a = some t) : t.file = s.file := by
  cases a with
  | setup loading size =>
    rw [step] at hstep
    split at hstep
    · rw [← Option.some.inj hstep]
    · rw [← Option.some.inj hstep]
      rfl
    · cases hstep
  | call c =>
    rw [step] at hstep
    split at hstep
    · rw [← Option.some.inj hstep]
    · cases hstep
  | commit failure =>
    obtain ⟨f, rfl, hkept⟩ : ∃ f, failure = some f ∧ f.kept = none := by
      cases failure with
      | none => cases ha
      | some f => exact ⟨f, rfl, Option.isSome_eq_false_iff.1 ha |> Option.isNone_iff_eq_none.1⟩
    have hfile : (s.storage.commit (some f) s.file).2 = s.file := by
      unfold Storage.commit
      split
      · rfl
      · split
        · rfl
        · cases f <;> first | rfl | cases hkept
    rw [step] at hstep
    split at hstep
    · rename_i hcommit
      rw [hcommit] at hfile
      rw [← Option.some.inj hstep]
      exact hfile
    · rename_i hcommit
      rw [hcommit] at hfile
      rw [← Option.some.inj hstep]
      exact hfile
    · rename_i hcommit
      rw [hcommit] at hfile
      rw [← Option.some.inj hstep]
      exact hfile
    · cases hstep
  | reboot =>
    rw [← Option.some.inj hstep]
    rfl

/-- The file has these contents. -/
def Has (content : Bytes) (w : State) : Prop := w.file = some content

theorem has_of_run {content : Bytes} {more : List Action} {t : State} (hmore : ∀ a ∈ more, a.opens = false)
    (hs : Has content s) (h : run step s more = some t) : Has content t :=
  run_invariant_of (fun a => a.opens = false) (fun _ _ _ ha hw hstep => (file_of_step ha hstep).trans hw) hmore hs h

/-- A load with another size: cut off, or with zeros behind what was committed. -/
theorem getElem?_padded {n i : Nat} (content : Bytes) (hi : i < n) :
    (padded n content)[i]? = if i < content.length then content[i]? else some NUL := by
  have htake : (content.take n).length = min n content.length := List.length_take
  unfold padded
  by_cases hin : i < content.length
  · rw [if_pos hin, List.getElem?_append_left (by omega), List.getElem?_take_of_lt hi]
  · rw [if_neg hin, List.getElem?_append_right (by omega), htake, List.getElem?_replicate, if_pos (by omega)]

/-- However many processes come and go behind a commit that has returned `true`: as long as none of them gets to open the file for
a commit of its own, a process that loads the file finds what was there at that commit, as far as the sizes of both reach,
and zeros behind it.  Its `setup` returns `true` unless it has asked for more than was committed. -/
theorem durable_of_run {t : State} {failure : Option CommitFailure} {more : List Action} {n : UInt64}
    (h : run step (start file) actions = some s) (hcommit : (s.storage.commit failure s.file).1 = .returned true)
    (hmore : ∀ a ∈ more, a.opens = false) (hlater : run step s (.commit failure :: more) = some t) (hn : n ≠ 0)
    (hmax : n.toNat < 2 ^ 63) :
    ∃ u, Storage.setup (faultless t.file) .fresh n = .returned (decide (n ≤ s.storage.size), u) ∧
      ∀ address < n, u.get address =
        if address < s.storage.size then s.storage.get address else .returned (some NUL) := by
  have hsound := (refines_of_run h).sound
  have hsize : s.storage.size.toNat = s.storage.bytes.length := hsound
  obtain ⟨rfl, hbuffer⟩ := commit_true hcommit
  obtain ⟨v, hv, hrest⟩ := Option.bind_eq_some_iff.1 hlater
  have hfile : v.file = some s.storage.bytes := by
    have hpair : s.storage.commit none s.file = (.returned true, some s.storage.bytes) :=
      Prod.ext hcommit (commit_cases hsound hbuffer).1
    rw [step, hpair] at hv
    rw [← Option.some.inj hv]
  have hkept : t.file = some s.storage.bytes := has_of_run hmore hfile hrest
  have hpadded : Storage.Sound ⟨n, some (padded n.toNat s.storage.bytes)⟩ := (length_padded _ _).symm
  refine ⟨⟨n, some (padded n.toNat s.storage.bytes)⟩, ?_, fun address haddress => ?_⟩
  · have hfits : decide (n ≤ s.storage.size) = decide (n.toNat ≤ s.storage.bytes.length) :=
      decide_eq_decide.2 (by rw [UInt64.le_iff_toNat_le, hsize])
    rw [hkept, setup_faultless hn hmax, hfits]
  · have hcell : (⟨n, some (padded n.toNat s.storage.bytes)⟩ : Storage).bytes[address.toNat]? = _ :=
      getElem?_padded s.storage.bytes (UInt64.lt_iff_toNat_lt.1 haddress)
    rw [Storage.get_eq hpadded, Storage.get_eq hsound, hcell]
    simp only [UInt64.lt_iff_toNat_lt, hsize]
    split <;> rfl

end Runs

/-! ### Three processes -/

/-- One stores and commits two bytes and is killed; the next one cannot open the file for its commit. -/
def twice : List Action :=
  [.setup ⟨true, true, 9, true⟩ 2, .call (.set 0 1), .call (.write 1 0 #v[5]), .call (.set 1 2)]

def twiceLater : List Action :=
  [.call (.set 0 7), .commit (some .killedBefore), .setup ⟨true, true, 9, true⟩ 3, .call (.set 2 8),
    .commit (some .cannotOpen), .reboot]

/-- The first process, behind its calls. -/
def twiceState : State :=
  ⟨⟨2, some [5, 2]⟩, some [9],
    [.written 1 [2], .written 0 [5], .written 0 [1], .loaded 1, .cleared 2]⟩

theorem run_twice : run step (start (some [9])) twice = some twiceState := rfl

theorem lives_of_twice :
    (∀ i, (twiceState.file.getD [])[i]? = (twiceState.cells (some [9])).saved i) ∧
      ∀ address, twiceState.storage.get address = .returned ((twiceState.cells (some [9])).working address.toNat) := by
  obtain ⟨hsaved, hworking, -⟩ := lives_of_run run_twice
  exact ⟨hsaved, hworking⟩

/-- The byte that is loaded is overwritten twice. -/
theorem given_of_twice :
    (5 : UInt8) = NUL ∨ ([9] : Bytes)[(0 : UInt64).toNat]? = some 5 ∨ ∃ c, Action.call c ∈ twice ∧ Stores 0 5 c := by
  have hget : twiceState.storage.get 0 = .returned (some 5) := rfl
  exact given_of_run run_twice (Or.inl hget)

theorem durable_of_twice :
    ∃ t u, run step twiceState (.commit none :: twiceLater) = some t ∧
      Storage.setup (faultless t.file) .fresh 4 = .returned (false, u) ∧
        ∀ address < 4, u.get address =
          if address < 2 then twiceState.storage.get address else .returned (some NUL) := by
  obtain ⟨t, hlater⟩ : ∃ t, run step twiceState (.commit none :: twiceLater) = some t := ⟨_, rfl⟩
  obtain ⟨u, hsetup, hget⟩ := durable_of_run (n := 4) run_twice rfl (by decide) hlater (by decide) (by decide)
  exact ⟨t, u, hlater, hsetup, hget⟩

end IopHal.Lives
