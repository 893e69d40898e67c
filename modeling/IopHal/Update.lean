import IopHal.Response
import IopHal.Library.Feed

/-!
# Installing a firmware image

`Update::run` of the Linux build.  The image goes to a temporary file, the running executable is renamed to its name
with `.old` behind it, the temporary file is renamed to the executable's name, and the old file is removed.  Every
system call is a round that asks for its outcome, so a run is a list of outcomes and a kill is the end of the list.

`run_complete_iff` is the whole account of the executable's path: it names a complete binary in every state reached,
except between the two renames (`Holds`), where it names nothing.
-/

namespace IopHal

open Feed

/-- `iop_hal::UpdateStatus` -/
inductive UpdateStatus
  | ioError
  | brokenServer
  | brokenClient
  | noUpgrade
  | unauthorized
  deriving DecidableEq

/-! ### Files and paths -/

abbrev Path := Bytes

structure File where
  content : Bytes
  mode : Nat
  deriving DecidableEq

/-- What the paths name. -/
abbrev FileSystem := Path → Option File

namespace FileSystem

/-- `std::filesystem::rename`, which replaces what `dst` named.  A path that names nothing cannot be renamed. -/
def rename (fs : FileSystem) (src dst : Path) : Option FileSystem :=
  if fs src = none then none
  else if src = dst then some fs
  else some (Function.update (Function.update fs dst (fs src)) src none)

/-- `std::filesystem::remove`; it does not mind a path that names nothing. -/
def remove (fs : FileSystem) (p : Path) : FileSystem := Function.update fs p none

theorem rename_of_ne {fs : FileSystem} {src dst : Path} {f : File} (h : fs src = some f) (hne : src ≠ dst) :
    fs.rename src dst = some (Function.update (Function.update fs dst (some f)) src none) := by
  simp [rename, h, hne]

end FileSystem

/-- `path::append` -/
def Path.append (base p : Path) : Path :=
  if p.head? = some 47 then p
  else if base = [] ∨ base.getLast? = some 47 then base ++ p
  else base ++ 47 :: p

theorem Path.length_append (base p : Path) :
    (base.append p).length =
      if p.head? = some 47 then p.length
      else if base = [] ∨ base.getLast? = some 47 then base.length + p.length
      else base.length + 1 + p.length := by
  unfold append
  split
  · rfl
  · split
    · exact List.length_append
    · simp only [List.length_append, List.length_cons]
      omega

/-- Behind one base, paths that start alike have the same length only if they had it before. -/
theorem Path.append_ne {base p q : Path} (hhead : p.head? = some 47 ↔ q.head? = some 47)
    (hlength : p.length ≠ q.length) : base.append p ≠ base.append q := by
  intro h
  have hl := congrArg List.length h
  rw [Path.length_append, Path.length_append] at hl
  simp only [hhead] at hl
  split at hl
  · exact hlength hl
  · split at hl <;> omega

/-! ### The installation -/

/-- What the process brings along: `current_path()`, `execution_path()`, the name from `tmpnam` and the permissions
of a file that `ofstream` creates. -/
structure Process where
  currentPath : Path
  executionPath : Path
  tmpFile : Path
  createMode : Nat

def Process.filename (p : Process) : Path := p.currentPath.append p.executionPath

def Process.renamedBinary (p : Process) : Path := p.currentPath.append (p.executionPath ++ ascii ".old")

theorem Process.renamedBinary_ne_filename (p : Process) : p.renamedBinary ≠ p.filename := by
  apply Path.append_ne
  · cases p.executionPath <;> simp [ascii]
  · simp [ascii]

/-- `owner_all | others_exec | others_read | group_exec | group_read` -/
def binaryPerms : Nat := 0o700 ||| 0o001 ||| 0o004 ||| 0o010 ||| 0o040

/-- The system calls in their order. -/
inductive Stage
  | openFile
  | write
  | close
  | permissions
  | currentPath
  | currentPathAgain
  | renameOld
  | renameNew
  | remove
  deriving DecidableEq

/-- How many calls have come back when the run stands at this one. -/
def Stage.index : Stage → Nat
  | openFile => 0
  | write => 1
  | close => 2
  | permissions => 3
  | currentPath => 4
  | currentPathAgain => 5
  | renameOld => 6
  | renameNew => 7
  | remove => 8

def Stage.next : Stage → Option Stage
  | openFile => some write
  | write => some close
  | close => some permissions
  | permissions => some currentPath
  | currentPath => some currentPathAgain
  | currentPathAgain => some renameOld
  | renameOld => some renameNew
  | renameNew => some remove
  | remove => none

/-- What the surroundings answer: `n` more bytes have reached the file, or the call has succeeded, or it has failed. -/
inductive Answer
  | progress (n : Nat)
  | ok
  | failed
  deriving DecidableEq

/-- How a run leaves `Update::run`: with a status, through `std::terminate`, or into `exit(system(filename))`. -/
inductive Ending
  | returned (status : UpdateStatus)
  | terminated
  | restarted
  deriving DecidableEq

/-- A run at one of its calls, with the number of bytes that have reached the temporary file. -/
structure Installing where
  stage : Stage
  written : Nat
  fs : FileSystem

theorem Stage.index_next {stage next : Stage} (h : stage.next = some next) : next.index = stage.index + 1 := by
  cases stage <;> cases h <;> rfl

theorem Stage.eq_remove_of_next {stage : Stage} (h : stage.next = none) : stage = .remove := by
  cases stage <;> first | rfl | cases h

def Answer.settles : Answer → Bool
  | progress _ => false
  | ok => true
  | failed => true

namespace Update

section Steps

variable (p : Process) (binary : Bytes)

/-- The first `n` bytes of the image under the temporary name. -/
def writeTmp (n : Nat) (fs : FileSystem) : FileSystem :=
  Function.update fs p.tmpFile ((fs p.tmpFile).map fun f => { f with content := binary.take n })

/-- What a call that succeeds leaves, or `none` where it cannot succeed. -/
def perform (fs : FileSystem) : Stage → Option FileSystem
  | .openFile => some (Function.update fs p.tmpFile (some ⟨[], ((fs p.tmpFile).map File.mode).getD p.createMode⟩))
  -- `ofstream::write` may keep bytes back, `close` may not
  | .write => some fs
  | .close => some (writeTmp p binary binary.length fs)
  | .permissions => some (Function.update fs p.tmpFile ((fs p.tmpFile).map fun f => { f with mode := binaryPerms }))
  | .currentPath => some fs
  | .currentPathAgain => some fs
  | .renameOld => fs.rename p.filename p.renamedBinary
  | .renameNew => fs.rename p.tmpFile p.filename
  | .remove => some (fs.remove p.renamedBinary)

/-- The calls that report through the stream or an `error_code` make `run` return; an exception of the others cannot
leave a `noexcept` function. -/
def failure : Stage → Ending
  | .openFile => .returned .ioError
  | .write => .returned .ioError
  | .close => .returned .ioError
  | .permissions => .returned .ioError
  | _ => .terminated

def step (s : Installing) : Answer → Except (Ending × FileSystem) Installing
  | .progress n =>
    if s.stage = .write ∨ s.stage = .close then
      .ok { s with written := s.written + n, fs := writeTmp p binary (s.written + n) s.fs }
    else .ok s
  | .failed => .error (failure s.stage, s.fs)
  | .ok =>
    match perform p binary s.fs s.stage with
    | none => .error (failure s.stage, s.fs)
    | some fs =>
      match s.stage.next with
      | none => .error (.restarted, fs)
      | some stage => .ok { s with stage := stage, fs := fs }

end Steps

/-- How a run over the answers ends, with the file system it leaves; one that is still going has been killed there. -/
def ended : Except (Ending × FileSystem) Installing → Option Ending × FileSystem
  | .ok s => (none, s.fs)
  | .error (ending, fs) => (some ending, fs)

/-- `Update::run` behind the answer of the server. -/
def run (p : Process) (response : Response) (fs : FileSystem) (answers : List Answer) : Option Ending × FileSystem :=
  if response.status = some .ok then
    if response.promise = [] then (some (.returned .brokenServer), fs)
    else ended (feed (step p response.promise) ⟨.openFile, 0, fs⟩ answers)
  else (some (.returned .brokenServer), fs)

/-- The calls that have come back, without the progress reports in between. -/
def settled (answers : List Answer) : List Answer := answers.filter Answer.settles

/-! ### What the executable's path names -/

/-- The path of the executable names the complete old binary or the complete new one. -/
def Complete (p : Process) (binary : Bytes) (old : File) (fs : FileSystem) : Prop :=
  fs p.filename = some old ∨ fs p.filename = some ⟨binary, binaryPerms⟩

/-- What is known of the two names at each call.  Where `tmpnam` has happened to return the `.old` name itself, the
first rename puts the old binary there and the second one puts it back. -/
def Holds (p : Process) (binary : Bytes) (old : File) (fs : FileSystem) : Stage → Prop
  | .openFile => fs p.filename = some old
  | .write => fs p.filename = some old ∧ ∃ f, fs p.tmpFile = some f
  | .close => fs p.filename = some old ∧ ∃ f, fs p.tmpFile = some f
  | .permissions => fs p.filename = some old ∧ ∃ mode, fs p.tmpFile = some ⟨binary, mode⟩
  | .currentPath => fs p.filename = some old ∧ fs p.tmpFile = some ⟨binary, binaryPerms⟩
  | .currentPathAgain => fs p.filename = some old ∧ fs p.tmpFile = some ⟨binary, binaryPerms⟩
  | .renameOld => fs p.filename = some old ∧ fs p.tmpFile = some ⟨binary, binaryPerms⟩
  | .renameNew => fs p.filename = none ∧ (fs p.tmpFile = some old ∨ fs p.tmpFile = some ⟨binary, binaryPerms⟩)
  | .remove => Complete p binary old fs

section Invariant

variable {p : Process} {binary : Bytes} {old : File}

/-- Between the renames, and only there, the executable's path names no binary at all. -/
theorem complete_iff_of_holds {fs : FileSystem} {stage : Stage} (h : Holds p binary old fs stage) :
    Complete p binary old fs ↔ stage ≠ .renameNew := by
  cases stage with
  | openFile => exact ⟨fun _ => by decide, fun _ => Or.inl h⟩
  | write => exact ⟨fun _ => by decide, fun _ => Or.inl h.1⟩
  | close => exact ⟨fun _ => by decide, fun _ => Or.inl h.1⟩
  | permissions => exact ⟨fun _ => by decide, fun _ => Or.inl h.1⟩
  | currentPath => exact ⟨fun _ => by decide, fun _ => Or.inl h.1⟩
  | currentPathAgain => exact ⟨fun _ => by decide, fun _ => Or.inl h.1⟩
  | renameOld => exact ⟨fun _ => by decide, fun _ => Or.inl h.1⟩
  | renameNew => simp [Complete, h.1]
  | remove => exact ⟨fun _ => by decide, fun _ => h⟩

variable (hne : p.tmpFile ≠ p.filename)
include hne

theorem writeTmp_filename (n : Nat) (fs : FileSystem) : writeTmp p binary n fs p.filename = fs p.filename :=
  Function.update_of_ne hne.symm _ _

theorem holds_writeTmp {fs : FileSystem} {stage : Stage} (hstage : stage = .write ∨ stage = .close)
    (h : Holds p binary old fs stage) (n : Nat) : Holds p binary old (writeTmp p binary n fs) stage := by
  have hwrite : fs p.filename = some old ∧ ∃ f, fs p.tmpFile = some f := by
    rcases hstage with rfl | rfl <;> exact h
  obtain ⟨hold, f, hf⟩ := hwrite
  have hnew : writeTmp p binary n fs p.filename = some old ∧ ∃ f, writeTmp p binary n fs p.tmpFile = some f :=
    ⟨by rw [writeTmp_filename hne, hold], { f with content := binary.take n }, by simp [writeTmp, hf]⟩
  rcases hstage with rfl | rfl <;> exact hnew

/-- A call that comes back leads to what is known at the next one; none of them fails for want of its file. -/
theorem holds_perform {fs : FileSystem} {stage : Stage} (h : Holds p binary old fs stage) :
    ∃ fs', perform p binary fs stage = some fs' ∧
      match stage.next with
      | none => Complete p binary old fs'
      | some next => Holds p binary old fs' next := by
  cases stage with
  | openFile =>
    refine ⟨_, rfl, ?_, ⟨[], ((fs p.tmpFile).map File.mode).getD p.createMode⟩, ?_⟩
    · rw [Function.update_of_ne hne.symm]
      exact h
    · exact Function.update_self ..
  | write => exact ⟨fs, rfl, h⟩
  | close =>
    obtain ⟨hfile, f, hf⟩ := h
    refine ⟨_, rfl, ?_, f.mode, ?_⟩
    · rw [writeTmp_filename hne, hfile]
    · simp [writeTmp, hf]
  | permissions =>
    obtain ⟨hfile, mode, hf⟩ := h
    refine ⟨_, rfl, ?_, ?_⟩
    · rw [Function.update_of_ne hne.symm, hfile]
    · simp [hf]
  | currentPath => exact ⟨fs, rfl, h⟩
  | currentPathAgain => exact ⟨fs, rfl, h⟩
  | renameOld =>
    obtain ⟨hfile, hf⟩ := h
    refine ⟨_, FileSystem.rename_of_ne hfile p.renamedBinary_ne_filename.symm, ?_, ?_⟩
    · exact Function.update_self ..
    · rw [Function.update_of_ne hne]
      by_cases htmp : p.tmpFile = p.renamedBinary
      · exact Or.inl (by rw [htmp, Function.update_self])
      · exact Or.inr (by rw [Function.update_of_ne htmp, hf])
  | renameNew =>
    obtain ⟨-, hf⟩ := h
    obtain ⟨f, hf', hcomplete⟩ : ∃ f, fs p.tmpFile = some f ∧ (f = old ∨ f = ⟨binary, binaryPerms⟩) := by
      rcases hf with hf | hf
      · exact ⟨_, hf, Or.inl rfl⟩
      · exact ⟨_, hf, Or.inr rfl⟩
    refine ⟨_, FileSystem.rename_of_ne hf' hne, ?_⟩
    show Complete p binary old _
    unfold Complete
    rw [Function.update_of_ne hne.symm, Function.update_self]
    rcases hcomplete with rfl | rfl
    · exact Or.inl rfl
    · exact Or.inr rfl
  | remove =>
    refine ⟨_, rfl, ?_⟩
    show Complete p binary old _
    unfold Complete FileSystem.remove
    rw [Function.update_of_ne p.renamedBinary_ne_filename.symm]
    exact h

/-- One call: it goes on in the same place, or comes back and leads to the next one. -/
theorem step_ok {s t : Installing} {a : Answer} (hs : Holds p binary old s.fs s.stage)
    (h : step p binary s a = .ok t) :
    Holds p binary old t.fs t.stage ∧
      (a.settles = false ∧ t.stage = s.stage ∨ a = .ok ∧ t.stage.index = s.stage.index + 1) := by
  cases a with
  | progress n =>
    rw [step] at h
    split at h
    · rename_i hstage
      cases h
      exact ⟨holds_writeTmp hne hstage hs _, Or.inl ⟨rfl, rfl⟩⟩
    · cases h
      exact ⟨hs, Or.inl ⟨rfl, rfl⟩⟩
  | failed => cases h
  | ok =>
    obtain ⟨fs', hperform, hnext⟩ := holds_perform hne hs
    rw [step, hperform] at h
    cases hstage : s.stage.next with
    | none => rw [hstage] at h; cases h
    | some next =>
      rw [hstage] at h hnext
      cases h
      exact ⟨hnext, Or.inr ⟨rfl, Stage.index_next hstage⟩⟩

/-- A run is left by a call that fails, with the file system as it stands there, or behind the last call. -/
theorem step_error {s : Installing} {a : Answer} {ending : Ending} {fs : FileSystem}
    (hs : Holds p binary old s.fs s.stage) (h : step p binary s a = .error (ending, fs)) :
    a = .failed ∧ fs = s.fs ∨ a = .ok ∧ s.stage = .remove ∧ Complete p binary old fs := by
  cases a with
  | progress n =>
    rw [step] at h
    split at h <;> cases h
  | failed =>
    cases h
    exact Or.inl ⟨rfl, rfl⟩
  | ok =>
    obtain ⟨fs', hperform, hnext⟩ := holds_perform hne hs
    rw [step, hperform] at h
    cases hstage : s.stage.next with
    | none =>
      rw [hstage] at h hnext
      cases h
      exact Or.inr ⟨rfl, Stage.eq_remove_of_next hstage, hnext⟩
    | some next => rw [hstage] at h; cases h

/-- A run that is still going has had as many calls come back as its stage says, none of them with an error. -/
theorem feed_ok {s t : Installing} {answers : List Answer} (hs : Holds p binary old s.fs s.stage)
    (h : feed (step p binary) s answers = .ok t) :
    Holds p binary old t.fs t.stage ∧
      ∃ k, settled answers = List.replicate k .ok ∧ t.stage.index = s.stage.index + k := by
  induction answers generalizing s with
  | nil =>
    rw [feed_nil] at h
    cases h
    exact ⟨hs, 0, rfl, rfl⟩
  | cons a answers ih =>
    cases ha : step p binary s a with
    | error r => rw [feed_cons_error ha] at h; cases h
    | ok u =>
      rw [feed_cons_ok ha] at h
      obtain ⟨hu, hstage⟩ := step_ok hne hs ha
      obtain ⟨ht, k, hk, hindex⟩ := ih hu h
      refine ⟨ht, ?_⟩
      rcases hstage with ⟨hquiet, hstage⟩ | ⟨rfl, hstage⟩
      · refine ⟨k, ?_, by rw [hindex, hstage]⟩
        rw [← hk]
        exact List.filter_cons_of_neg (by simp [hquiet])
      · refine ⟨k + 1, ?_, by omega⟩
        rw [List.replicate_succ, ← hk]
        exact List.filter_cons_of_pos rfl

end Invariant

/-- The seventh call to come back is the first rename, and the eighth, the second rename, has not come back or has
failed. -/
def BetweenRenames (answers : List Answer) : Prop :=
  (settled answers).take 8 = List.replicate 7 .ok ∨ (settled answers).take 8 = List.replicate 7 .ok ++ [.failed]

instance (answers : List Answer) : Decidable (BetweenRenames answers) := inferInstanceAs (Decidable (_ ∨ _))

theorem betweenRenames_of_going {stage : Stage} {answers : List Answer}
    (h : settled answers = List.replicate stage.index .ok) : BetweenRenames answers ↔ stage = .renameNew := by
  unfold BetweenRenames
  rw [h]
  cases stage <;> decide

theorem betweenRenames_of_failed {stage : Stage} {answers rest : List Answer}
    (h : settled answers = List.replicate stage.index .ok ++ .failed :: rest) :
    BetweenRenames answers ↔ stage = .renameNew := by
  unfold BetweenRenames
  rw [h]
  cases stage <;> simp [Stage.index, List.replicate]

theorem not_betweenRenames_of_finished {answers rest : List Answer}
    (h : settled answers = List.replicate 9 .ok ++ rest) : ¬ BetweenRenames answers := by
  unfold BetweenRenames
  rw [h]
  simp [List.replicate]

/-- From a state at one of the calls, a run over the answers leaves a complete binary under the executable's path
unless it ends between the renames. -/
theorem complete_ended_iff {p : Process} {binary : Bytes} {old : File} (hne : p.tmpFile ≠ p.filename)
    {fs : FileSystem} (hexe : fs p.filename = some old) (answers : List Answer) :
    Complete p binary old (ended (feed (step p binary) ⟨.openFile, 0, fs⟩ answers)).2 ↔ ¬ BetweenRenames answers := by
  have hs : Holds p binary old fs .openFile := hexe
  -- the number of calls that have come back is the index of the stage, as the run starts at index 0
  have hgoing : ∀ {pre : List Answer} {t : Installing}, feed (step p binary) ⟨.openFile, 0, fs⟩ pre = .ok t →
      Holds p binary old t.fs t.stage ∧ settled pre = List.replicate t.stage.index .ok := by
    intro pre t hpre
    obtain ⟨ht, k, hk, hindex⟩ := feed_ok hne hs hpre
    refine ⟨ht, ?_⟩
    rw [hk, hindex, show Stage.openFile.index = 0 from rfl, Nat.zero_add]
  cases hrun : feed (step p binary) ⟨.openFile, 0, fs⟩ answers with
  | ok t =>
    obtain ⟨ht, hsettled⟩ := hgoing hrun
    show Complete p binary old t.fs ↔ _
    rw [complete_iff_of_holds ht, betweenRenames_of_going hsettled]
  | error r =>
    obtain ⟨ending, fs'⟩ := r
    obtain ⟨pre, a, post, t, rfl, hpre, ha⟩ := feed_error_iff.1 hrun
    obtain ⟨ht, hsettled⟩ := hgoing hpre
    show Complete p binary old fs' ↔ _
    rcases step_error hne ht ha with ⟨rfl, rfl⟩ | ⟨rfl, hstage, hcomplete⟩
    · have hfailed : settled (pre ++ .failed :: post) = List.replicate t.stage.index .ok ++ .failed :: settled post := by
        rw [← hsettled]
        exact List.filter_append ..
      rw [complete_iff_of_holds ht, betweenRenames_of_failed hfailed]
    · have hfinished : settled (pre ++ .ok :: post) = List.replicate 9 .ok ++ settled post := by
        rw [hstage] at hsettled
        rw [show List.replicate 9 Answer.ok = List.replicate Stage.remove.index .ok ++ [.ok] from rfl, ← hsettled,
          List.append_assoc]
        exact List.filter_append ..
      exact iff_of_true hcomplete (not_betweenRenames_of_finished hfinished)

/-- The executable's path names nothing but the old binary and the image, whenever the run ends. -/
theorem ended_filename {p : Process} {binary : Bytes} {old : File} (hne : p.tmpFile ≠ p.filename)
    {fs : FileSystem} (hexe : fs p.filename = some old) (answers : List Answer) :
    Complete p binary old (ended (feed (step p binary) ⟨.openFile, 0, fs⟩ answers)).2 ∨
      (ended (feed (step p binary) ⟨.openFile, 0, fs⟩ answers)).2 p.filename = none := by
  have hs : Holds p binary old fs .openFile := hexe
  have hgoing : ∀ {t : Installing}, Holds p binary old t.fs t.stage →
      Complete p binary old t.fs ∨ t.fs p.filename = none := by
    intro t ht
    by_cases hstage : t.stage = .renameNew
    · rw [hstage] at ht
      exact Or.inr ht.1
    · exact Or.inl ((complete_iff_of_holds ht).2 hstage)
  cases hrun : feed (step p binary) ⟨.openFile, 0, fs⟩ answers with
  | ok t => exact hgoing (feed_ok hne hs hrun).1
  | error r =>
    obtain ⟨ending, fs'⟩ := r
    obtain ⟨pre, a, post, t, -, hpre, ha⟩ := feed_error_iff.1 hrun
    have ht := (feed_ok hne hs hpre).1
    rcases step_error hne ht ha with ⟨-, rfl⟩ | ⟨-, -, hcomplete⟩
    · exact hgoing ht
    · exact Or.inl hcomplete

/-- Whatever the server has sent, wherever the run is killed and whichever call fails, the executable's path names a
complete binary, except between the two renames.  `tmpnam` returns a name that nothing has, so not the executable's. -/
theorem run_complete_iff {p : Process} {fs : FileSystem} {old : File} (hne : p.tmpFile ≠ p.filename)
    (hexe : fs p.filename = some old) (response : Response) (answers : List Answer) :
    Complete p response.promise old (run p response fs answers).2 ↔
      (response.status = some .ok → response.promise ≠ [] → ¬ BetweenRenames answers) := by
  have huntouched : Complete p response.promise old fs := Or.inl hexe
  unfold run
  by_cases hstatus : response.status = some .ok
  · rw [if_pos hstatus]
    by_cases hpromise : response.promise = []
    · rw [if_pos hpromise]
      exact iff_of_true huntouched fun _ h => absurd hpromise h
    · rw [if_neg hpromise, complete_ended_iff hne hexe]
      exact ⟨fun h _ _ => h, fun h => h hstatus hpromise⟩
  · rw [if_neg hstatus]
    exact iff_of_true huntouched fun h => absurd h hstatus

/-! ### Two runs of one installation -/

def device : Process where
  currentPath := ascii "/opt"
  executionPath := ascii "./iop"
  tmpFile := ascii "/tmp/fileA"
  createMode := 0o644

def oldBinary : File := ⟨ascii "v1", 0o755⟩

def files : FileSystem := fun path => if path = device.filename then some oldBinary else none

def firmware : Response := .ofHeaders [] (ascii "v2") 200

/-- Killed while the image is being written. -/
theorem run_complete_killed : Complete device (ascii "v2") oldBinary (run device firmware files [.ok, .progress 1]).2 :=
  (run_complete_iff (by decide) (by decide) firmware [.ok, .progress 1]).2 fun _ _ => by decide

/-- The temporary directory is on another file system, which `rename` reports for the second rename. -/
theorem run_across_file_systems :
    files device.filename = some oldBinary ∧
      (run device firmware files (List.replicate 7 .ok ++ [.failed])).1 = some .terminated ∧
      ¬ Complete device (ascii "v2") oldBinary (run device firmware files (List.replicate 7 .ok ++ [.failed])).2 := by
  refine ⟨by decide, by decide, ?_⟩
  unfold Complete
  decide

end Update

end IopHal
