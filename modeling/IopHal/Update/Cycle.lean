import IopHal.Device.Executable
import IopHal.Library.Transitions
import IopHal.Network.Hooks

/-!
# Firmware updates from end to end

A device sends requests, which name the version it runs; a response that names another one calls the update hook; and an
update downloads an image, puts it under the executable's path and starts it.  `Cycle.step` puts these together: the process
with the statics it keeps, the files, and what the network and the system answer, in any order of requests, updates, crashes
and starts.

The process runs the image that it was started from, while the hash is read from the path later and then kept.  Nothing but
an update changes what the path names, and one that does so ends the process, so both are the same (`Sound`).
-/

namespace IopHal.Cycle

open Feed Transitions

/-- What stays the same on a device: its target, the memory of the digest, and the paths of its executable. -/
structure Board where
  target : Md5.Target
  ctx : Md5.Ctx
  currentPath : Path
  executionPath : Path
  createMode : Nat

def Board.process (b : Board) (tmpFile : Path) : Process := ⟨b.currentPath, b.executionPath, tmpFile, b.createMode⟩

def Board.filename (b : Board) : Path := b.currentPath.append b.executionPath

/-- A process: the image that it has been started from, and its statics. -/
structure Running where
  image : Bytes
  statics : Device.Statics

/-- A request that has been answered: who has sent it, the version it names, the response, and whether the hook was called. -/
structure Report where
  image : Bytes
  version : Bytes
  response : Response
  scheduled : Bool

structure State where
  fs : FileSystem
  running : Option Running
  reports : List Report

inductive Action
  /-- a call of `httpRequest` whose session ends with this response -/
  | request (response : Response)
  /-- a call of `Update::run`, whose request comes to a session or not -/
  | update (tmpFile : Path) (session : Option Response) (answers : List Answer)
  | kill
  | start

variable (b : Board)

/-- An empty file cannot be executed, nor one that does not fit into the memory. -/
def Launches (file : File) : Prop := file.content ≠ [] ∧ file.content.length < 2 ^ b.target.longBits

instance (file : File) : Decidable (Launches b file) := inferInstanceAs (Decidable (_ ∧ _))

/-- A new process of the file that the executable's path names -/
def launch (fs : FileSystem) : Option Running :=
  ((fs b.filename).filter fun file => Launches b file).map fun file => ⟨file.content, .fresh⟩

/-- A session and its callback: the version is asked for in the headers and again for the response. -/
def exchange (fs : FileSystem) (r : Running) (response : Response) : Outcome (Report × Running × Response) :=
  (Device.firmwareMD5 b.target b.ctx fs b.filename r.statics).bind fun sent =>
    (Device.firmwareMD5 b.target b.ctx fs b.filename sent.2).bind fun compared =>
      let p := processResponse (cview compared.1) response
      p.response.bind fun processed =>
        .returned (⟨r.image, cview sent.1, response, p.scheduled⟩, { r with statics := compared.2 }, processed)

/-- What `Update::run` leaves, behind the response to its request.  `exit(system(filename))` goes on with a new process. -/
def install (s : State) (r : Running) (tmpFile : Path) (response : Response) (answers : List Answer) : State :=
  let (ending, fs) := Update.run (b.process tmpFile) response s.fs answers
  { s with
    fs := fs
    running :=
      match ending with
      | some (.returned _) => some r
      | some .restarted => launch b fs
      | some .terminated => none
      | none => none }

/-- A request whose callback does not return ends the process.  There is no step behind undefined behaviour. -/
def step (s : State) : Action → Option State
  | .request response =>
    s.running.bind fun r =>
      match exchange b s.fs r response with
      | .returned (report, r', _) => some { s with running := some r', reports := s.reports ++ [report] }
      | .undefined => none
      | _ => some { s with running := none }
  | .update tmpFile session answers =>
    -- `tmpnam` returns a name that nothing has
    if s.fs tmpFile ≠ none then none
    else
      s.running.bind fun r =>
        match session with
        | none => some (install b s r tmpFile (.ofStatus .ioError) answers)
        | some response =>
          match exchange b s.fs r response with
          | .returned (report, r', processed) =>
            some (install b { s with reports := s.reports ++ [report] } r' tmpFile processed answers)
          | .undefined => none
          | _ => some { s with running := none }
  | .kill => s.running.map fun _ => { s with running := none }
  | .start => if s.running.isSome then none else (launch b s.fs).map fun r => { s with running := some r }

/-! ### What an installation leaves under the executable's path -/

/-- Only behind the last call the executable is started. -/
theorem stage_of_restarted {p : Process} {binary : Bytes} {s : Installing} {a : Answer} {fs : FileSystem}
    (h : Update.step p binary s a = .error (.restarted, fs)) :
    s.stage = .remove ∧ fs = s.fs.remove p.renamedBinary := by
  have hfailure : ∀ stage, Update.failure stage ≠ .restarted := by
    intro stage
    cases stage <;> decide
  cases a with
  | progress n =>
    rw [Update.step] at h
    split at h <;> cases h
  | failed => exact absurd (Prod.mk.inj (Except.error.inj h)).1 (hfailure s.stage)
  | ok =>
    rw [Update.step] at h
    split at h
    · exact absurd (Prod.mk.inj (Except.error.inj h)).1 (hfailure s.stage)
    · rename_i fs' hperform
      split at h
      · rename_i hnext
        obtain ⟨-, rfl⟩ := Prod.mk.inj (Except.error.inj h)
        have hstage := Stage.eq_remove_of_next hnext
        rw [hstage] at hperform
        exact ⟨hstage, (Option.some.inj hperform).symm⟩
      · cases h

section Install

variable {p : Process} {fs : FileSystem} {old : File} (hne : p.tmpFile ≠ p.filename)
include hne

/-- Only the calls in front of the renames make an installation return. -/
theorem filename_of_step {binary : Bytes} {s : Installing} {a : Answer} {status : UpdateStatus} {fs' : FileSystem}
    (hs : Update.Holds p binary old s.fs s.stage) (h : Update.step p binary s a = .error (.returned status, fs')) :
    fs' p.filename = some old := by
  cases a with
  | progress n =>
    rw [Update.step] at h
    split at h <;> cases h
  | failed =>
    obtain ⟨hfailure, rfl⟩ := Prod.mk.inj (Except.error.inj h)
    cases hstage : s.stage with
    | openFile => exact (hstage ▸ hs : Update.Holds p binary old s.fs .openFile)
    | write => exact (hstage ▸ hs : Update.Holds p binary old s.fs .write).1
    | close => exact (hstage ▸ hs : Update.Holds p binary old s.fs .close).1
    | permissions => exact (hstage ▸ hs : Update.Holds p binary old s.fs .permissions).1
    | currentPath => rw [hstage] at hfailure; cases hfailure
    | currentPathAgain => rw [hstage] at hfailure; cases hfailure
    | renameOld => rw [hstage] at hfailure; cases hfailure
    | renameNew => rw [hstage] at hfailure; cases hfailure
    | remove => rw [hstage] at hfailure; cases hfailure
  | ok =>
    obtain ⟨fs'', hperform, -⟩ := Update.holds_perform hne hs
    rw [Update.step, hperform] at h
    dsimp only at h
    cases hnext : s.stage.next with
    | none => rw [hnext] at h; cases h
    | some next => rw [hnext] at h; cases h

/-- Behind the first rename the image is under the temporary name, and behind the second under the executable's, if the two
names of the old file are not one. -/
def Moved (p : Process) (binary : Bytes) (s : Installing) : Prop :=
  (s.stage = .renameNew → s.fs p.tmpFile = some ⟨binary, binaryPerms⟩) ∧
    (s.stage = .remove → s.fs p.filename = some ⟨binary, binaryPerms⟩)

omit hne in
theorem moved_of_stage {binary : Bytes} {s : Installing} (stage : Stage) (hstage : s.stage = stage)
    (hnew : stage ≠ .renameNew) (hremove : stage ≠ .remove) : Moved p binary s :=
  ⟨fun h => absurd (hstage.symm.trans h) hnew, fun h => absurd (hstage.symm.trans h) hremove⟩

theorem moved_step {binary : Bytes} {s t : Installing} {a : Answer} (hold : p.tmpFile ≠ p.renamedBinary)
    (hs : Update.Holds p binary old s.fs s.stage) (hmoved : Moved p binary s) (h : Update.step p binary s a = .ok t) :
    Moved p binary t := by
  cases a with
  | progress n =>
    rw [Update.step] at h
    split at h
    · rename_i hstage
      obtain rfl := Except.ok.inj h
      rcases hstage with hstage | hstage
      · exact moved_of_stage .write hstage (by decide) (by decide)
      · exact moved_of_stage .close hstage (by decide) (by decide)
    · exact Except.ok.inj h ▸ hmoved
  | failed => cases h
  | ok =>
    rw [Update.step] at h
    cases hstage : s.stage with
    | openFile =>
      rw [hstage] at h
      exact moved_of_stage .write (congrArg Installing.stage (Except.ok.inj h)).symm (by decide) (by decide)
    | write =>
      rw [hstage] at h
      exact moved_of_stage .close (congrArg Installing.stage (Except.ok.inj h)).symm (by decide) (by decide)
    | close =>
      rw [hstage] at h
      exact moved_of_stage .permissions (congrArg Installing.stage (Except.ok.inj h)).symm (by decide) (by decide)
    | permissions =>
      rw [hstage] at h
      exact moved_of_stage .currentPath (congrArg Installing.stage (Except.ok.inj h)).symm (by decide) (by decide)
    | currentPath =>
      rw [hstage] at h
      exact moved_of_stage .currentPathAgain (congrArg Installing.stage (Except.ok.inj h)).symm (by decide) (by decide)
    | currentPathAgain =>
      rw [hstage] at h
      exact moved_of_stage .renameOld (congrArg Installing.stage (Except.ok.inj h)).symm (by decide) (by decide)
    | renameOld =>
      rw [hstage] at hs
      have hperform : Update.perform p binary s.fs .renameOld = _ :=
        FileSystem.rename_of_ne hs.1 p.renamedBinary_ne_filename.symm
      rw [hstage, hperform] at h
      obtain rfl := Except.ok.inj h
      refine ⟨fun _ => ?_, fun hremove => Stage.noConfusion hremove⟩
      show Function.update (Function.update s.fs p.renamedBinary (some old)) p.filename none p.tmpFile = _
      rw [Function.update_of_ne hne, Function.update_of_ne hold, hs.2]
    | renameNew =>
      have htmp := hmoved.1 hstage
      have hperform : Update.perform p binary s.fs .renameNew = _ := FileSystem.rename_of_ne htmp hne
      rw [hstage, hperform] at h
      obtain rfl := Except.ok.inj h
      refine ⟨fun hnew => Stage.noConfusion hnew, fun _ => ?_⟩
      show Function.update (Function.update s.fs p.filename (some ⟨binary, binaryPerms⟩)) p.tmpFile none p.filename = _
      rw [Function.update_of_ne hne.symm, Function.update_self]
    | remove => rw [hstage] at h; cases h

variable (hexe : fs p.filename = some old)
include hexe

/-- An installation that returns has not come to the renames. -/
theorem filename_of_returned {response : Response} {answers : List Answer} {status : UpdateStatus}
    (h : (Update.run p response fs answers).1 = some (.returned status)) :
    (Update.run p response fs answers).2 p.filename = some old := by
  unfold Update.run at h ⊢
  by_cases hstatus : response.status = some .ok
  · by_cases hpromise : response.promise = []
    · rw [if_pos hstatus, if_pos hpromise]
      exact hexe
    · rw [if_pos hstatus, if_neg hpromise] at h ⊢
      cases hrun : feed (Update.step p response.promise) ⟨.openFile, 0, fs⟩ answers with
      | ok t =>
        rw [hrun] at h
        cases h
      | error left =>
        obtain ⟨ending, fs'⟩ := left
        rw [hrun] at h
        obtain rfl : ending = .returned status := Option.some.inj h
        obtain ⟨pre, a, post, t, -, hpre, ha⟩ := feed_error_iff.1 hrun
        have hstart : Update.Holds p response.promise old fs .openFile := hexe
        exact filename_of_step hne (Update.feed_ok hne hstart hpre).1 ha
  · rw [if_neg hstatus]
    exact hexe

/-- An installation leaves the old file, the whole image of the response, or nothing. -/
theorem filename_of_run (response : Response) (answers : List Answer) :
    (Update.run p response fs answers).2 p.filename = some old ∨
      response.status = some .ok ∧ response.promise ≠ [] ∧
        ((Update.run p response fs answers).2 p.filename = some ⟨response.promise, binaryPerms⟩ ∨
          (Update.run p response fs answers).2 p.filename = none) := by
  unfold Update.run
  by_cases hstatus : response.status = some .ok
  · by_cases hpromise : response.promise = []
    · rw [if_pos hstatus, if_pos hpromise]
      exact Or.inl hexe
    · rw [if_pos hstatus, if_neg hpromise]
      rcases Update.ended_filename hne hexe answers with (hold | hnew) | hnone
      · exact Or.inl hold
      · exact Or.inr ⟨hstatus, hpromise, Or.inl hnew⟩
      · exact Or.inr ⟨hstatus, hpromise, Or.inr hnone⟩
  · rw [if_neg hstatus]
    exact Or.inl hexe

/-- An installation that starts the executable has put the image there. -/
theorem filename_of_restarted (hold : p.tmpFile ≠ p.renamedBinary) {response : Response} {answers : List Answer}
    (h : (Update.run p response fs answers).1 = some .restarted) :
    (Update.run p response fs answers).2 p.filename = some ⟨response.promise, binaryPerms⟩ := by
  unfold Update.run at h ⊢
  by_cases hstatus : response.status = some .ok
  · by_cases hpromise : response.promise = []
    · rw [if_pos hstatus, if_pos hpromise] at h
      cases h
    · rw [if_pos hstatus, if_neg hpromise] at h ⊢
      cases hrun : feed (Update.step p response.promise) ⟨.openFile, 0, fs⟩ answers with
      | ok t =>
        rw [hrun] at h
        cases h
      | error left =>
        obtain ⟨ending, fs'⟩ := left
        rw [hrun] at h
        obtain rfl : ending = .restarted := Option.some.inj h
        obtain ⟨pre, a, post, t, -, hpre, ha⟩ := feed_error_iff.1 hrun
        have hstart : Update.Holds p response.promise old fs .openFile := hexe
        have hunmoved : Moved p response.promise ⟨.openFile, 0, fs⟩  :=
          moved_of_stage .openFile rfl (by decide) (by decide)
        obtain ⟨-, hmoved⟩ : Update.Holds p response.promise old t.fs t.stage ∧ Moved p response.promise t :=
          feed_invariant (I := fun s => Update.Holds p response.promise old s.fs s.stage ∧ Moved p response.promise s)
            (fun s i t hs hstep => ⟨(Update.step_ok hne hs.1 hstep).1, moved_step hne hold hs.1 hs.2 hstep⟩)
            ⟨hstart, hunmoved⟩ hpre
        obtain ⟨hstage, rfl⟩ := stage_of_restarted ha
        exact (Function.update_of_ne p.renamedBinary_ne_filename.symm _ _).trans (hmoved.2 hstage)
  · rw [if_neg hstatus] at h
    cases h

end Install

/-! ### The hash of a process -/

theorem nul_not_mem_imageHash (image : Bytes) : NUL ∉ Device.imageHash image := by
  rw [Device.imageHash, Hex.text_nil, List.mem_flatMap]
  rintro ⟨c, -, hc⟩
  have hhigh : c.toNat / 16 < 16 := by
    have := c.toNat_lt
    omega
  rcases List.mem_cons.1 hc with hc | hc
  · exact Form.hexDigit_ne hhigh (by decide) hc.symm
  · exact Form.hexDigit_ne (Nat.mod_lt _ (by decide)) (by decide) (List.mem_singleton.1 hc).symm

/-- A process that has read the hash of its image, or not yet any. -/
structure Running.Sound (r : Running) (fs : FileSystem) : Prop where
  filename : ∃ file, fs b.filename = some file ∧ file.content = r.image
  nonempty : r.image ≠ []
  fits : r.image.length < 2 ^ b.target.longBits
  cached : r.statics.cached = true → r.statics.hash = Device.imageHash r.image

variable {b} {fs : FileSystem} {r : Running}

theorem sound_of_launch (h : launch b fs = some r) : r.Sound b fs := by
  obtain ⟨file, hfile, rfl⟩ := Option.map_eq_some_iff.1 h
  obtain ⟨hfilename, hlaunches⟩ := Option.filter_eq_some_iff.1 hfile
  have hlaunches : Launches b file := of_decide_eq_true hlaunches
  exact ⟨⟨file, hfilename, rfl⟩, hlaunches.1, hlaunches.2, fun h => by cases h⟩

theorem firmwareMD5_of_sound (h : r.Sound b fs) :
    Device.firmwareMD5 b.target b.ctx fs b.filename r.statics =
      .returned (Device.imageHash r.image, ⟨Device.imageHash r.image, true⟩) := by
  cases hcached : r.statics.cached with
  | false =>
    obtain ⟨file, hfile, himage⟩ := h.filename
    rw [← himage]
    exact Device.firmwareMD5_first b.target b.ctx hcached hfile (himage ▸ h.nonempty) (himage ▸ h.fits)
  | true =>
    have hstatics : r.statics = ⟨Device.imageHash r.image, true⟩ := by
      rw [← h.cached hcached, ← hcached]
    rw [Device.firmwareMD5_cached b.target b.ctx fs b.filename hcached, hstatics]

/-- The process behind a request -/
def Running.hashed (r : Running) : Running := { r with statics := ⟨Device.imageHash r.image, true⟩ }

theorem Running.Sound.hashed (h : r.Sound b fs) : r.hashed.Sound b fs := ⟨h.filename, h.nonempty, h.fits, fun _ => rfl⟩

/-- What a request tells and does. -/
def reportOf (image : Bytes) (response : Response) : Report :=
  ⟨image, Device.imageHash image, response, (processResponse (Device.imageHash image) response).scheduled⟩

theorem exchange_of_sound (h : r.Sound b fs) (response : Response) :
    exchange b fs r response = (processResponse (Device.imageHash r.image) response).response.bind fun processed =>
      .returned (reportOf r.image response, r.hashed, processed) := by
  have hview : cview (Device.imageHash r.image) = Device.imageHash r.image := cview_eq_self (nul_not_mem_imageHash _)
  have hsecond := firmwareMD5_of_sound h.hashed
  rw [exchange, firmwareMD5_of_sound h, Outcome.bind_returned]
  dsimp only
  rw [Device.firmwareMD5_cached b.target b.ctx fs b.filename rfl, Outcome.bind_returned]
  dsimp only
  rw [hview]
  rfl

/-! ### What every step keeps -/

/-- The report names the image of the process that has sent it, and the hook was called exactly if a server has named another
one. -/
structure Report.Truthful (report : Report) : Prop where
  version : report.version = Device.imageHash report.image
  scheduled : report.scheduled = true ↔
    (report.response.status ≠ none ∧ report.response.status ≠ some .ioError) ∧
      ∃ latest, report.response.header versionKey = some latest ∧ latest ≠ Device.imageHash report.image

theorem offersUpdate_eq_true_iff {firmwareMD5 : Bytes} {response : Response} :
    offersUpdate firmwareMD5 response = true ↔
      ∃ latest, response.header versionKey = some latest ∧ latest ≠ firmwareMD5 := by
  have hkey : response.header ⟨ascii "LATEST_VERSION", versionKey_terminated⟩ = response.header versionKey := rfl
  rw [offersUpdate, hkey]
  cases response.header versionKey with
  | none => simp
  | some latest => simp

theorem truthful_reportOf (image : Bytes) (response : Response) : (reportOf image response).Truthful where
  version := rfl
  scheduled := by
    show (processResponse (Device.imageHash image) response).scheduled = true ↔
      (response.status ≠ none ∧ response.status ≠ some .ioError) ∧
        ∃ latest, response.header versionKey = some latest ∧ latest ≠ Device.imageHash image
    rw [← offersUpdate_eq_true_iff, processResponse]
    cases response.status with
    | none => simp
    | some status => cases status <;> simp

structure State.Sound (b : Board) (s : State) : Prop where
  running : ∀ r, s.running = some r → r.Sound b s.fs
  reports : ∀ report ∈ s.reports, report.Truthful

theorem State.Sound.append {s : State} (h : s.Sound b) (image : Bytes) (response : Response) :
    ∀ report ∈ s.reports ++ [reportOf image response], report.Truthful := by
  intro report hreport
  rcases List.mem_append.1 hreport with hreport | hreport
  · exact h.reports report hreport
  · exact List.mem_singleton.1 hreport ▸ truthful_reportOf image response

/-- An installation keeps its process, with its file, or makes a new one of the file that it leaves. -/
theorem running_of_install {s : State} {tmpFile : Path} (hr : r.Sound b s.fs) (htmp : s.fs tmpFile = none)
    {response : Response} {answers : List Answer} {r' : Running}
    (h : (install b s r tmpFile response answers).running = some r') :
    r' = r ∧ (install b s r tmpFile response answers).fs b.filename = s.fs b.filename ∨
      launch b (install b s r tmpFile response answers).fs = some r' := by
  obtain ⟨old, hold, -⟩ := hr.filename
  have hne : (b.process tmpFile).tmpFile ≠ (b.process tmpFile).filename := by
    intro heq
    have hsome : s.fs tmpFile = some old := (congrArg s.fs heq).trans hold
    rw [htmp] at hsome
    cases hsome
  have hreturned : ∀ status, (Update.run (b.process tmpFile) response s.fs answers).1 = some (.returned status) →
      (Update.run (b.process tmpFile) response s.fs answers).2 b.filename = some old :=
    fun status h => filename_of_returned hne hold h
  simp only [install] at h ⊢
  revert h hreturned
  cases (Update.run (b.process tmpFile) response s.fs answers).1 with
  | none =>
    intro h _
    cases h
  | some ending =>
    cases ending with
    | returned status =>
      intro h hreturned
      exact Or.inl ⟨(Option.some.inj h).symm, (hreturned status rfl).trans hold.symm⟩
    | terminated =>
      intro h _
      cases h
    | restarted => exact fun h _ => Or.inr h

/-! ### Steps -/

variable {s t : State}

theorem step_request (h : s.Sound b) {response : Response} (hstep : step b s (.request response) = some t) :
    ∃ r, s.running = some r ∧
      t = { s with running := some r.hashed, reports := s.reports ++ [reportOf r.image response] } := by
  obtain ⟨r, hr, hstep⟩ := Option.bind_eq_some_iff.1 hstep
  refine ⟨r, hr, ?_⟩
  rw [exchange_of_sound (h.running r hr)] at hstep
  rcases processResponse_cases (Device.imageHash r.image) response with ⟨processed, hprocessed⟩ | hundefined
  · rw [hprocessed] at hstep
    exact (Option.some.inj hstep).symm
  · rw [hundefined] at hstep
    cases hstep

theorem step_update (h : s.Sound b) {tmpFile : Path} {session : Option Response} {answers : List Answer}
    (hstep : step b s (.update tmpFile session answers) = some t) :
    s.fs tmpFile = none ∧ ∃ r, s.running = some r ∧
      (session = none ∧ t = install b s r tmpFile (.ofStatus .ioError) answers ∨
        ∃ response processed, session = some response ∧
          (processResponse (Device.imageHash r.image) response).response = .returned processed ∧
          t = install b { s with reports := s.reports ++ [reportOf r.image response] } r.hashed tmpFile processed
            answers) := by
  simp only [step] at hstep
  split at hstep
  · cases hstep
  · rename_i htmp
    obtain ⟨r, hr, hstep⟩ := Option.bind_eq_some_iff.1 hstep
    refine ⟨not_not.1 htmp, r, hr, ?_⟩
    cases session with
    | none => exact Or.inl ⟨rfl, (Option.some.inj hstep).symm⟩
    | some response =>
      dsimp only at hstep
      rw [exchange_of_sound (h.running r hr)] at hstep
      rcases processResponse_cases (Device.imageHash r.image) response with ⟨processed, hprocessed⟩ | hundefined
      · rw [hprocessed] at hstep
        exact Or.inr ⟨response, processed, rfl, hprocessed, (Option.some.inj hstep).symm⟩
      · rw [hundefined] at hstep
        cases hstep

theorem request_of_returned (h : s.Sound b) (hr : s.running = some r) {response processed : Response}
    (hprocessed : (processResponse (Device.imageHash r.image) response).response = .returned processed) :
    step b s (.request response) =
      some { s with running := some r.hashed, reports := s.reports ++ [reportOf r.image response] } := by
  simp only [step, hr, Option.bind_some]
  rw [exchange_of_sound (h.running r hr), hprocessed]
  rfl

theorem update_of_returned (h : s.Sound b) (hr : s.running = some r) (tmpFile : Path) (htmp : s.fs tmpFile = none)
    {response processed : Response}
    (hprocessed : (processResponse (Device.imageHash r.image) response).response = .returned processed)
    (answers : List Answer) :
    step b s (.update tmpFile (some response) answers) =
      some (install b { s with reports := s.reports ++ [reportOf r.image response] } r.hashed tmpFile processed
        answers) := by
  simp only [step, htmp, hr]
  rw [if_neg (by simp), Option.bind_some, exchange_of_sound (h.running r hr), hprocessed]
  rfl

theorem step_start (hstep : step b s .start = some t) :
    s.running = none ∧ ∃ r, launch b s.fs = some r ∧ t = { s with running := some r } := by
  simp only [step] at hstep
  split at hstep
  · cases hstep
  · rename_i hrunning
    obtain ⟨r, hr, rfl⟩ := Option.map_eq_some_iff.1 hstep
    exact ⟨Option.not_isSome_iff_eq_none.1 hrunning, r, hr, rfl⟩

theorem Running.Sound.of_filename {fs' : FileSystem} (h : r.Sound b fs) (hfile : fs' b.filename = fs b.filename) :
    r.Sound b fs' := ⟨by rw [hfile]; exact h.filename, h.nonempty, h.fits, h.cached⟩

theorem sound_install {tmpFile : Path} (hr : r.Sound b s.fs) (htmp : s.fs tmpFile = none)
    (hreports : ∀ report ∈ s.reports, report.Truthful) (response : Response) (answers : List Answer) :
    (install b s r tmpFile response answers).Sound b := by
  refine ⟨fun r' hr' => ?_, hreports⟩
  rcases running_of_install hr htmp hr' with ⟨rfl, hfile⟩ | hlaunch
  · exact hr.of_filename hfile
  · exact sound_of_launch hlaunch

/-- A process and the file it was started from stay together, and every report is truthful. -/
theorem sound_step {a : Action} (h : s.Sound b) (hstep : step b s a = some t) : t.Sound b := by
  cases a with
  | request response =>
    obtain ⟨r, hr, rfl⟩ := step_request h hstep
    exact ⟨fun r' hr' => Option.some.inj hr' ▸ (h.running r hr).hashed, h.append r.image response⟩
  | update tmpFile session answers =>
    obtain ⟨htmp, r, hr, ⟨-, rfl⟩ | ⟨response, processed, -, -, rfl⟩⟩ := step_update h hstep
    · exact sound_install (h.running r hr) htmp h.reports _ answers
    · exact sound_install (s := { s with reports := s.reports ++ [reportOf r.image response] }) (h.running r hr).hashed htmp
        (h.append r.image response) _ answers
  | kill =>
    obtain ⟨r, -, rfl⟩ := Option.map_eq_some_iff.1 hstep
    exact ⟨fun r' hr' => (by cases hr'), h.reports⟩
  | start =>
    obtain ⟨-, r, hr, rfl⟩ := step_start hstep
    exact ⟨fun r' hr' => Option.some.inj hr' ▸ sound_of_launch hr, h.reports⟩

/-- A device before its first start -/
def State.off (fs : FileSystem) : State := ⟨fs, none, []⟩

theorem sound_of_run {actions : List Action} (hrun : run (step b) (State.off fs) actions = some s) : s.Sound b := by
  refine run_invariant (fun _ _ _ h hstep => sound_step h hstep) ⟨fun r hr => ?_, fun report hreport => ?_⟩ hrun
  · cases hr
  · cases hreport

/-! ### The images of a device -/

/-- The images of the responses that an update installs. -/
def served : Action → Option Bytes
  | .update _ (some response) _ =>
    if response.status = some .ok ∧ response.promise ≠ [] then some response.promise else none
  | _ => none

/-- What the executable's path names and what runs is one of some images. -/
structure State.Known (b : Board) (images : List Bytes) (s : State) : Prop where
  sound : s.Sound b
  file : ∀ file, s.fs b.filename = some file → file.content ∈ images
  running : ∀ r, s.running = some r → r.image ∈ images

theorem image_of_launch (h : launch b fs = some r) : ∃ file, fs b.filename = some file ∧ file.content = r.image := by
  obtain ⟨file, hfile, rfl⟩ := Option.map_eq_some_iff.1 h
  exact ⟨file, (Option.filter_eq_some_iff.1 hfile).1, rfl⟩

/-- The callback hands on the payload of a success and no other. -/
theorem promise_of_processed {firmwareMD5 : Bytes} {response processed : Response}
    (hprocessed : (processResponse firmwareMD5 response).response = .returned processed)
    (hpromise : processed.promise ≠ []) : response.status = some .ok ∧ processed.promise = response.promise := by
  by_cases hok : response.status = some .ok
  · by_cases hpayload : response.promise = []
    · rw [processResponse_empty firmwareMD5 hok hpayload] at hprocessed
      cases hprocessed
    · rw [processResponse_ok firmwareMD5 hok hpayload] at hprocessed
      exact ⟨hok, Outcome.returned.inj hprocessed ▸ rfl⟩
  · -- any other response comes back as a code, without a payload
    rw [processResponse_of_not_ok firmwareMD5 hok] at hprocessed
    exact absurd (Outcome.returned.inj hprocessed ▸ rfl) hpromise

theorem filename_of_install {tmpFile : Path} (hr : r.Sound b s.fs) (htmp : s.fs tmpFile = none) (response : Response)
    (answers : List Answer) {file : File}
    (h : (install b s r tmpFile response answers).fs b.filename = some file) :
    s.fs b.filename = some file ∨
      response.status = some .ok ∧ response.promise ≠ [] ∧ file = ⟨response.promise, binaryPerms⟩ := by
  obtain ⟨old, hold, -⟩ := hr.filename
  have hne : (b.process tmpFile).tmpFile ≠ (b.process tmpFile).filename := by
    intro heq
    have hsome : s.fs tmpFile = some old := (congrArg s.fs heq).trans hold
    rw [htmp] at hsome
    cases hsome
  have hexe : s.fs (b.process tmpFile).filename = some old := hold
  rcases filename_of_run hne hexe response answers with hkept | ⟨hstatus, hpromise, hnew | hnone⟩
  · exact Or.inl (hold.trans (hkept.symm.trans h))
  · exact Or.inr ⟨hstatus, hpromise, Option.some.inj (h.symm.trans hnew)⟩
  · exact absurd (h.symm.trans hnone) (by simp)

theorem known_install {images : List Bytes} {tmpFile : Path} (hr : r.Sound b s.fs) (htmp : s.fs tmpFile = none)
    (hfile : ∀ file, s.fs b.filename = some file → file.content ∈ images) {response : Response}
    (hserved : response.status = some .ok → response.promise ≠ [] → response.promise ∈ images) (answers : List Answer) :
    (∀ file, (install b s r tmpFile response answers).fs b.filename = some file → file.content ∈ images) ∧
      ∀ r', (install b s r tmpFile response answers).running = some r' → r'.image ∈ images := by
  have hfiles : ∀ file, (install b s r tmpFile response answers).fs b.filename = some file → file.content ∈ images := by
    intro file h
    rcases filename_of_install hr htmp response answers h with hkept | ⟨hstatus, hpromise, rfl⟩
    · exact hfile file hkept
    · exact hserved hstatus hpromise
  refine ⟨hfiles, fun r' hr' => ?_⟩
  rcases running_of_install hr htmp hr' with ⟨rfl, -⟩ | hlaunch
  · obtain ⟨file, hold, himage⟩ := hr.filename
    exact himage ▸ hfile file hold
  · obtain ⟨file, hnew, himage⟩ := image_of_launch hlaunch
    exact himage ▸ hfiles file hnew

theorem known_step {images : List Bytes} {a : Action} (ha : ∀ image, served a = some image → image ∈ images)
    (h : s.Known b images) (hstep : step b s a = some t) : t.Known b images := by
  have hsound := sound_step h.sound hstep
  cases a with
  | request response =>
    obtain ⟨r, hr, rfl⟩ := step_request h.sound hstep
    exact ⟨hsound, h.file, fun r' hr' => Option.some.inj hr' ▸ h.running r hr⟩
  | update tmpFile session answers =>
    obtain ⟨htmp, r, hr, ⟨-, rfl⟩ | ⟨response, processed, rfl, hprocessed, rfl⟩⟩ := step_update h.sound hstep
    · have hnot : (Response.ofStatus .ioError).status = some .ok →
          (Response.ofStatus .ioError).promise ≠ [] → (Response.ofStatus .ioError).promise ∈ images := by
        intro hstatus
        cases hstatus
      obtain ⟨hfile, hrunning⟩ := known_install (h.sound.running r hr) htmp h.file hnot answers
      exact ⟨hsound, hfile, hrunning⟩
    · have hserved : processed.status = some .ok → processed.promise ≠ [] → processed.promise ∈ images := by
        intro _ hpromise
        obtain ⟨hok, hpayload⟩ := promise_of_processed hprocessed hpromise
        rw [hpayload] at hpromise ⊢
        exact ha response.promise (if_pos ⟨hok, hpromise⟩)
      obtain ⟨hfile, hrunning⟩ := known_install
        (s := { s with reports := s.reports ++ [reportOf r.image response] }) (h.sound.running r hr).hashed htmp h.file
        hserved answers
      exact ⟨hsound, hfile, hrunning⟩
  | kill =>
    obtain ⟨r, -, rfl⟩ := Option.map_eq_some_iff.1 hstep
    exact ⟨hsound, h.file, fun r' hr' => by cases hr'⟩
  | start =>
    obtain ⟨-, r, hr, rfl⟩ := step_start hstep
    refine ⟨hsound, h.file, fun r' hr' => ?_⟩
    obtain rfl := Option.some.inj hr'
    obtain ⟨file, hfile, himage⟩ := image_of_launch hr
    exact himage ▸ h.file file hfile

/-! ### Runs -/

/-- A device with the executable and the paths of an installation -/
def board : Board where
  target := ⟨64, true, by decide⟩
  ctx := Md5.wiped
  currentPath := Update.device.currentPath
  executionPath := Update.device.executionPath
  createMode := Update.device.createMode

/-- A response that names another version -/
def newer : Response := .ofHeaders [(ascii "latest_version", ascii "0CC175B9C0F1B6A831C399E269772661")] [] 401

/-- In every order of requests, updates, crashes and starts, every report names the image of the process that has sent it, and
the hook is called exactly when a server has named another one. -/
theorem truthful_of_run {actions : List Action} (hrun : run (step b) (State.off fs) actions = some s) :
    ∀ report ∈ s.reports, report.Truthful :=
  (sound_of_run hrun).reports

theorem run_board_start :
    run (step board) (State.off Update.files) [.start] = some ⟨Update.files, some ⟨ascii "v1", .fresh⟩, []⟩ := rfl

theorem tmpFile_unused : Update.files Update.device.tmpFile = none := by decide

theorem processed_firmware : (processResponse (Device.imageHash (ascii "v1")) Update.firmware).response =
    .returned (.ofPayload Update.firmware.promise .ok) := processResponse_ok _ rfl (by decide)

theorem truthful_of_request :
    ∃ s, run (step board) (State.off Update.files) [.start, .request newer] = some s ∧
      s.reports = [reportOf (ascii "v1") newer] ∧ ∀ report ∈ s.reports, report.Truthful := by
  have hprocessed : (processResponse (Device.imageHash (ascii "v1")) newer).response = .returned (.ofCode newer.code) :=
    processResponse_of_not_ok _ (by decide)
  have hstep := request_of_returned (sound_of_run run_board_start) rfl hprocessed
  have hrun : run (step board) (State.off Update.files) [.start, .request newer] = some _ :=
    (run_append_some run_board_start [.request newer]).trans ((run_cons_some hstep []).trans rfl)
  exact ⟨_, hrun, rfl, truthful_of_run hrun⟩

theorem known_of_run {actions : List Action} {file : File} (hfile : fs b.filename = some file)
    (hrun : run (step b) (State.off fs) actions = some s) : s.Known b (file.content :: actions.filterMap served) := by
  refine run_invariant_of (fun a => ∀ image, served a = some image → image ∈ file.content :: actions.filterMap served)
    (fun _ _ _ ha h hstep => known_step ha h hstep) (fun a ha image himage => ?_) ⟨⟨?_, ?_⟩, ?_, ?_⟩ hrun
  · exact List.mem_cons_of_mem _ (List.mem_filterMap.2 ⟨a, ha, himage⟩)
  · exact fun r hr => by cases hr
  · exact fun report hreport => by cases hreport
  · intro file' hfile'
    rw [Option.some.inj (hfile'.symm.trans hfile)]
    exact List.mem_cons_self
  · exact fun r hr => by cases hr

/-- What is under the executable's path, and what runs, is the first image or the whole payload of a response. -/
theorem whole_of_run {actions : List Action} {file : File} (hfile : fs b.filename = some file)
    (hrun : run (step b) (State.off fs) actions = some s) :
    (∀ file', s.fs b.filename = some file' → file'.content ∈ file.content :: actions.filterMap served) ∧
      ∀ r, s.running = some r → r.image ∈ file.content :: actions.filterMap served :=
  ⟨(known_of_run hfile hrun).file, (known_of_run hfile hrun).running⟩

/-- Killed between the renames. -/
theorem whole_of_killed :
    ∃ s, run (step board) (State.off Update.files)
        [.start, .update Update.device.tmpFile (some Update.firmware) (List.replicate 7 .ok)] = some s ∧
      (∀ file', s.fs board.filename = some file' → file'.content ∈ [ascii "v1", ascii "v2"]) ∧
        ∀ r, s.running = some r → r.image ∈ [ascii "v1", ascii "v2"] := by
  have hfile : Update.files board.filename = some Update.oldBinary := by decide
  have hstep := update_of_returned (sound_of_run run_board_start) rfl Update.device.tmpFile tmpFile_unused
    processed_firmware (List.replicate 7 .ok)
  have hrun : run (step board) (State.off Update.files)
      [.start, .update Update.device.tmpFile (some Update.firmware) (List.replicate 7 .ok)] = some _ :=
    (run_append_some run_board_start _).trans ((run_cons_some hstep []).trans rfl)
  obtain ⟨hfiles, hrunning⟩ := whole_of_run hfile hrun
  exact ⟨_, hrun, hfiles, hrunning⟩

/-! ### Servers that have one image -/

/-- A response of a server that has this image and no other. -/
structure Offers (image : Bytes) (response : Response) : Prop where
  version : ∀ latest, response.header versionKey = some latest → latest = Device.imageHash image
  payload : response.status = some .ok → response.promise ≠ [] → response.promise = image

def Action.Offers (image : Bytes) : Action → Prop
  | .request response => ∀ latest, response.header versionKey = some latest → latest = Device.imageHash image
  | .update _ session _ => ∀ response, session = some response → Cycle.Offers image response
  | _ => True

/-- The device runs this image, and nothing has been scheduled since these reports. -/
structure State.Settled (b : Board) (image : Bytes) (reports : List Report) (s : State) : Prop where
  known : s.Known b [image]
  quiet : ∃ new, s.reports = reports ++ new ∧ ∀ report ∈ new, report.scheduled = false

theorem quiet_report {image : Bytes} {response : Response}
    (h : ∀ latest, response.header versionKey = some latest → latest = Device.imageHash image) :
    (reportOf image response).scheduled = false := by
  by_contra hscheduled
  obtain ⟨-, latest, hlatest, hne⟩ := (truthful_reportOf image response).scheduled.1 (Bool.not_eq_false _ ▸ hscheduled)
  exact hne (h latest hlatest)

theorem settled_step {image : Bytes} {reports : List Report} {a : Action} (ha : a.Offers image)
    (h : s.Settled b image reports) (hstep : step b s a = some t) : t.Settled b image reports := by
  obtain ⟨new, hnew, hquiet⟩ := h.quiet
  have hmore : ∀ {r : Running} {response : Response}, s.running = some r →
      (∀ latest, response.header versionKey = some latest → latest = Device.imageHash image) →
      ∃ new, s.reports ++ [reportOf r.image response] = reports ++ new ∧ ∀ report ∈ new, report.scheduled = false := by
    intro r response hr hversion
    have himage : r.image = image := List.mem_singleton.1 (h.known.running r hr)
    refine ⟨new ++ [reportOf r.image response], by rw [hnew, List.append_assoc], fun report hreport => ?_⟩
    rcases List.mem_append.1 hreport with hreport | hreport
    · exact hquiet report hreport
    · rw [List.mem_singleton.1 hreport]
      exact quiet_report (himage ▸ hversion)
  have hserved : ∀ image', served a = some image' → image' ∈ [image] := by
    intro image' himage'
    unfold served at himage'
    split at himage'
    · rename_i tmpFile response answers
      split at himage'
      · rename_i hpayload
        rw [List.mem_singleton, ← Option.some.inj himage']
        exact (ha response rfl).payload hpayload.1 hpayload.2
      · cases himage'
    · cases himage'
  have hknown := known_step hserved h.known hstep
  cases a with
  | request response =>
    obtain ⟨r, hr, rfl⟩ := step_request h.known.sound hstep
    exact ⟨hknown, hmore hr ha⟩
  | update tmpFile session answers =>
    obtain ⟨-, r, hr, ⟨-, rfl⟩ | ⟨response, processed, hsession, -, rfl⟩⟩ := step_update h.known.sound hstep
    · exact ⟨hknown, new, hnew, hquiet⟩
    · exact ⟨hknown, hmore hr (ha response hsession).version⟩
  | kill =>
    obtain ⟨r, -, rfl⟩ := Option.map_eq_some_iff.1 hstep
    exact ⟨hknown, new, hnew, hquiet⟩
  | start =>
    obtain ⟨-, r, -, rfl⟩ := step_start hstep
    exact ⟨hknown, new, hnew, hquiet⟩

/-- An update that comes to its end runs the image of its response. -/
theorem step_restarted {tmpFile : Path} {response processed : Response} {answers : List Answer} (h : s.Sound b)
    (hr : s.running = some r) (htmp : s.fs tmpFile = none) (hold : tmpFile ≠ (b.process tmpFile).renamedBinary)
    (hok : response.status = some .ok) (hfits : response.promise.length < 2 ^ b.target.longBits)
    (hprocessed : (processResponse (Device.imageHash r.image) response).response = .returned processed)
    (hends : (Update.run (b.process tmpFile) processed s.fs answers).1 = some .restarted) :
    ∃ t r', step b s (.update tmpFile (some response) answers) = some t ∧ t.running = some r' ∧
      r'.image = response.promise ∧ ∃ mode, t.fs b.filename = some ⟨response.promise, mode⟩ := by
  have hpromise : response.promise ≠ [] := by
    intro hnil
    rw [processResponse_empty (Device.imageHash r.image) hok hnil] at hprocessed
    cases hprocessed
  obtain rfl := Outcome.returned.inj (hprocessed.symm.trans (processResponse_ok (Device.imageHash r.image) hok hpromise))
  obtain ⟨old, hexe, -⟩ := (h.running r hr).filename
  have hne : (b.process tmpFile).tmpFile ≠ (b.process tmpFile).filename := by
    intro heq
    have hsome : s.fs tmpFile = some old := (congrArg s.fs heq).trans hexe
    rw [htmp] at hsome
    cases hsome
  have hexe' : s.fs (b.process tmpFile).filename = some old := hexe
  have hnew := filename_of_restarted hne hexe' hold hends
  have hlaunch : launch b (Update.run (b.process tmpFile) (.ofPayload response.promise .ok) s.fs answers).2 =
      some ⟨response.promise, .fresh⟩ := by
    have hfile : (Update.run (b.process tmpFile) (.ofPayload response.promise .ok) s.fs answers).2 b.filename =
        some ⟨response.promise, binaryPerms⟩ := hnew
    have hlaunches : Launches b ⟨response.promise, binaryPerms⟩ := ⟨hpromise, hfits⟩
    have hkept : (some (⟨response.promise, binaryPerms⟩ : File)).filter (fun file => Launches b file) =
        some ⟨response.promise, binaryPerms⟩ := Option.filter_some_pos (decide_eq_true hlaunches)
    rw [launch, hfile, hkept]
    rfl
  refine ⟨install b { s with reports := s.reports ++ [reportOf r.image response] } r.hashed tmpFile
    (.ofPayload response.promise .ok) answers, ⟨response.promise, .fresh⟩,
    update_of_returned h hr tmpFile htmp hprocessed answers, ?_, rfl, binaryPerms, ?_⟩
  · simp only [install, hends]
    exact hlaunch
  · simp only [install]
    exact hnew

end IopHal.Cycle
