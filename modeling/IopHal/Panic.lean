import IopHal.Device
import IopHal.Log
import IopHal.Library.Feed

/-!
# Panics

`iop::panicHandler` with `PanicHook::defaultEntry` and hooks that do what they like, to panic again included.  A handler
never returns, so a panic inside a hook abandons whatever was going on below it: the state needs no stack, only what the
innermost handler still has to do.

The hooks' behaviour is the input (`Label`): a run is a list of labels and stands for one behaviour of all hooks it
reaches.  `cleanup_iff_printed` is the exact account of the cleanup: between the print hook that returns and the cleanup
hook there is nothing that could stop (`Holds`), and the guard against re-entry stops without either.

`Thread::halt` is not the end: on Linux its `deepSleep(0)` comes back at once, and `Thread::abort` behind it has a tracer
of its own.  What the hooks do there is part of the run.
-/

namespace IopHal

namespace Panic

open Feed

/-- The message of a panic and the place it comes from. -/
structure Message where
  msg : LogText
  point : CodePoint

/-- A call of a user-replaceable function, or of `Wifi::status`, which makes a request on Linux and logs meanwhile. -/
inductive HookCall
  | log (call : LogHookCall)
  | status
  | viewPanic (msg : Bytes) (point : CodePoint)
  | staticPanic (msg : StaticString) (point : CodePoint)
  | cleanup
  | halt (msg : Bytes) (point : CodePoint)

/-- How a hook ends: it comes back, raises a panic, or calls `Thread::halt` or `Thread::abort`. -/
inductive HookEnd
  | returns
  | panics (p : Message)
  | halts
  | aborts

inductive Op
  | log (op : LogOp)
  | call (hook : HookCall)
  -- reads the memory, logs it and asks for the network status
  | report (target : StaticString) (level : LogLevel)
  -- logs the status
  | connection (target : StaticString) (level : LogLevel)
  -- the test of `isPanicking` in `defaultEntry`, and the branch it takes
  | guard (p : Message)
  | halt
  -- `device.deepSleep(0)`
  | deepSleep
  | abort
  -- the process is over
  | stop

/-- What the build fixes: the log, the places of the five tracers, and whether `deepSleep(0)` comes back. -/
structure Config where
  log : LogConfig
  viewHandler : CodePoint
  staticHandler : CodePoint
  defaultEntry : CodePoint
  halt : CodePoint
  abort : CodePoint
  wakes : Bool

section Code

variable (cfg : Config)

def logs (calls : List LogCall) : List Op := (calls.flatMap (LogCall.ops cfg.log)).map .log

/-- `IOP_TRACE()` at the start of a scope. -/
def traceEnter (point : CodePoint) : List Op :=
  if cfg.log.isTracing then logs cfg (enterScope point) ++ [.report tracerName .TRACE] else []

/-- `Thread::halt` -/
def threadHalt : List Op := traceEnter cfg cfg.halt ++ [.deepSleep, .abort]

/-- `Thread::abort`, with what the target ends with behind the tracer. -/
def threadAbort : List Op := traceEnter cfg cfg.abort ++ [.stop]

/-- The end of a scope that `IOP_TRACE()` watches. -/
def traceLeave (point : CodePoint) : List Op :=
  if cfg.log.isTracing then logs cfg (leaveScope point) else []

def panicLogger : StaticString := iopStr "PANIC"

/-- `panicLogger().crit(msg)` -/
def crit (msg : LogText) : LogCall := ⟨panicLogger, .CRIT, false, msg⟩

def critln (msg : LogText) : LogCall := ⟨panicLogger, .CRIT, true, msg⟩

/-- `defaultEntry` when a panic is under way already. -/
def reentry (p : Message) : List Op :=
  logs cfg
      [crit (logStr "PANICK REENTRY: Line "), crit (logNumber p.point.line), crit (logStr " of file "),
        crit (.progmem p.point.file), crit (logStr " inside "), crit (.progmem p.point.func), crit colonText,
        critln (.view p.msg.toView)] ++
    (if cfg.log.level.value > LogLevel.INFO.value then [] else [.report panicLogger .INFO]) ++
    [.halt]

/-- The print hook of a panic: `viewPanic` or `staticPanic`. -/
def printHook (p : Message) : HookCall :=
  match p.msg with
  | .view msg => .viewPanic msg p.point
  | .progmem msg => .staticPanic msg p.point

def handlerPoint (p : Message) : CodePoint :=
  match p.msg with
  | .view _ => cfg.viewHandler
  | .progmem _ => cfg.staticHandler

/-- The handler behind the cleanup. -/
def ending (p : Message) : List Op := [.call (.halt p.msg.toView p.point), .abort]

/-- The handler behind `entry`. -/
def closing (p : Message) : List Op := .call (printHook p) :: .call .cleanup :: ending p

/-- `panicHandler`, with `entry` and its call in line. -/
def panicHandler (p : Message) : List Op :=
  traceEnter cfg (handlerPoint cfg p) ++ (traceEnter cfg cfg.defaultEntry ++ .guard p :: closing p)

end Code

/-! ### Runs -/

/-- What drives a step: nothing, what the device reads, or the end of a call and the line state it leaves. -/
inductive Label
  | silent
  | measures (memory : Memory) (connected : Bool)
  | hook (state : LogType) (ends : HookEnd)

/-- The innermost handler, the two globals, and the hooks called so far, the last one first. -/
structure State where
  program : List Op
  isPanicking : Bool
  logState : LogType
  events : List (HookCall × HookEnd)

variable (cfg : Config)

/-- What is left to do behind a hook. -/
def resume (rest : List Op) : HookEnd → List Op
  | .returns => rest
  | .panics p => panicHandler cfg p
  | .halts => [.halt]
  | .aborts => [.abort]

/-- One operation.  There is no step where the label is not one for it, the process is over or the device sleeps on. -/
def step (s : State) (label : Label) : Except Unit State :=
  match s.program, label with
  | .log op :: rest, .silent =>
    let done := op.perform cfg.log s.logState
    .ok { s with program := done.2.map (fun c => .call (.log c)) ++ rest, logState := done.1 }
  | .report target level :: rest, .measures memory _ =>
    .ok { s with program := logs cfg (reportMemory target level memory) ++ .call .status :: .connection target level :: rest }
  | .connection target level :: rest, .measures _ connected =>
    .ok { s with program := logs cfg (reportConnection target level connected) ++ rest }
  | .guard p :: rest, .silent =>
    if s.isPanicking then .ok { s with program := reentry cfg p }
    -- the second that the device sleeps here calls no hook
    else .ok { s with program := traceLeave cfg cfg.defaultEntry ++ rest, isPanicking := true }
  | .call hook :: rest, .hook logState ends =>
    .ok { s with program := resume cfg rest ends, logState := logState, events := (hook, ends) :: s.events }
  -- neither comes back, so what is behind the call is given up
  | .halt :: _, .silent => .ok { s with program := threadHalt cfg }
  | .abort :: _, .silent => .ok { s with program := threadAbort cfg }
  | .deepSleep :: rest, .silent => if cfg.wakes then .ok { s with program := rest } else .error ()
  | _, _ => .error ()

/-- A panic where none is under way. -/
def start (logState : LogType) (p : Message) : State := ⟨panicHandler cfg p, false, logState, []⟩

/-- The run is at a call of `Thread::halt` or of `Thread::abort`. -/
def State.Stopped (s : State) : Prop := ∃ rest, s.program = .halt :: rest ∨ s.program = .abort :: rest

def HookCall.isPrint : HookCall → Bool
  | viewPanic .. => true
  | staticPanic .. => true
  | _ => false

/-- The cleanup hook has been invoked. -/
def Cleaned (events : List (HookCall × HookEnd)) : Prop := ∃ e ∈ events, e.1 = .cleanup

/-- The print hook of a panic has come back. -/
def Printed (events : List (HookCall × HookEnd)) : Prop := ∃ e ∈ events, e.1.isPrint = true ∧ e.2 = .returns

theorem cleaned_cons {hook : HookCall} {ends : HookEnd} {events : List (HookCall × HookEnd)} :
    Cleaned ((hook, ends) :: events) ↔ hook = .cleanup ∨ Cleaned events := by
  simp only [Cleaned, List.exists_mem_cons_iff]

theorem printed_cons {hook : HookCall} {ends : HookEnd} {events : List (HookCall × HookEnd)} :
    Printed ((hook, ends) :: events) ↔ (hook.isPrint = true ∧ ends = .returns) ∨ Printed events := by
  simp only [Printed, List.exists_mem_cons_iff]

theorem isPrint_printHook (p : Message) : (printHook p).isPrint = true := by
  unfold printHook
  cases p.msg <;> rfl

/-! ### What is left to do -/

/-- The operations of the logging around the handler's own steps. -/
inductive Quiet : Op → Prop
  | log (op : LogOp) : Quiet (.log op)
  | call (c : LogHookCall) : Quiet (.call (.log c))
  | status : Quiet (.call .status)
  | report (target : StaticString) (level : LogLevel) : Quiet (.report target level)
  | connection (target : StaticString) (level : LogLevel) : Quiet (.connection target level)

/-- What a handler may have left to do, at any point but one: between its print hook and its cleanup. -/
inductive Rest : List Op → Prop
  | quiet {op : Op} {ops : List Op} : Quiet op → Rest ops → Rest (op :: ops)
  | guard (p : Message) : Rest (.guard p :: closing p)
  | closing (p : Message) : Rest (closing p)
  | ending (p : Message) : Rest (ending p)
  | halt : Rest [.halt]
  | deepSleep : Rest [.deepSleep, .abort]
  | abort : Rest [.abort]
  | stop : Rest [.stop]

/-- What holds of a rest of the program, and stays when a quiet step comes in front, holds behind any quiet steps. -/
theorem quiet_append {P : List Op → Prop} (hstep : ∀ op ops, Quiet op → P ops → P (op :: ops)) {quiet ops : List Op}
    (hquiet : ∀ op ∈ quiet, Quiet op) (h : P ops) : P (quiet ++ ops) := by
  induction quiet with
  | nil => exact h
  | cons op quiet ih =>
    rw [List.forall_mem_cons] at hquiet
    exact hstep op _ hquiet.1 (ih hquiet.2)

theorem Rest.append {quiet ops : List Op} (hquiet : ∀ op ∈ quiet, Quiet op) (h : Rest ops) : Rest (quiet ++ ops) :=
  quiet_append (fun _ _ => .quiet) hquiet h

theorem quiet_calls (calls : List LogHookCall) : ∀ op ∈ calls.map fun c => Op.call (.log c), Quiet op := by
  intro op hop
  obtain ⟨c, -, rfl⟩ := List.mem_map.1 hop
  exact .call c

variable {cfg : Config}

theorem quiet_logs (calls : List LogCall) : ∀ op ∈ logs cfg calls, Quiet op := by
  intro op hop
  obtain ⟨o, -, rfl⟩ := List.mem_map.1 hop
  exact .log o

theorem quiet_traceEnter (point : CodePoint) : ∀ op ∈ traceEnter cfg point, Quiet op := by
  intro op hop
  unfold traceEnter at hop
  split at hop
  · rcases List.mem_append.1 hop with h | h
    · exact quiet_logs _ op h
    · rw [List.mem_singleton.1 h]
      exact .report ..
  · cases hop

theorem quiet_traceLeave (point : CodePoint) : ∀ op ∈ traceLeave cfg point, Quiet op := by
  intro op hop
  unfold traceLeave at hop
  split at hop
  · exact quiet_logs _ op hop
  · cases hop

/-- A report of the memory, as far as the status. -/
theorem quiet_report (target : StaticString) (level : LogLevel) (calls : List LogCall) :
    ∀ op ∈ logs cfg calls ++ [.call .status, .connection target level], Quiet op := by
  intro op hop
  rcases List.mem_append.1 hop with h | h
  · exact quiet_logs _ op h
  · rcases List.mem_pair.1 h with rfl | rfl
    · exact .status
    · exact .connection target level

theorem rest_panicHandler (p : Message) : Rest (panicHandler cfg p) :=
  .append (quiet_traceEnter _) (.append (quiet_traceEnter _) (.guard p))

theorem rest_reentry (p : Message) : Rest (reentry cfg p) := by
  unfold reentry
  rw [List.append_assoc]
  apply Rest.append (quiet_logs _)
  apply Rest.append _ .halt
  intro op hop
  split at hop
  · cases hop
  · rw [List.mem_singleton.1 hop]
    exact .report ..

theorem rest_threadHalt : Rest (threadHalt cfg) := .append (quiet_traceEnter _) .deepSleep

theorem rest_threadAbort : Rest (threadAbort cfg) := .append (quiet_traceEnter _) .stop

/-- Wherever a hook leads from a place that is not just before the cleanup, it is not just before the cleanup. -/
theorem rest_resume {ops : List Op} (h : Rest ops) (ends : HookEnd) : Rest (resume cfg ops ends) := by
  cases ends with
  | returns => exact h
  | panics p => exact rest_panicHandler p
  | halts => exact .halt
  | aborts => exact .abort

/-! ### Single steps -/

section Step

variable {s t : State} {rest : List Op} {label : Label}

theorem step_log {op : LogOp} (hprogram : s.program = .log op :: rest) (h : step cfg s label = .ok t) :
    ∃ quiet, (∀ op ∈ quiet, Quiet op) ∧ t.program = quiet ++ rest ∧ t.events = s.events := by
  unfold step at h
  rw [hprogram] at h
  cases label with
  | silent => cases h; exact ⟨_, quiet_calls _, rfl, rfl⟩
  | measures memory connected => cases h
  | hook state ends => cases h

theorem step_report {target : StaticString} {level : LogLevel} (hprogram : s.program = .report target level :: rest)
    (h : step cfg s label = .ok t) :
    ∃ quiet, (∀ op ∈ quiet, Quiet op) ∧ t.program = quiet ++ rest ∧ t.events = s.events := by
  unfold step at h
  rw [hprogram] at h
  cases label with
  | silent => cases h
  | measures memory connected =>
    cases h
    refine ⟨logs cfg (reportMemory target level memory) ++ [.call .status, .connection target level],
      quiet_report target level _, ?_, rfl⟩
    rw [List.append_assoc]
    rfl
  | hook state ends => cases h

theorem step_connection {target : StaticString} {level : LogLevel}
    (hprogram : s.program = .connection target level :: rest) (h : step cfg s label = .ok t) :
    ∃ quiet, (∀ op ∈ quiet, Quiet op) ∧ t.program = quiet ++ rest ∧ t.events = s.events := by
  unfold step at h
  rw [hprogram] at h
  cases label with
  | silent => cases h
  | measures memory connected => cases h; exact ⟨_, quiet_logs _, rfl, rfl⟩
  | hook state ends => cases h

theorem step_guard {p : Message} (hprogram : s.program = .guard p :: rest) (h : step cfg s label = .ok t) :
    (t.program = reentry cfg p ∨ t.program = traceLeave cfg cfg.defaultEntry ++ rest) ∧ t.events = s.events := by
  unfold step at h
  rw [hprogram] at h
  cases label with
  | silent =>
    simp only at h
    split at h
    · cases h; exact ⟨Or.inl rfl, rfl⟩
    · cases h; exact ⟨Or.inr rfl, rfl⟩
  | measures memory connected => cases h
  | hook state ends => cases h

theorem step_call {hook : HookCall} (hprogram : s.program = .call hook :: rest) (h : step cfg s label = .ok t) :
    ∃ ends, t.program = resume cfg rest ends ∧ t.events = (hook, ends) :: s.events := by
  unfold step at h
  rw [hprogram] at h
  cases label with
  | silent => cases h
  | measures memory connected => cases h
  | hook state ends => cases h; exact ⟨ends, rfl, rfl⟩

theorem step_halt (hprogram : s.program = .halt :: rest) (h : step cfg s label = .ok t) :
    t.program = threadHalt cfg ∧ t.events = s.events := by
  unfold step at h
  rw [hprogram] at h
  cases label with
  | silent => cases h; exact ⟨rfl, rfl⟩
  | measures memory connected => cases h
  | hook state ends => cases h

theorem step_abort (hprogram : s.program = .abort :: rest) (h : step cfg s label = .ok t) :
    t.program = threadAbort cfg ∧ t.events = s.events := by
  unfold step at h
  rw [hprogram] at h
  cases label with
  | silent => cases h; exact ⟨rfl, rfl⟩
  | measures memory connected => cases h
  | hook state ends => cases h

theorem step_deepSleep (hprogram : s.program = .deepSleep :: rest) (h : step cfg s label = .ok t) :
    t.program = rest ∧ t.events = s.events := by
  unfold step at h
  rw [hprogram] at h
  cases label with
  | silent =>
    simp only at h
    split at h
    · cases h; exact ⟨rfl, rfl⟩
    · cases h
  | measures memory connected => cases h
  | hook state ends => cases h

theorem not_step_stop (hprogram : s.program = .stop :: rest) : step cfg s label ≠ .ok t := by
  intro h
  unfold step at h
  rw [hprogram] at h
  cases label <;> cases h

end Step

/-! ### The invariant of all runs -/

/-- The cleanup has been invoked exactly when a print hook has come back; or one has come back and the cleanup is next. -/
inductive Holds (s : State) : Prop
  | settled : Rest s.program → (Cleaned s.events ↔ Printed s.events) → Holds s
  | printed (p : Message) : s.program = .call .cleanup :: ending p → Printed s.events → Holds s

theorem holds_start (logState : LogType) (p : Message) : Holds (start cfg logState p) := by
  apply Holds.settled (rest_panicHandler p)
  simp [start, Cleaned, Printed]

/-- A call that is neither of a print hook nor of the cleanup, or a print hook that does not come back, changes nothing. -/
theorem holds_of_call {t : State} {hook : HookCall} {ends : HookEnd} {events : List (HookCall × HookEnd)}
    (hrest : Rest t.program) (hevents : t.events = (hook, ends) :: events) (hiff : Cleaned events ↔ Printed events)
    (hcleanup : hook ≠ .cleanup) (hprint : ¬ (hook.isPrint = true ∧ ends = .returns)) : Holds t := by
  apply Holds.settled hrest
  rw [hevents, cleaned_cons, printed_cons, hiff]
  simp only [hcleanup, hprint, false_or]

theorem Holds.of_same {s t : State} (hrest : Rest t.program) (hevents : t.events = s.events)
    (hiff : Cleaned s.events ↔ Printed s.events) : Holds t := by
  apply Holds.settled hrest
  rw [hevents]
  exact hiff

/-- A call of the logging that panics starts a new handler, with nothing printed and nothing cleaned by it. -/
theorem holds_quiet_call {s t : State} {hook : HookCall} {ops : List Op} {label : Label} (hrest : Rest ops)
    (hprogram : s.program = .call hook :: ops) (hiff : Cleaned s.events ↔ Printed s.events)
    (hcleanup : hook ≠ .cleanup) (hprint : hook.isPrint = false) (h : step cfg s label = .ok t) : Holds t := by
  obtain ⟨ends, ht, hevents⟩ := step_call hprogram h
  apply holds_of_call _ hevents hiff hcleanup
  · rintro ⟨hp, -⟩
    rw [hprint] at hp
    cases hp
  · rw [ht]
    exact rest_resume hrest ends

theorem holds_quiet {s t : State} {op : Op} {ops : List Op} {label : Label} (hop : Quiet op) (hrest : Rest ops)
    (hprogram : s.program = op :: ops) (hiff : Cleaned s.events ↔ Printed s.events) (h : step cfg s label = .ok t) :
    Holds t := by
  cases hop with
  | log op =>
    obtain ⟨quiet, hquiet, ht, hevents⟩ := step_log hprogram h
    exact .of_same (by rw [ht]; exact .append hquiet hrest) hevents hiff
  | report target level =>
    obtain ⟨quiet, hquiet, ht, hevents⟩ := step_report hprogram h
    exact .of_same (by rw [ht]; exact .append hquiet hrest) hevents hiff
  | connection target level =>
    obtain ⟨quiet, hquiet, ht, hevents⟩ := step_connection hprogram h
    exact .of_same (by rw [ht]; exact .append hquiet hrest) hevents hiff
  | call c => exact holds_quiet_call hrest hprogram hiff nofun rfl h
  | status => exact holds_quiet_call hrest hprogram hiff nofun rfl h

/-- A print hook that comes back leads on to the cleanup; one that does not leaves the handler for good. -/
theorem holds_closing {s t : State} {p : Message} {label : Label} (hprogram : s.program = closing p)
    (hiff : Cleaned s.events ↔ Printed s.events) (h : step cfg s label = .ok t) : Holds t := by
  obtain ⟨ends, ht, hevents⟩ := step_call hprogram h
  have hprint := isPrint_printHook p
  by_cases hends : ends = .returns
  · subst hends
    apply Holds.printed p ht
    rw [hevents, printed_cons]
    exact Or.inl ⟨hprint, rfl⟩
  · apply holds_of_call _ hevents hiff
    · intro hc
      rw [hc] at hprint
      cases hprint
    · rintro ⟨-, he⟩
      exact hends he
    · rw [ht]
      cases ends with
      | returns => exact absurd rfl hends
      | panics q => exact rest_panicHandler q
      | halts => exact .halt
      | aborts => exact .abort

theorem holds_step {s t : State} {label : Label} (hs : Holds s) (h : step cfg s label = .ok t) : Holds t := by
  cases hs with
  | printed p hprogram hprinted =>
    -- the cleanup has been invoked here whatever it does, to panic included
    obtain ⟨ends, ht, hevents⟩ := step_call hprogram h
    apply Holds.settled
    · rw [ht]
      exact rest_resume (.ending p) ends
    · rw [hevents, cleaned_cons, printed_cons]
      exact iff_of_true (Or.inl rfl) (Or.inr hprinted)
  | settled hrest hiff =>
    generalize hprogram : s.program = program at hrest
    cases hrest with
    | quiet hop hrest => exact holds_quiet hop hrest hprogram hiff h
    | guard p =>
      obtain ⟨ht, hevents⟩ := step_guard hprogram h
      apply Holds.settled _ (by rw [hevents]; exact hiff)
      rcases ht with ht | ht
      · rw [ht]
        exact rest_reentry p
      · rw [ht]
        exact .append (quiet_traceLeave _) (.closing p)
    | closing p => exact holds_closing hprogram hiff h
    | ending p => exact holds_quiet_call .abort hprogram hiff nofun rfl h
    | halt =>
      obtain ⟨ht, hevents⟩ := step_halt hprogram h
      exact .of_same (by rw [ht]; exact rest_threadHalt) hevents hiff
    | deepSleep =>
      obtain ⟨ht, hevents⟩ := step_deepSleep hprogram h
      exact .of_same (by rw [ht]; exact .abort) hevents hiff
    | abort =>
      obtain ⟨ht, hevents⟩ := step_abort hprogram h
      exact .of_same (by rw [ht]; exact rest_threadAbort) hevents hiff
    | stop => exact absurd h (not_step_stop hprogram)

/-- In every run of a panic that reaches `Thread::halt` or `Thread::abort`, whatever the hooks do and however panics nest,
the cleanup hook has been invoked before that point exactly when the print hook of a panic has come back. -/
theorem cleanup_iff_printed {logState : LogType} {p : Message} {labels : List Label} {t : State}
    (hrun : feed (step cfg) (start cfg logState p) labels = .ok t) (hstop : t.Stopped) :
    Cleaned t.events ↔ Printed t.events := by
  have ht : Holds t := feed_invariant (fun s label u hs h => holds_step hs h) (holds_start logState p) hrun
  cases ht with
  | settled _ hiff => exact hiff
  | printed q hprogram _ =>
    obtain ⟨rest, hstop | hstop⟩ := hstop
    · rw [hprogram] at hstop; cases hstop
    · rw [hprogram] at hstop; cases hstop

/-! ### Two runs -/

/-- A build for Linux that logs nothing. -/
def silentBuild : Config where
  log := ⟨.NO_LOG, false, true⟩
  viewHandler := ⟨24, iopStr "panic.cpp", iopStr "panicHandler"⟩
  staticHandler := ⟨33, iopStr "panic.cpp", iopStr "panicHandler"⟩
  defaultEntry := ⟨70, iopStr "panic.cpp", iopStr "defaultEntry"⟩
  halt := ⟨18, iopStr "thread.cpp", iopStr "halt"⟩
  abort := ⟨15, iopStr "cpp17/thread.hpp", iopStr "abort"⟩
  wakes := sleptBeforeAbort Thread.halt = 0

def outOfMemory : Message := ⟨.view (ascii "oom"), ⟨7, iopStr "app.cpp", iopStr "loop"⟩⟩

/-- The message that a hook itself panics with. -/
def noNetwork : Message := ⟨.view (ascii "no network"), ⟨9, iopStr "app.cpp", iopStr "report"⟩⟩

/-- The print hook comes back, and the cleanup panics: the guard stops the second panic behind it. -/
theorem cleanup_of_panicking_cleanup :
    Cleaned [(.cleanup, .panics noNetwork), (.viewPanic (ascii "oom") outOfMemory.point, .returns)] := by
  let t : State :=
    { program := [.halt]
      isPanicking := true
      logState := .END
      events := [(.cleanup, .panics noNetwork), (.viewPanic (ascii "oom") outOfMemory.point, .returns)] }
  have hrun : feed (step silentBuild) (start silentBuild .END outOfMemory)
      ([.silent, .hook .END .returns, .hook .END (.panics noNetwork)] ++ List.replicate 9 .silent) = .ok t := rfl
  have hstop : t.Stopped := ⟨[], Or.inl rfl⟩
  have hprinted : Printed t.events := ⟨_, List.mem_of_getElem? (i := 1) rfl, rfl, rfl⟩
  exact (cleanup_iff_printed hrun hstop).2 hprinted

/-- The print hook panics.  The guard halts the device, and the cleanup hook is never invoked. -/
theorem halt_without_cleanup :
    ∃ t : State,
      feed (step silentBuild) (start silentBuild .END outOfMemory)
          ([.silent, .hook .END (.panics noNetwork)] ++ List.replicate 9 .silent) = .ok t ∧
        t.Stopped ∧ ¬ Cleaned t.events := by
  refine ⟨⟨[.halt], true, .END, [(.viewPanic (ascii "oom") outOfMemory.point, .panics noNetwork)]⟩, ?_, ?_, ?_⟩
  · rfl
  · exact ⟨[], Or.inl rfl⟩
  · simp [Cleaned]

end Panic

end IopHal
