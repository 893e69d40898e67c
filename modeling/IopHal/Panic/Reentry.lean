import IopHal.Panic

/-!
# Panics inside panics

One behaviour of all hooks and of the device (`World`) turns `panicHandler` into a machine that runs by itself (`next`).
`Thread::halt` traces before the device sleeps and `Thread::abort` traces before the process is over, so the hooks may
panic there as well.

A hook other than those of the log panics at most once (`otherPanics_le`): the guard lets one handler pass, and sends
every later one to the branch for re-entry.  That branch logs, through the same hooks, before it halts, so the log hooks
can panic without end.  `reentry_iff` says that nothing else goes wrong: the depth is bounded and the device gets to
`Thread::halt` exactly when the log hooks stop panicking and the run does not stay in `Thread::abort` instead.
-/

namespace IopHal

namespace Panic

/-- What the hooks do and what the device reads, which may depend on all that has happened so far. -/
structure World where
  hook : State → LogType × HookEnd
  device : State → Memory × Bool

section Machine

variable (cfg : Config) (world : World)

def World.label (s : State) : Label :=
  match s.program with
  | .call _ :: _ => .hook (world.hook s).1 (world.hook s).2
  | .report _ _ :: _ => .measures (world.device s).1 (world.device s).2
  | .connection _ _ :: _ => .measures (world.device s).1 (world.device s).2
  | _ => .silent

/-- The next operation.  A process that is over stays so, and so does a device that sleeps on. -/
def next (s : State) : State := (step cfg s (world.label s)).toOption.getD s

/-- A panic where none is under way, `n` operations on. -/
def run (logState : LogType) (p : Message) : Nat → State
  | 0 => start cfg logState p
  | n + 1 => next cfg world (run logState p n)

end Machine

/-! ### What is observed -/

/-- The calls that the logging of the handlers, of `Thread::halt` and of `Thread::abort` makes. -/
def HookCall.isLogging : HookCall → Bool
  | log _ => true
  | status => true
  | _ => false

def HookCall.isHalt : HookCall → Bool
  | halt _ _ => true
  | _ => false

def HookEnd.isPanic : HookEnd → Bool
  | panics _ => true
  | _ => false

/-- The last call that did not just go on behind itself leads to `Thread::abort`.  The handler goes there by itself behind
the halt hook. -/
def aborting : List (HookCall × HookEnd) → Bool
  | [] => false
  | (hook, ends) :: events =>
    match ends with
    | .returns => hook.isHalt || aborting events
    | .aborts => true
    | .panics _ => false
    | .halts => false

namespace State

/-- The calls of the logging itself that have panicked. -/
def logPanics (s : State) : Nat := s.events.countP fun e => e.1.isLogging && e.2.isPanic

def otherPanics (s : State) : Nat := s.events.countP fun e => !e.1.isLogging && e.2.isPanic

/-- How many calls of `panicHandler` are nested: none of them returns, so each panic of a hook adds one. -/
def depth (s : State) : Nat := 1 + s.events.countP fun e => e.2.isPanic

/-- `Thread::halt` has been called. -/
def AtHalt (s : State) : Prop := ∃ rest, s.program = .halt :: rest

theorem depth_eq (s : State) : s.depth = 1 + s.logPanics + s.otherPanics := by
  unfold depth logPanics otherPanics
  induction s.events with
  | nil => rfl
  | cons e events ih =>
    simp only [List.countP_cons]
    cases e.1.isLogging <;> cases e.2.isPanic <;> simp <;> omega

end State

/-! ### Single operations -/

section Next

variable {cfg : Config} {world : World} {s : State} {rest : List Op}

theorem next_log {op : LogOp} (h : s.program = .log op :: rest) :
    next cfg world s =
      { s with
        program := (op.perform cfg.log s.logState).2.map (fun c => .call (.log c)) ++ rest
        logState := (op.perform cfg.log s.logState).1 } := by
  simp only [next, World.label, step, h, Except.toOption, Option.getD]

theorem next_report {target : StaticString} {level : LogLevel} (h : s.program = .report target level :: rest) :
    next cfg world s =
      { s with
        program := logs cfg (reportMemory target level (world.device s).1) ++
          .call .status :: .connection target level :: rest } := by
  simp only [next, World.label, step, h, Except.toOption, Option.getD]

theorem next_connection {target : StaticString} {level : LogLevel} (h : s.program = .connection target level :: rest) :
    next cfg world s =
      { s with program := logs cfg (reportConnection target level (world.device s).2) ++ rest } := by
  simp only [next, World.label, step, h, Except.toOption, Option.getD]

theorem next_guard {p : Message} (h : s.program = .guard p :: rest) :
    next cfg world s =
      if s.isPanicking then { s with program := reentry cfg p }
      else { s with program := traceLeave cfg cfg.defaultEntry ++ rest, isPanicking := true } := by
  simp only [next, World.label, step, h]
  cases s.isPanicking <;> rfl

theorem next_call {hook : HookCall} (h : s.program = .call hook :: rest) :
    next cfg world s =
      { s with
        program := resume cfg rest (world.hook s).2
        logState := (world.hook s).1
        events := (hook, (world.hook s).2) :: s.events } := by
  simp only [next, World.label, step, h, Except.toOption, Option.getD]

theorem next_halt (h : s.program = .halt :: rest) : next cfg world s = { s with program := threadHalt cfg } := by
  simp only [next, World.label, step, h, Except.toOption, Option.getD]

theorem next_deepSleep (h : s.program = .deepSleep :: rest) :
    next cfg world s = if cfg.wakes then { s with program := rest } else s := by
  simp only [next, World.label, step, h]
  cases cfg.wakes <;> rfl

theorem next_abort (h : s.program = .abort :: rest) : next cfg world s = { s with program := threadAbort cfg } := by
  simp only [next, World.label, step, h, Except.toOption, Option.getD]

theorem next_stop (h : s.program = .stop :: rest) : next cfg world s = s := by
  simp only [next, World.label, step, h, Except.toOption, Option.getD]

/-- Only a call adds to what has happened, and it leads on as its end says. -/
theorem step_events {t : State} {label : Label} (h : step cfg s label = .ok t) :
    t.events = s.events ∨ ∃ hook rest ends, s.program = .call hook :: rest ∧
      t.events = (hook, ends) :: s.events ∧ t.program = resume cfg rest ends := by
  unfold step at h
  split at h
  case h_5 hprogram =>
    cases h
    exact Or.inr ⟨_, _, _, hprogram, rfl, rfl⟩
  case h_4 => split at h <;> (cases h; exact Or.inl rfl)
  case h_8 =>
    split at h
    · cases h; exact Or.inl rfl
    · cases h
  case h_9 => cases h
  all_goals (cases h; exact Or.inl rfl)

theorem next_events (s : State) :
    (next cfg world s).events = s.events ∨ ∃ hook rest ends, s.program = .call hook :: rest ∧
      (next cfg world s).events = (hook, ends) :: s.events ∧ (next cfg world s).program = resume cfg rest ends := by
  unfold next
  cases h : step cfg s (world.label s) with
  | ok t => exact step_events h
  | error e => exact Or.inl rfl

theorem depth_le_next (s : State) : s.depth ≤ (next cfg world s).depth := by
  unfold State.depth
  rcases next_events s with h | ⟨hook, rest, ends, -, h, -⟩
  · rw [h]
  · rw [h, List.countP_cons]
    omega

end Next

/-! ### What holds in every run -/

/-- Where a handler is: before its guard, behind it, on the way to `Thread::halt`, or behind the call of `Thread::halt` or
of `Thread::abort`. -/
inductive Phase
  | entered
  | passed
  | halting
  | stopping (halted : Bool)

/-- What is left to do in a phase. -/
inductive Pending : Phase → List Op → Prop
  | quiet {phase : Phase} {op : Op} {ops : List Op} : Quiet op → Pending phase ops → Pending phase (op :: ops)
  | guard (p : Message) : Pending .entered (.guard p :: closing p)
  | closing (p : Message) : Pending .passed (closing p)
  | cleanup (p : Message) : Pending .passed (.call .cleanup :: ending p)
  | ending (p : Message) : Pending .passed (ending p)
  | halt : Pending .halting [.halt]
  | deepSleep : Pending (.stopping true) [.deepSleep, .abort]
  | abort {halted : Bool} : Pending (.stopping halted) [.abort]
  | stop {halted : Bool} : Pending (.stopping halted) [.stop]

theorem Pending.append {phase : Phase} {quiet ops : List Op} (hquiet : ∀ op ∈ quiet, Quiet op) (h : Pending phase ops) :
    Pending phase (quiet ++ ops) :=
  quiet_append (fun _ _ => .quiet) hquiet h

theorem pending_panicHandler {cfg : Config} (p : Message) : Pending .entered (panicHandler cfg p) :=
  .append (quiet_traceEnter _) (.append (quiet_traceEnter _) (.guard p))

theorem pending_reentry {cfg : Config} (p : Message) : Pending .halting (reentry cfg p) := by
  unfold reentry
  rw [List.append_assoc]
  apply Pending.append (quiet_logs _)
  apply Pending.append _ .halt
  intro op hop
  split at hop
  · cases hop
  · rw [List.mem_singleton.1 hop]
    exact .report ..

/-- Until some handler passes its guard no hook but those of the logging is called, and from then on every later handler
finds `isPanicking` set. -/
structure Going (s : State) (phase : Phase) : Prop where
  pending : Pending phase s.program
  passed_isPanicking : phase = .passed → s.isPanicking = true ∧ s.otherPanics = 0
  isPanicking : s.isPanicking = true ∨ s.otherPanics = 0
  otherPanics : s.otherPanics ≤ 1
  aborting_iff : phase = .stopping false ↔ aborting s.events = true

section Invariant

variable {cfg : Config} {world : World} {s t : State} {phase phase' : Phase}

/-- An operation without a call, from one phase to another. -/
theorem Going.of_same (h : Going s phase) (hpending : Pending phase' t.program)
    (hpanicking : t.isPanicking = s.isPanicking) (hevents : t.events = s.events)
    (hpassed : phase' = .passed → phase = .passed) (hstopping : phase' = .stopping false ↔ phase = .stopping false) :
    Going t phase' := by
  have hother : t.otherPanics = s.otherPanics := by
    unfold State.otherPanics
    rw [hevents]
  constructor
  · exact hpending
  · rw [hpanicking, hother]
    exact fun hp => h.passed_isPanicking (hpassed hp)
  · rw [hpanicking, hother]
    exact h.isPanicking
  · rw [hother]
    exact h.otherPanics
  · rw [hstopping, hevents]
    exact h.aborting_iff

/-- A hook that does not panic leaves the count alone. -/
theorem Going.of_call {hook : HookCall} {ends : HookEnd} (h : Going s phase) (hpending : Pending phase' t.program)
    (hpanicking : t.isPanicking = s.isPanicking) (hevents : t.events = (hook, ends) :: s.events)
    (hpanic : ends.isPanic = false) (hpassed : phase' = .passed → phase = .passed)
    (hstopping : phase' = .stopping false ↔ aborting t.events = true) : Going t phase' := by
  have hother : t.otherPanics = s.otherPanics := by
    unfold State.otherPanics
    rw [hevents, List.countP_cons_of_neg]
    simp [hpanic]
  constructor
  · exact hpending
  · rw [hpanicking, hother]
    exact fun hp => h.passed_isPanicking (hpassed hp)
  · rw [hpanicking, hother]
    exact h.isPanicking
  · rw [hother]
    exact h.otherPanics
  · exact hstopping

/-- A hook that is called by a handler before its guard, or behind `Thread::halt` or `Thread::abort`, is one of the
logging. -/
theorem going_call {hook : HookCall} {rest : List Op} (h : Going s phase) (hprogram : s.program = .call hook :: rest)
    (hhook : hook.isLogging = true ∨ phase = .passed)
    (hback : Pending (if hook.isHalt then .stopping false else phase) rest) :
    ∃ phase', Going (next cfg world s) phase' ∧ (phase' = .stopping true → phase = .stopping true) := by
  rw [next_call hprogram]
  generalize world.hook s = answer
  obtain ⟨logState, ends⟩ := answer
  cases ends with
  | returns =>
    refine ⟨_, h.of_call hback rfl rfl rfl ?_ ?_, ?_⟩
    · split
      · exact nofun
      · exact id
    · have haborting := h.aborting_iff
      cases hhalt : hook.isHalt <;> simp [aborting, hhalt, haborting]
    · split
      · exact nofun
      · exact id
  | halts =>
    exact ⟨.halting, h.of_call .halt rfl rfl rfl nofun (by simp [aborting]),
      nofun⟩
  | aborts =>
    exact ⟨.stopping false, h.of_call .abort rfl rfl rfl nofun (by simp [aborting]),
      nofun⟩
  | panics p =>
    refine ⟨.entered, ⟨pending_panicHandler p, nofun, ?_, ?_, ?_⟩, nofun⟩
    · rcases hhook with hlog | hpassed
      · simpa [State.otherPanics, List.countP_cons, hlog] using h.isPanicking
      · exact Or.inl (h.passed_isPanicking hpassed).1
    · rcases hhook with hlog | hpassed
      · simpa [State.otherPanics, List.countP_cons, hlog] using h.otherPanics
      · have hnone : s.otherPanics = 0 := (h.passed_isPanicking hpassed).2
        unfold State.otherPanics at hnone ⊢
        rw [List.countP_cons, hnone]
        split <;> omega
    · simp [aborting]

theorem going_next (h : Going s phase) :
    ∃ phase', Going (next cfg world s) phase' ∧ (phase' = .stopping true → phase = .stopping true ∨ s.AtHalt) := by
  have hquiet : ∀ t : State, Pending phase t.program → t.isPanicking = s.isPanicking → t.events = s.events →
      ∃ phase', Going t phase' ∧ (phase' = .stopping true → phase = .stopping true ∨ s.AtHalt) :=
    fun t hpending hpanicking hevents => ⟨phase, h.of_same hpending hpanicking hevents id Iff.rfl, Or.inl⟩
  have hcall : ∀ {hook : HookCall} {rest : List Op}, s.program = .call hook :: rest →
      hook.isLogging = true ∨ phase = .passed → Pending (if hook.isHalt then .stopping false else phase) rest →
      ∃ phase', Going (next cfg world s) phase' ∧ (phase' = .stopping true → phase = .stopping true ∨ s.AtHalt) := by
    intro hook rest hprogram hhook hback
    obtain ⟨phase', hgoing, hphase⟩ := going_call h hprogram hhook hback
    exact ⟨phase', hgoing, fun hp => Or.inl (hphase hp)⟩
  have hpending := h.pending
  generalize hprogram : s.program = program at hpending
  cases hpending with
  | quiet hop hrest =>
    cases hop with
    | log op =>
      rw [next_log hprogram]
      exact hquiet _ (.append (quiet_calls _) hrest) rfl rfl
    | report target level =>
      rw [next_report hprogram]
      exact hquiet _ (.append (quiet_logs _) (.quiet .status (.quiet (.connection target level) hrest))) rfl rfl
    | connection target level =>
      rw [next_connection hprogram]
      exact hquiet _ (.append (quiet_logs _) hrest) rfl rfl
    | call c => exact hcall hprogram (Or.inl rfl) hrest
    | status => exact hcall hprogram (Or.inl rfl) hrest
  | guard p =>
    rw [next_guard hprogram]
    split
    · refine ⟨.halting, h.of_same (pending_reentry p) rfl rfl nofun ?_,
        nofun⟩
      exact iff_of_false nofun nofun
    · rename_i hpanicking
      -- the first handler to get here: no hook but those of the logging has been called
      have hnone : s.otherPanics = 0 := h.isPanicking.resolve_left hpanicking
      have haborting := h.aborting_iff
      refine ⟨.passed, ⟨.append (quiet_traceLeave _) (.closing p), fun _ => ⟨rfl, hnone⟩, Or.inl rfl, h.otherPanics, ?_⟩,
        nofun⟩
      rw [← haborting]
      exact iff_of_false nofun nofun
  | closing p =>
    apply hcall hprogram (Or.inr rfl)
    have hprint : (printHook p).isHalt = false := by
      unfold printHook
      cases p.msg <;> rfl
    rw [hprint]
    exact .cleanup p
  | cleanup p => exact hcall hprogram (Or.inr rfl) (.ending p)
  | ending p => exact hcall hprogram (Or.inr rfl) .abort
  | halt =>
    rw [next_halt hprogram]
    refine ⟨.stopping true, h.of_same (.append (quiet_traceEnter _) .deepSleep) rfl rfl nofun ?_,
      fun _ => Or.inr ⟨[], hprogram⟩⟩
    exact iff_of_false nofun nofun
  | deepSleep =>
    rw [next_deepSleep hprogram]
    split
    · exact hquiet _ .abort rfl rfl
    · exact ⟨_, h, Or.inl⟩
  | abort =>
    rw [next_abort hprogram]
    exact hquiet _ (.append (quiet_traceEnter _) .stop) rfl rfl
  | stop =>
    rw [next_stop hprogram]
    exact ⟨_, h, Or.inl⟩

theorem going_run (logState : LogType) (p : Message) (n : Nat) :
    ∃ phase, Going (run cfg world logState p n) phase ∧
      (phase = .stopping true → ∃ m < n, (run cfg world logState p m).AtHalt) := by
  induction n with
  | zero =>
    refine ⟨.entered, ⟨pending_panicHandler p, nofun, Or.inr rfl, Nat.zero_le _, ?_⟩, nofun⟩
    exact iff_of_false (nofun) Bool.false_ne_true
  | succ n ih =>
    obtain ⟨phase, hgoing, hhalted⟩ := ih
    obtain ⟨phase', hgoing', hstopping⟩ := going_next hgoing
    refine ⟨phase', hgoing', fun hphase => ?_⟩
    rcases hstopping hphase with hbefore | hhalt
    · obtain ⟨m, hm, hhalt⟩ := hhalted hbefore
      exact ⟨m, Nat.lt_succ_of_lt hm, hhalt⟩
    · exact ⟨n, Nat.lt_succ_self n, hhalt⟩

theorem otherPanics_le (logState : LogType) (p : Message) (n : Nat) :
    (run cfg world logState p n).otherPanics ≤ 1 := by
  obtain ⟨phase, h, -⟩ := going_run logState p n
  exact h.otherPanics

/-- At its call of `Thread::halt`, a run is not on the way to `Thread::abort`. -/
theorem Going.not_aborting (h : Going s phase) (hhalt : s.AtHalt) : aborting s.events ≠ true := by
  obtain ⟨rest, hprogram⟩ := hhalt
  have hpending := h.pending
  rw [hprogram] at hpending
  rw [Ne, ← h.aborting_iff]
  rintro rfl
  cases hpending with
  | quiet hop _ => cases hop

end Invariant

/-! ### What comes to an end -/

/-- What an operation may still make of itself: the guard may lead to a report, and a report to any number of calls of
the log. -/
def Op.stage : Op → Nat
  | .guard _ => 3
  | .report _ _ => 2
  | .connection _ _ => 1
  | _ => 0

/-- More than the hooks that an operation calls. -/
def Op.size : Op → Nat
  | .log _ => 6
  | .call _ => 1
  | _ => 0

def stages (ops : List Op) : Nat := (ops.map Op.stage).sum

def sizes (ops : List Op) : Nat := (ops.map Op.size).sum

theorem stages_append (ops more : List Op) : stages (ops ++ more) = stages ops + stages more := by
  rw [stages, List.map_append, List.sum_append]
  rfl

theorem sizes_append (ops more : List Op) : sizes (ops ++ more) = sizes ops + sizes more := by
  rw [sizes, List.map_append, List.sum_append]
  rfl

theorem stages_calls (calls : List LogHookCall) : stages (calls.map fun c => .call (.log c)) = 0 := by
  induction calls with
  | nil => rfl
  | cons c calls ih => exact (Nat.zero_add _).trans ih

theorem sizes_calls (calls : List LogHookCall) : sizes (calls.map fun c => .call (.log c)) = calls.length := by
  induction calls with
  | nil => rfl
  | cons c calls ih =>
    rw [List.length_cons, ← ih, Nat.add_comm]
    rfl

theorem stages_logs {cfg : Config} (calls : List LogCall) : stages (logs cfg calls) = 0 := by
  unfold logs
  induction calls.flatMap (LogCall.ops cfg.log) with
  | nil => rfl
  | cons op ops ih => exact (Nat.zero_add _).trans ih

theorem stages_reentry_le {cfg : Config} (p : Message) : stages (reentry cfg p) ≤ 2 := by
  unfold reentry
  rw [stages_append, stages_append, stages_logs]
  split
  · exact Nat.zero_le _
  · exact Nat.le_refl _

theorem stages_traceLeave {cfg : Config} (point : CodePoint) : stages (traceLeave cfg point) = 0 := by
  unfold traceLeave
  split
  · exact stages_logs _
  · rfl

/-- A step of a log call calls at most the five prints of the head of a line. -/
theorem length_perform_le (cfg : LogConfig) (state : LogType) (op : LogOp) : (op.perform cfg state).2.length ≤ 5 := by
  cases op with
  | updateState => exact Nat.zero_le _
  | finalizeState => exact Nat.zero_le _
  | flush =>
    unfold LogOp.perform
    dsimp only
    split <;> simp
  | printLogType target level =>
    unfold LogOp.perform printLogType
    dsimp only
    split
    · simp
    · cases state <;> simp [printLogType.lineHead]
  | print msg level => simp [LogOp.perform]
  | terminate level lineTermination =>
    unfold LogOp.perform
    dsimp only
    split
    · simp
    · split <;> simp

/-- As long as no hook panics, halts or aborts: what a run may still do before it halts. -/
def fuel (s : State) : ℕ ×ₗ ℕ := toLex (stages s.program, sizes s.program)

section Fuel

variable {cfg : Config} {world : World} {s t : State} {phase : Phase}

theorem fuel_lt_of_stages (hstages : stages t.program < stages s.program) : fuel t < fuel s := by
  unfold fuel
  rw [Prod.Lex.toLex_lt_toLex]
  exact Or.inl hstages

theorem fuel_lt_of_sizes (hstages : stages t.program = stages s.program) (hsizes : sizes t.program < sizes s.program) :
    fuel t < fuel s := by
  unfold fuel
  rw [hstages, Prod.Lex.toLex_lt_toLex]
  exact Or.inr ⟨rfl, hsizes⟩

/-- A call that does not go on behind itself panics, or leads to `Thread::halt` or to `Thread::abort`. -/
theorem fuel_next_call {hook : HookCall} {rest : List Op} (hprogram : s.program = .call hook :: rest)
    (hdepth : (next cfg world s).depth = s.depth) (hhalt : ¬ (next cfg world s).AtHalt)
    (haborting : aborting (next cfg world s).events ≠ true) : fuel (next cfg world s) < fuel s := by
  rw [next_call hprogram] at hdepth hhalt haborting ⊢
  generalize world.hook s = answer at hdepth hhalt haborting ⊢
  obtain ⟨logState, ends⟩ := answer
  cases ends with
  | returns =>
    apply fuel_lt_of_sizes
    · rw [hprogram]
      exact (Nat.zero_add _).symm
    · rw [hprogram]
      exact Nat.lt_add_of_pos_left Nat.one_pos
  | panics p => simp [State.depth, HookEnd.isPanic] at hdepth
  | halts => exact absurd ⟨[], rfl⟩ hhalt
  | aborts => exact absurd rfl haborting

/-- Every operation before the end of a run uses something up. -/
theorem fuel_next (h : Going s phase) (hphase : ∀ halted, phase ≠ .stopping halted) (hhalt : ¬ s.AtHalt)
    (hdepth : (next cfg world s).depth = s.depth) (hhalt' : ¬ (next cfg world s).AtHalt)
    (haborting : aborting (next cfg world s).events ≠ true) : fuel (next cfg world s) < fuel s := by
  have hpending := h.pending
  generalize hprogram : s.program = program at hpending
  cases hpending with
  | quiet hop hrest =>
    rename_i rest
    cases hop with
    | log op =>
      rw [next_log hprogram]
      apply fuel_lt_of_sizes
      · rw [hprogram, stages_append, stages_calls, Nat.zero_add]
        exact (Nat.zero_add _).symm
      · have hlength := length_perform_le cfg.log s.logState op
        have hsize : sizes (.log op :: rest) = 6 + sizes rest := rfl
        rw [hprogram, sizes_append, sizes_calls, hsize]
        omega
    | report target level =>
      rw [next_report hprogram]
      apply fuel_lt_of_stages
      have hbehind : stages (.call .status :: .connection target level :: rest) = 0 + (1 + stages rest) := rfl
      have hreport : stages (.report target level :: rest) = 2 + stages rest := rfl
      rw [hprogram, stages_append, stages_logs, hbehind, hreport]
      omega
    | connection target level =>
      rw [next_connection hprogram]
      apply fuel_lt_of_stages
      rw [hprogram, stages_append, stages_logs, Nat.zero_add]
      exact Nat.lt_add_of_pos_left Nat.one_pos
    | call c => exact fuel_next_call hprogram hdepth hhalt' haborting
    | status => exact fuel_next_call hprogram hdepth hhalt' haborting
  | guard p =>
    have hguard : stages (.guard p :: closing p) = 3 + stages (closing p) := rfl
    rw [next_guard hprogram]
    split
    · apply fuel_lt_of_stages
      have hreentry : stages (reentry cfg p) ≤ 2 := stages_reentry_le p
      rw [hprogram, hguard]
      show stages (reentry cfg p) < 3 + stages (closing p)
      omega
    · apply fuel_lt_of_stages
      rw [hprogram, hguard]
      show stages (traceLeave cfg cfg.defaultEntry ++ closing p) < 3 + stages (closing p)
      rw [stages_append, stages_traceLeave]
      omega
  | closing p => exact fuel_next_call hprogram hdepth hhalt' haborting
  | cleanup p => exact fuel_next_call hprogram hdepth hhalt' haborting
  | ending p => exact fuel_next_call hprogram hdepth hhalt' haborting
  | halt => exact absurd ⟨[], hprogram⟩ hhalt
  | deepSleep => exact absurd rfl (hphase _)
  | abort => exact absurd rfl (hphase _)
  | stop => exact absurd rfl (hphase _)

end Fuel

/-! ### All runs -/

section Runs

variable {cfg : Config} {world : World} {logState : LogType} {p : Message}

theorem depth_mono {n m : Nat} (h : n ≤ m) : (run cfg world logState p n).depth ≤ (run cfg world logState p m).depth := by
  induction m, h using Nat.le_induction with
  | base => exact le_rfl
  | succ m _ ih => exact ih.trans (depth_le_next _)

/-- A depth that is bounded is not exceeded behind some point. -/
theorem exists_last_panic {bound : Nat} (hbound : ∀ n, (run cfg world logState p n).depth ≤ bound) :
    ∃ n, ∀ m, n ≤ m → (run cfg world logState p m).depth = (run cfg world logState p n).depth := by
  have hne : (Set.range fun n => (run cfg world logState p n).depth).Nonempty := Set.range_nonempty _
  have hbdd : BddAbove (Set.range fun n => (run cfg world logState p n).depth) := by
    refine ⟨bound, ?_⟩
    rintro depth ⟨n, rfl⟩
    exact hbound n
  obtain ⟨n, hn⟩ := Nat.sSup_mem hne hbdd
  refine ⟨n, fun m hm => le_antisymm ?_ (depth_mono hm)⟩
  rw [show (run cfg world logState p n).depth = _ from hn]
  exact le_csSup hbdd ⟨m, rfl⟩

/-- A run on the way to `Thread::abort` stays so, unless a hook panics or halts. -/
theorem aborting_next {s : State} (h : aborting s.events = true) (hdepth : (next cfg world s).depth = s.depth)
    (hhalt : ¬ (next cfg world s).AtHalt) : aborting (next cfg world s).events = true := by
  rcases next_events s with hevents | ⟨hook, rest, ends, -, hevents, hprogram⟩
  · rw [hevents]
    exact h
  · rw [hevents]
    cases ends with
    | returns => simp [aborting, h]
    | panics q => simp [State.depth, hevents, HookEnd.isPanic] at hdepth
    | halts => exact absurd ⟨[], hprogram⟩ hhalt
    | aborts => rfl

/-- Where the depth is bounded and the run does not stay on the way to `Thread::abort`, something is used up by every
operation behind the last panic. -/
theorem exists_atHalt {bound : Nat} (hbound : ∀ n, (run cfg world logState p n).depth ≤ bound)
    (haborting : ∀ n, (∀ m, n ≤ m → aborting (run cfg world logState p m).events = true) →
      ∃ m < n, (run cfg world logState p m).AtHalt) :
    ∃ n, (run cfg world logState p n).AtHalt := by
  by_contra hnever
  rw [not_exists] at hnever
  obtain ⟨last, hlast⟩ := exists_last_panic hbound
  have hdepth : ∀ n, last ≤ n →
      (run cfg world logState p (n + 1)).depth = (run cfg world logState p n).depth := by
    intro n hn
    rw [hlast n hn, hlast (n + 1) (Nat.le_succ_of_le hn)]
  have hnot : ∀ n, last ≤ n → aborting (run cfg world logState p n).events ≠ true := by
    intro n hn habort
    have hstays : ∀ m, n ≤ m → aborting (run cfg world logState p m).events = true := by
      intro m hm
      induction m, hm using Nat.le_induction with
      | base => exact habort
      | succ m hm ih => exact aborting_next ih (hdepth m (hn.trans hm)) (hnever (m + 1))
    obtain ⟨m, -, hm⟩ := haborting n hstays
    exact hnever m hm
  obtain ⟨k, hk⟩ := WellFounded.not_rel_apply_succ (r := (· < ·)) fun k => fuel (run cfg world logState p (last + k))
  apply hk
  obtain ⟨phase, h, hhalted⟩ : ∃ phase, Going (run cfg world logState p (last + k)) phase ∧
      (phase = .stopping true → ∃ m < last + k, (run cfg world logState p m).AtHalt) := going_run logState p (last + k)
  refine fuel_next h ?_ (hnever _) (hdepth _ (Nat.le_add_right last k)) (hnever (last + k + 1))
    (hnot (last + k + 1) (by omega))
  intro halted hphase
  cases halted with
  | true =>
    obtain ⟨m, -, hm⟩ := hhalted hphase
    exact hnever m hm
  | false => exact hnot (last + k) (Nat.le_add_right last k) (h.aborting_iff.1 hphase)

/-- Whatever the hooks do: at most one panic is not one of the logging itself.  The depth is bounded and the device comes
to `Thread::halt` exactly when the logging panics no more than some number of times, and the run does not stay in
`Thread::abort` without having come to `Thread::halt` before. -/
theorem reentry_iff (cfg : Config) (world : World) (logState : LogType) (p : Message) :
    (∀ n, (run cfg world logState p n).depth ≤ (run cfg world logState p n).logPanics + 2) ∧
      (((∃ bound, ∀ n, (run cfg world logState p n).depth ≤ bound) ∧ ∃ n, (run cfg world logState p n).AtHalt) ↔
        (∃ bound, ∀ n, (run cfg world logState p n).logPanics ≤ bound) ∧
          ∀ n, (∀ m, n ≤ m → aborting (run cfg world logState p m).events = true) →
            ∃ m < n, (run cfg world logState p m).AtHalt) := by
  have hle : ∀ n, (run cfg world logState p n).depth ≤ (run cfg world logState p n).logPanics + 2 := by
    intro n
    have hother : (run cfg world logState p n).otherPanics ≤ 1 := otherPanics_le logState p n
    rw [State.depth_eq]
    omega
  refine ⟨hle, ?_, ?_⟩
  · rintro ⟨⟨bound, hbound⟩, k, hk⟩
    refine ⟨⟨bound, fun n => ?_⟩, fun n hstays => ⟨k, ?_, hk⟩⟩
    · have hdepth := hbound n
      rw [State.depth_eq] at hdepth
      omega
    · by_contra hlate
      obtain ⟨phase, h, -⟩ : ∃ phase, Going (run cfg world logState p k) phase ∧ _ := going_run logState p k
      exact h.not_aborting hk (hstays k (Nat.le_of_not_lt hlate))
  · rintro ⟨⟨bound, hbound⟩, haborting⟩
    have hdepth : ∀ n, (run cfg world logState p n).depth ≤ bound + 2 :=
      fun n => (hle n).trans (Nat.add_le_add_right (hbound n) 2)
    exact ⟨⟨bound + 2, hdepth⟩, exists_atHalt hdepth haborting⟩

end Runs

/-! ### A log hook that always panics -/

/-- The usual build: what is below `INFO` is not logged, and nothing is traced. -/
def usualBuild : Config := { silentBuild with log := ⟨.INFO, true, true⟩ }

/-- Every hook panics, every time it is called. -/
def panicking : World where
  hook _ := (.END, .panics noNetwork)
  device _ := (⟨0, [], []⟩, false)

/-- A handler at its guard while a panic is under way: its branch for re-entry comes as far as the first flush. -/
theorem panicking_round (s : State) (hprogram : s.program = .guard noNetwork :: closing noNetwork)
    (hpanicking : s.isPanicking = true) :
    ∃ t, next usualBuild panicking (next usualBuild panicking
        (next usualBuild panicking (next usualBuild panicking s))) = t ∧
      t.program = .guard noNetwork :: closing noNetwork ∧ t.isPanicking = true ∧ t.depth = s.depth + 1 := by
  obtain ⟨program, isPanicking, logState, events⟩ := s
  dsimp only at hprogram hpanicking
  subst hprogram hpanicking
  refine ⟨_, rfl, rfl, rfl, ?_⟩
  show 1 + List.countP _ (_ :: events) = 1 + List.countP _ events + 1
  rw [List.countP_cons_of_pos rfl]
  exact (Nat.add_assoc 1 _ 1).symm

theorem panicking_rounds (k : Nat) :
    let s := run usualBuild panicking .END noNetwork (4 * k + 2)
    s.program = .guard noNetwork :: closing noNetwork ∧ s.isPanicking = true ∧ s.depth = k + 2 := by
  induction k with
  | zero => exact ⟨rfl, rfl, rfl⟩
  | succ k ih =>
    obtain ⟨hprogram, hpanicking, hdepth⟩ := ih
    obtain ⟨t, ht, hprogram', hpanicking', hdepth'⟩ := panicking_round _ hprogram hpanicking
    have hrun : run usualBuild panicking .END noNetwork (4 * (k + 1) + 2) = t := ht
    dsimp only
    rw [hrun]
    refine ⟨hprogram', hpanicking', ?_⟩
    rw [hdepth', hdepth]

/-- In the usual build, hooks that panic whenever they are called nest the handlers without end. -/
theorem reentry_unbounded :
    ¬ ∃ bound, ∀ n, (run usualBuild panicking .END noNetwork n).depth ≤ bound := by
  rintro ⟨bound, hbound⟩
  obtain ⟨-, -, hdepth⟩ := panicking_rounds bound
  have hlate := hbound (4 * bound + 2)
  rw [hdepth] at hlate
  omega

end Panic

end IopHal
