import IopHal.Log

/-!
# Lines of the log

What the hooks of the log receive over a whole program of log calls, when the hooks only print.  A call depends on the
calls before it through one bit, whether the last line is open, and `printed_runCalls` says so for all programs.

* `logged_lines`: a program of calls that are all logged prints whole lines and at most one unfinished line.
* `suppressed_iff`: a call below the threshold prints nothing, but it moves the line state all the same.  Leaving such
  calls out changes nothing exactly when each of the other calls finds the line as it would without them (`Steady`).
-/

namespace IopHal

/-- The methods of `iop::Log` that log, without their `ln` variants. -/
inductive LogMethod
  | trace
  | debug
  | info
  | warn
  | error
  | crit

def LogMethod.level : LogMethod → LogLevel
  | trace => .TRACE
  | debug => .DEBUG
  | info => .INFO
  | warn => .WARN
  | error => .ERROR
  | crit => .CRIT

/-- A statement of the program that logs. -/
structure LogStatement where
  target : StaticString
  method : LogMethod
  ln : Bool
  msg : LogText

namespace LogStatement

def level (c : LogStatement) : LogLevel := c.method.level

def toCall (c : LogStatement) : LogCall := ⟨c.target, c.level, c.ln, c.msg⟩

/-- The statement is at or above the threshold. -/
def Enabled (cfg : LogConfig) (c : LogStatement) : Prop := cfg.level.value ≤ c.level.value

instance (cfg : LogConfig) (c : LogStatement) : Decidable (c.Enabled cfg) :=
  inferInstanceAs (Decidable (cfg.level.value ≤ c.level.value))

end LogStatement

/-! ### Programs of log calls -/

/-- The steps of log calls one after the other.  The hooks do not log, so nothing moves the line state in between. -/
def performAll (cfg : LogConfig) (state : LogType) : List LogOp → LogType × List LogHookCall
  | [] => (state, [])
  | op :: ops =>
    ((performAll cfg (op.perform cfg state).1 ops).1,
      (op.perform cfg state).2 ++ (performAll cfg (op.perform cfg state).1 ops).2)

def runCalls (cfg : LogConfig) (state : LogType) (calls : List LogStatement) : LogType × List LogHookCall :=
  performAll cfg state (calls.flatMap fun c => c.toCall.ops cfg)

/-- What a hook is given to print, and as which part of a line. -/
def LogHookCall.printed : LogHookCall → Option (Bytes × LogType)
  | flush => none
  | staticPrint s _ kind => some (s.text, kind)
  | viewPrint s _ kind => some (s, kind)
  | traceStaticPrint s _ kind => some (s.text, kind)
  | traceViewPrint s _ kind => some (s, kind)

def printed (calls : List LogHookCall) : List (Bytes × LogType) := calls.filterMap LogHookCall.printed

/-- The texts that the hooks print over a program. -/
def texts (cfg : LogConfig) (state : LogType) (calls : List LogStatement) : List Bytes :=
  (printed (runCalls cfg state calls).2).map Prod.fst

/-! ### What one call prints -/

/-- The last line has no newline yet. -/
def LogType.isOpen : LogType → Bool
  | START => true
  | CONTINUITY => true
  | STARTEND => false
  | END => false

namespace LogStatement

/-- The line state behind a call. -/
def next (c : LogStatement) (state : LogType) : LogType := if c.ln then state.finalizeState else state.updateState

def head (c : LogStatement) : List (Bytes × LogType) :=
  [(ascii "[", .START), ((levelToString c.level).text, .CONTINUITY), (ascii "] ", .CONTINUITY),
    (c.target.text, .CONTINUITY), (ascii ": ", .CONTINUITY)]

def body (c : LogStatement) : Bytes × LogType := (c.msg.toView, .CONTINUITY)

def newline : Bytes × LogType := ([LF], .END)

/-- A call that is logged, where the last line is open or not. -/
def line (c : LogStatement) (isOpen : Bool) : List (Bytes × LogType) :=
  (if isOpen then [] else c.head) ++ c.body :: if c.ln then [newline] else []

end LogStatement

theorem performAll_append (cfg : LogConfig) (state : LogType) (ops more : List LogOp) :
    performAll cfg state (ops ++ more) =
      ((performAll cfg (performAll cfg state ops).1 more).1,
        (performAll cfg state ops).2 ++ (performAll cfg (performAll cfg state ops).1 more).2) := by
  induction ops generalizing state with
  | nil => rfl
  | cons op ops ih =>
    rw [List.cons_append, performAll, performAll, ih]
    simp only [List.append_assoc]

@[simp]
theorem printed_append (a b : List LogHookCall) : printed (a ++ b) = printed a ++ printed b :=
  List.filterMap_append

theorem printed_logPrint (msg : LogText) (level : LogLevel) (kind : LogType) :
    (logPrint msg level kind).printed = some (msg.toView, kind) := by
  unfold logPrint
  cases msg with
  | progmem s => dsimp only; split <;> rfl
  | view s => dsimp only; split <;> rfl

theorem printed_flush (cfg : LogConfig) (state : LogType) : printed (LogOp.flush.perform cfg state).2 = [] := by
  unfold LogOp.perform
  dsimp only
  split <;> rfl

theorem LogStatement.level_ne (c : LogStatement) : c.level ≠ .NO_LOG := by
  unfold level
  cases c.method <;> decide

section Call

variable (cfg : LogConfig) (state : LogType) (c : LogStatement)

theorem isOpen_next : (c.next state).isOpen = !c.ln := by
  unfold LogStatement.next
  cases c.ln <;> cases state <;> rfl

/-- The head is printed where the line before is finished: `START` and `STARTEND` come from `END` and `STARTEND`. -/
theorem printed_head :
    printed (printLogType c.target (c.next state) c.level) = if state.isOpen then [] else c.head := by
  have hhead : printed (printLogType.lineHead c.target c.level) = c.head := by
    simp only [printLogType.lineHead, printed, List.filterMap_cons, printed_logPrint, List.filterMap_nil]
    rfl
  unfold printLogType
  rw [if_neg c.level_ne]
  unfold LogStatement.next
  cases c.ln with
  | true => cases state with
    | START => rfl
    | CONTINUITY => rfl
    | STARTEND => exact hhead
    | END => exact hhead
  | false => cases state with
    | START => rfl
    | CONTINUITY => rfl
    | STARTEND => exact hhead
    | END => exact hhead

/-- The newline is printed by the `ln` variants: they lead to `END` and `STARTEND`. -/
theorem printed_terminate :
    printed ((LogOp.terminate c.level (if c.ln then iopStr "\n" else iopStr "")).perform cfg (c.next state)).2 =
      if c.ln then [LogStatement.newline] else [] := by
  unfold LogStatement.next
  cases c.ln with
  | true =>
    have hend : (state.finalizeState = .END ∨ state.finalizeState = .STARTEND) := by
      cases state <;> simp [LogType.finalizeState]
    simp only [LogOp.perform, if_true, if_pos hend, printed, List.filterMap_cons, printed_logPrint, List.filterMap_nil]
    rfl
  | false =>
    have hend : ¬ (state.updateState = .END ∨ state.updateState = .STARTEND) := by
      cases state <;> simp [LogType.updateState]
    simp only [LogOp.perform, Bool.false_eq_true, if_false, if_neg hend]
    rfl

theorem performAll_suppressed (h : ¬ c.Enabled cfg) : performAll cfg state (c.toCall.ops cfg) = (c.next state, []) := by
  have hlevel : cfg.level.value > c.toCall.level.value := Nat.lt_of_not_le h
  unfold LogCall.ops LogStatement.next
  rw [if_pos hlevel]
  cases hln : c.ln <;> simp [LogStatement.toCall, hln, performAll, LogOp.perform]

theorem performAll_enabled (h : c.Enabled cfg) :
    (performAll cfg state (c.toCall.ops cfg)).1 = c.next state ∧
      printed (performAll cfg state (c.toCall.ops cfg)).2 = c.line state.isOpen := by
  have hlevel : ¬ cfg.level.value > c.toCall.level.value := Nat.not_lt_of_le h
  have hfirst : ∀ ops, performAll cfg state ((if c.toCall.ln then .finalizeState else .updateState) :: ops) =
      performAll cfg (c.next state) ops := by
    intro ops
    unfold LogStatement.next
    cases hln : c.ln <;> simp [LogStatement.toCall, hln, performAll, LogOp.perform]
  unfold LogCall.ops
  rw [if_neg hlevel, hfirst]
  constructor
  · rfl
  · -- the line state stays as the first step left it
    show printed ((LogOp.flush.perform cfg (c.next state)).2 ++ (printLogType c.target (c.next state) c.level ++
      ([logPrint c.msg c.level .CONTINUITY] ++
        (((LogOp.terminate c.level (if c.ln then iopStr "\n" else iopStr "")).perform cfg (c.next state)).2 ++
          ((LogOp.flush.perform cfg (c.next state)).2 ++ []))))) = c.line state.isOpen
    have hbody : printed [logPrint c.msg c.level .CONTINUITY] = [c.body] := by
      simp only [printed, List.filterMap_cons, printed_logPrint, List.filterMap_nil]
      rfl
    rw [printed_append, printed_append, printed_append, printed_append, printed_append, printed_flush, printed_head,
      printed_terminate, hbody]
    simp only [LogStatement.line, printed, List.filterMap_nil, List.append_nil, List.nil_append, List.singleton_append]

end Call

/-! ### What a program prints -/

/-- The last line is open behind `calls`, where `isOpen` says so for the place before them. -/
def openAfter (isOpen : Bool) (calls : List LogStatement) : Bool :=
  match calls.getLast? with
  | none => isOpen
  | some c => !c.ln

/-- What a program prints, call by call. -/
def printedFrom (cfg : LogConfig) (isOpen : Bool) : List LogStatement → List (Bytes × LogType)
  | [] => []
  | c :: calls => (if c.Enabled cfg then c.line isOpen else []) ++ printedFrom cfg (!c.ln) calls

section Program

variable {cfg : LogConfig} {isOpen : Bool}

@[simp]
theorem openAfter_append_singleton (calls : List LogStatement) (c : LogStatement) :
    openAfter isOpen (calls ++ [c]) = !c.ln := by
  unfold openAfter
  rw [List.getLast?_concat]

theorem openAfter_cons (c : LogStatement) (calls : List LogStatement) :
    openAfter isOpen (c :: calls) = openAfter (!c.ln) calls := by
  unfold openAfter
  cases calls with
  | nil => rfl
  | cons d calls => rw [List.getLast?_cons_cons, List.getLast?_cons]

theorem runCalls_cons (state : LogType) (c : LogStatement) (calls : List LogStatement) :
    runCalls cfg state (c :: calls) =
      ((runCalls cfg (performAll cfg state (c.toCall.ops cfg)).1 calls).1,
        (performAll cfg state (c.toCall.ops cfg)).2 ++
          (runCalls cfg (performAll cfg state (c.toCall.ops cfg)).1 calls).2) := by
  unfold runCalls
  rw [List.flatMap_cons, performAll_append]

theorem performAll_fst (state : LogType) (c : LogStatement) :
    (performAll cfg state (c.toCall.ops cfg)).1 = c.next state := by
  by_cases h : c.Enabled cfg
  · exact (performAll_enabled cfg state c h).1
  · rw [performAll_suppressed cfg state c h]

theorem isOpen_runCalls (state : LogType) (calls : List LogStatement) :
    (runCalls cfg state calls).1.isOpen = openAfter state.isOpen calls := by
  induction calls generalizing state with
  | nil => rfl
  | cons c calls ih =>
    rw [runCalls_cons, performAll_fst, openAfter_cons]
    dsimp only
    rw [ih, isOpen_next]

/-- The line state acts through one bit only. -/
theorem printed_runCalls (state : LogType) (calls : List LogStatement) :
    printed (runCalls cfg state calls).2 = printedFrom cfg state.isOpen calls := by
  induction calls generalizing state with
  | nil => rfl
  | cons c calls ih =>
    rw [runCalls_cons, performAll_fst, printed_append, ih, isOpen_next, printedFrom]
    congr 1
    by_cases h : c.Enabled cfg
    · rw [if_pos h]
      exact (performAll_enabled cfg state c h).2
    · rw [if_neg h, performAll_suppressed cfg state c h]
      rfl

theorem printedFrom_append (calls more : List LogStatement) :
    printedFrom cfg isOpen (calls ++ more) =
      printedFrom cfg isOpen calls ++ printedFrom cfg (openAfter isOpen calls) more := by
  induction calls generalizing isOpen with
  | nil => rfl
  | cons c calls ih =>
    rw [List.cons_append, printedFrom, printedFrom, ih, openAfter_cons, List.append_assoc]

end Program

/-! ### Lines -/

/-- What is printed of the calls of a line before its newline. -/
def unfinished : List LogStatement → List (Bytes × LogType)
  | [] => []
  | c :: calls => c.head ++ (c :: calls).map LogStatement.body

/-- The calls of one line: the `ln` variant comes last, and only there. -/
structure LogLine where
  opening : List LogStatement
  last : LogStatement
  opening_ln : ∀ c ∈ opening, c.ln = false
  last_ln : last.ln = true

namespace LogLine

def calls (l : LogLine) : List LogStatement := l.opening ++ [l.last]

def printed (l : LogLine) : List (Bytes × LogType) := unfinished l.calls ++ [LogStatement.newline]

end LogLine

/-- The events of a line with these calls: one `START`, then `CONTINUITY`, and one `END` where it is finished.  The
text has the level and the target of the call that opened the line, and the messages of all. -/
def IsLogLine (calls : List LogStatement) (finished : Bool) (events : List (Bytes × LogType)) : Prop :=
  ∃ first more, calls = first :: more ∧
    events.map Prod.snd =
      .START :: List.replicate (calls.length + 4) .CONTINUITY ++ (if finished then [.END] else []) ∧
    (events.map Prod.fst).flatten =
      ascii "[" ++ (levelToString first.level).text ++ ascii "] " ++ first.target.text ++ ascii ": " ++
        (calls.map fun c => c.msg.toView).flatten ++ (if finished then [LF] else [])

theorem isLogLine_unfinished (c : LogStatement) (calls : List LogStatement) :
    IsLogLine (c :: calls) false (unfinished (c :: calls)) := by
  have hkinds : ((c :: calls).map LogStatement.body).map Prod.snd =
      List.replicate (c :: calls).length .CONTINUITY := by
    rw [List.map_map, List.eq_replicate_iff]
    constructor
    · exact List.length_map _
    · intro kind hkind
      obtain ⟨d, -, rfl⟩ := List.mem_map.1 hkind
      rfl
  have htexts : ((c :: calls).map LogStatement.body).map Prod.fst = (c :: calls).map fun c => c.msg.toView := by
    rw [List.map_map]
    rfl
  refine ⟨c, calls, rfl, ?_, ?_⟩
  · rw [unfinished, List.map_append, hkinds, Nat.add_comm, List.replicate_add, if_neg Bool.false_ne_true,
      List.append_nil]
    rfl
  · rw [unfinished, List.map_append, htexts, List.flatten_append]
    simp only [LogStatement.head, List.map_cons, List.map_nil, List.flatten_cons, List.flatten_nil, List.append_nil,
      List.append_assoc, Bool.false_eq_true, if_false]

theorem isLogLine_finished (l : LogLine) : IsLogLine l.calls true l.printed := by
  obtain ⟨first, more, hcalls⟩ : ∃ first more, l.calls = first :: more :=
    List.exists_cons_of_ne_nil (List.append_ne_nil_of_right_ne_nil _ (List.cons_ne_nil _ _))
  obtain ⟨first', more', heq, hkinds, htexts⟩ := isLogLine_unfinished first more
  rw [if_neg Bool.false_ne_true, List.append_nil] at hkinds htexts
  refine ⟨first', more', hcalls.trans heq, ?_, ?_⟩
  · rw [LogLine.printed, hcalls, List.map_append, hkinds]
    rfl
  · rw [LogLine.printed, hcalls, List.map_append, List.flatten_append, htexts]
    rfl

/-- A further call of a line. -/
theorem unfinished_concat (calls : List LogStatement) (c : LogStatement) :
    unfinished (calls ++ [c]) = unfinished calls ++ ((if calls.isEmpty then c.head else []) ++ [c.body]) := by
  cases calls with
  | nil => rfl
  | cons d calls => simp [unfinished]

section Lines

variable {cfg : LogConfig}

/-- From a finished line on, calls that are all logged print whole lines and what there is of one more. -/
theorem printedFrom_lines {calls : List LogStatement} (h : ∀ c ∈ calls, c.Enabled cfg) :
    ∃ (lines : List LogLine) (rest : List LogStatement),
      calls = lines.flatMap LogLine.calls ++ rest ∧ (∀ c ∈ rest, c.ln = false) ∧
        printedFrom cfg false calls = lines.flatMap LogLine.printed ++ unfinished rest ∧
        openAfter false calls = !rest.isEmpty := by
  induction calls using List.reverseRecOn with
  | nil => exact ⟨[], [], rfl, fun c hc => absurd hc List.not_mem_nil, rfl, rfl⟩
  | append_singleton calls c ih =>
    rw [List.forall_mem_append, List.forall_mem_singleton] at h
    obtain ⟨lines, rest, hcalls, hrest, hprinted, hopen⟩ := ih h.1
    -- the call prints the head exactly when it is the first one of its line
    have hline : printedFrom cfg false (calls ++ [c]) =
        lines.flatMap LogLine.printed ++ (unfinished (rest ++ [c]) ++ if c.ln then [LogStatement.newline] else []) := by
      rw [printedFrom_append, hprinted, hopen, printedFrom, printedFrom, if_pos h.2, unfinished_concat,
        LogStatement.line]
      cases rest.isEmpty <;> simp
    cases hln : c.ln with
    | true =>
      refine ⟨lines ++ [⟨rest, c, hrest, hln⟩], [], ?_, fun d hd => absurd hd List.not_mem_nil, ?_, ?_⟩
      · rw [hcalls, List.flatMap_append]
        simp [LogLine.calls]
      · rw [hline, hln, List.flatMap_append]
        simp [LogLine.printed, LogLine.calls, unfinished]
      · rw [openAfter_append_singleton, hln]
        rfl
    | false =>
      refine ⟨lines, rest ++ [c], ?_, ?_, ?_, ?_⟩
      · rw [hcalls, List.append_assoc]
      · rw [List.forall_mem_append, List.forall_mem_singleton]
        exact ⟨hrest, hln⟩
      · rw [hline, hln, if_neg Bool.false_ne_true, List.append_nil]
      · rw [openAfter_append_singleton, hln]
        simp

/-- From the initial state on, calls that are all logged print finished lines and at most one unfinished line.  A line
ends at an `ln` call and nowhere else, and the line state says whether a line is open. -/
theorem logged_lines {calls : List LogStatement} (h : ∀ c ∈ calls, c.Enabled cfg) :
    ∃ (lines : List LogLine) (rest : List LogStatement),
      calls = lines.flatMap LogLine.calls ++ rest ∧ (∀ c ∈ rest, c.ln = false) ∧
        printed (runCalls cfg .END calls).2 = lines.flatMap LogLine.printed ++ unfinished rest ∧
        (∀ l ∈ lines, IsLogLine l.calls true l.printed) ∧
        (rest ≠ [] → IsLogLine rest false (unfinished rest)) ∧
        (if rest = [] then (runCalls cfg .END calls).1 = .END ∨ (runCalls cfg .END calls).1 = .STARTEND
          else (runCalls cfg .END calls).1 = .START ∨ (runCalls cfg .END calls).1 = .CONTINUITY) := by
  obtain ⟨lines, rest, hcalls, hrest, hprinted, hopen⟩ := printedFrom_lines h
  have hstate : (runCalls cfg .END calls).1.isOpen = !rest.isEmpty := (isOpen_runCalls _ calls).trans hopen
  refine ⟨lines, rest, hcalls, hrest, ?_, fun l _ => isLogLine_finished l, ?_, ?_⟩
  · rw [printed_runCalls]
    exact hprinted
  · intro hne
    obtain ⟨c, calls, rfl⟩ := List.exists_cons_of_ne_nil hne
    exact isLogLine_unfinished c calls
  · cases rest with
    | nil =>
      rw [if_pos rfl]
      revert hstate
      cases (runCalls cfg .END calls).1 <;> simp [LogType.isOpen]
    | cons c rest =>
      rw [if_neg (List.cons_ne_nil _ _)]
      revert hstate
      cases (runCalls cfg .END calls).1 <;> simp [LogType.isOpen]

end Lines

/-- The usual build: what is below `INFO` is not logged. -/
def infoBuild : LogConfig := ⟨.INFO, true, true⟩

/-- A call on the logger of one target. -/
def wifiCall (method : LogMethod) (ln : Bool) (msg : Bytes) : LogStatement := ⟨iopStr "WIFI", method, ln, .view msg⟩

/-- A line of two calls, and the beginning of another one. -/
theorem lines_of_three_calls :
    ∃ (lines : List LogLine) (rest : List LogStatement),
      [wifiCall .info false [65], wifiCall .warn true [66], wifiCall .info false [67]] =
          lines.flatMap LogLine.calls ++ rest ∧
        printed (runCalls infoBuild .END
          [wifiCall .info false [65], wifiCall .warn true [66], wifiCall .info false [67]]).2 =
            lines.flatMap LogLine.printed ++ unfinished rest := by
  have henabled : ∀ c ∈ [wifiCall .info false [65], wifiCall .warn true [66], wifiCall .info false [67]],
      c.Enabled infoBuild := by
    decide
  obtain ⟨lines, rest, hcalls, -, hprinted, -⟩ := logged_lines henabled
  exact ⟨lines, rest, hcalls, hprinted⟩

/-! ### Suppressed calls -/

/-- Each call that is logged finds the line as it would without the suppressed calls: open in both programs, or in
neither.  `isOpen` is for the place before the program, and `isOpen'` for the one without the suppressed calls. -/
def Agree (cfg : LogConfig) (isOpen isOpen' : Bool) (calls : List LogStatement) : Prop :=
  ∀ before c after, calls = before ++ c :: after → c.Enabled cfg →
    openAfter isOpen before = openAfter isOpen' (before.filter fun d => d.Enabled cfg)

/-- Behind each call that is logged, and before the first, the suppressed calls leave the line open exactly when it was
open there, up to the next call that is logged. -/
def Steady (cfg : LogConfig) (isOpen : Bool) (calls : List LogStatement) : Prop := Agree cfg isOpen isOpen calls

/-- A call without its message. -/
def LogStatement.shape (c : LogStatement) : StaticString × LogMethod × Bool := (c.target, c.method, c.ln)

section Suppressed

variable {cfg : LogConfig} {isOpen isOpen' : Bool}

theorem agree_nil : Agree cfg isOpen isOpen' [] := by
  intro before c after h
  exact absurd h.symm (List.append_ne_nil_of_right_ne_nil _ (List.cons_ne_nil _ _))

theorem agree_cons_enabled {c : LogStatement} (h : c.Enabled cfg) (calls : List LogStatement) :
    Agree cfg isOpen isOpen' (c :: calls) ↔ isOpen = isOpen' ∧ Agree cfg (!c.ln) (!c.ln) calls := by
  constructor
  · intro hagree
    refine ⟨hagree [] c calls rfl h, ?_⟩
    intro before d after hcalls hd
    have := hagree (c :: before) d after (by rw [hcalls, List.cons_append]) hd
    rwa [List.filter_cons_of_pos (by simpa using h), openAfter_cons, openAfter_cons] at this
  · rintro ⟨rfl, hagree⟩ before d after hcalls hd
    cases before with
    | nil => rfl
    | cons b before =>
      rw [List.cons_append, List.cons.injEq] at hcalls
      obtain ⟨rfl, hcalls⟩ := hcalls
      rw [List.filter_cons_of_pos (by simpa using h), openAfter_cons, openAfter_cons]
      exact hagree before d after hcalls hd

theorem agree_cons_suppressed {c : LogStatement} (h : ¬ c.Enabled cfg) (calls : List LogStatement) :
    Agree cfg isOpen isOpen' (c :: calls) ↔ Agree cfg (!c.ln) isOpen' calls := by
  constructor
  · intro hagree before d after hcalls hd
    have := hagree (c :: before) d after (by rw [hcalls, List.cons_append]) hd
    rwa [List.filter_cons_of_neg (by simpa using h), openAfter_cons] at this
  · intro hagree before d after hcalls hd
    cases before with
    | nil =>
      rw [List.nil_append, List.cons.injEq] at hcalls
      exact absurd (hcalls.1 ▸ hd) h
    | cons b before =>
      rw [List.cons_append, List.cons.injEq] at hcalls
      obtain ⟨rfl, hcalls⟩ := hcalls
      rw [List.filter_cons_of_neg (by simpa using h), openAfter_cons]
      exact hagree before d after hcalls hd

theorem agree_congr {calls worded : List LogStatement} (h : worded.map LogStatement.shape = calls.map LogStatement.shape) :
    Agree cfg isOpen isOpen' worded ↔ Agree cfg isOpen isOpen' calls := by
  induction calls generalizing worded isOpen isOpen' with
  | nil => rw [List.map_eq_nil_iff.1 h]
  | cons c calls ih =>
    obtain ⟨d, worded, rfl⟩ : ∃ d more, worded = d :: more := by
      cases worded with
      | nil => cases h
      | cons d more => exact ⟨d, more, rfl⟩
    rw [List.map_cons, List.map_cons, List.cons.injEq] at h
    obtain ⟨hshape, hcalls⟩ := h
    have hln : d.ln = c.ln := congrArg (fun s => s.2.2) hshape
    have hlevel : d.level = c.level := congrArg (fun s => s.2.1.level) hshape
    by_cases hc : c.Enabled cfg
    · have hd : d.Enabled cfg := by
        unfold LogStatement.Enabled
        rw [hlevel]
        exact hc
      rw [agree_cons_enabled hc, agree_cons_enabled hd, hln, ih hcalls]
    · have hd : ¬ d.Enabled cfg := by
        unfold LogStatement.Enabled
        rw [hlevel]
        exact hc
      rw [agree_cons_suppressed hc, agree_cons_suppressed hd, hln, ih hcalls]

/-- What a reader `f` of the events sees is the same in both programs exactly when they agree, if it can tell a message
from the start of a line. -/
theorem printedFrom_filter_iff {β : Type} (f : Bytes × LogType → β) {calls : List LogStatement}
    (hf : ∀ c ∈ calls, f c.body ≠ f (ascii "[", .START)) :
    (printedFrom cfg isOpen calls).map f =
        (printedFrom cfg isOpen' (calls.filter fun c => c.Enabled cfg)).map f ↔
      Agree cfg isOpen isOpen' calls := by
  induction calls generalizing isOpen isOpen' with
  | nil => exact iff_of_true rfl agree_nil
  | cons c calls ih =>
    rw [List.forall_mem_cons] at hf
    by_cases hc : c.Enabled cfg
    · rw [agree_cons_enabled hc, List.filter_cons_of_pos (by simpa using hc), printedFrom, printedFrom, if_pos hc,
        if_pos hc, List.map_append, List.map_append]
      by_cases heq : isOpen = isOpen'
      · rw [heq, List.append_cancel_left_eq, ih hf.2]
        simp
      · -- one of the two programs prints the message where the other one starts a line
        apply iff_of_false
        · intro hprinted
          cases isOpen <;> cases isOpen'
          · exact heq rfl
          · exact hf.1 (List.cons.inj hprinted).1.symm
          · exact hf.1 (List.cons.inj hprinted).1
          · exact heq rfl
        · exact fun h => heq h.1
    · rw [agree_cons_suppressed hc, List.filter_cons_of_neg (by simpa using hc), printedFrom, if_neg hc,
        List.nil_append]
      exact ih hf.2

theorem texts_filter_of_agree {state : LogType} {calls : List LogStatement} (h : Steady cfg state.isOpen calls) :
    texts cfg state calls = texts cfg state (calls.filter fun c => c.Enabled cfg) := by
  have hevents := (printedFrom_filter_iff id (fun c _ => by simp [LogStatement.body])).2 h
  rw [List.map_id, List.map_id] at hevents
  unfold texts
  rw [printed_runCalls, printed_runCalls, hevents]

/-- Leaving the suppressed calls out of a program changes nothing of what the hooks are given, and nothing of the text
whatever the messages are, exactly when the program is steady. -/
theorem suppressed_iff (cfg : LogConfig) (state : LogType) (calls : List LogStatement) :
    (printed (runCalls cfg state calls).2 = printed (runCalls cfg state (calls.filter fun c => c.Enabled cfg)).2 ↔
        Steady cfg state.isOpen calls) ∧
      ((∀ worded : List LogStatement, worded.map LogStatement.shape = calls.map LogStatement.shape →
          texts cfg state worded = texts cfg state (worded.filter fun c => c.Enabled cfg)) ↔
        Steady cfg state.isOpen calls) := by
  constructor
  · have hiff : (printedFrom cfg state.isOpen calls).map id =
        (printedFrom cfg state.isOpen (calls.filter fun c => c.Enabled cfg)).map id ↔
          Agree cfg state.isOpen state.isOpen calls :=
      printedFrom_filter_iff id (fun c _ => by simp [LogStatement.body])
    rw [List.map_id, List.map_id] at hiff
    rw [printed_runCalls, printed_runCalls]
    exact hiff
  · constructor
    · intro h
      -- messages without a text cannot be taken for the head of a line
      have hshape : (calls.map fun c => { c with msg := .view [] }).map LogStatement.shape =
          calls.map LogStatement.shape := by
        rw [List.map_map]
        rfl
      have htexts := h _ hshape
      unfold texts at htexts
      rw [printed_runCalls, printed_runCalls, printedFrom_filter_iff, agree_congr hshape] at htexts
      · exact htexts
      · intro c hc
        obtain ⟨d, -, rfl⟩ := List.mem_map.1 hc
        exact (List.cons_ne_nil _ _).symm
    · intro h worded hworded
      exact texts_filter_of_agree ((agree_congr hworded).2 h)

end Suppressed

/-- A debug message that is not printed takes the head of the line away from the message behind it. -/
theorem head_lost :
    texts infoBuild .END [wifiCall .debug false [65], wifiCall .info true [66]] ≠
      texts infoBuild .END
        ([wifiCall .debug false [65], wifiCall .info true [66]].filter fun c => c.Enabled infoBuild) := by
  decide

end IopHal
