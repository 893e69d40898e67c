import IopHal.Bytes

/-!
# The log

`iop::Log` down to its hooks.  A log call is a list of small operations (`LogCall.ops`): the global line state is
advanced first, and only then is the level tested.  `Log::log` gets the line state by reference, so each operation
reads it when its turn comes (`LogOp.perform`); a hook that logs itself has moved it by then.
-/

namespace IopHal

/-- `iop::LogLevel` -/
inductive LogLevel
  | TRACE
  | DEBUG
  | INFO
  | WARN
  | ERROR
  | CRIT
  | NO_LOG
  deriving DecidableEq

def LogLevel.value : LogLevel → Nat
  | TRACE => 0
  | DEBUG => 1
  | INFO => 2
  | WARN => 3
  | ERROR => 4
  | CRIT => 5
  | NO_LOG => 6

/-- `iop::LogType` -/
inductive LogType
  | START
  | CONTINUITY
  | STARTEND
  | END
  deriving DecidableEq

def LogType.updateState : LogType → LogType
  | START => CONTINUITY
  | CONTINUITY => CONTINUITY
  | STARTEND => START
  | END => START

def LogType.finalizeState : LogType → LogType
  | START => END
  | CONTINUITY => END
  | STARTEND => STARTEND
  | END => STARTEND

/-- A message: `iop::StaticString` or `std::string_view`.  Numbers are logged through `std::to_string`. -/
inductive LogText
  | progmem (s : StaticString)
  | view (s : Bytes)

def LogText.toView : LogText → Bytes
  | progmem s => s.text
  | view s => s

/-- `IOP_STR` -/
def iopStr (s : String) (h : NUL ∉ ascii s := by decide) : StaticString := ⟨ascii s, h⟩

def logStr (s : String) (h : NUL ∉ ascii s := by decide) : LogText := .progmem (iopStr s h)

def logNumber (n : Nat) : LogText := .view (ascii (toString n))

/-- What follows the head of a line and the place of a panic. -/
def colonText : LogText := logStr ": "

def levelToString : LogLevel → StaticString
  | .TRACE => iopStr "TRACE"
  | .DEBUG => iopStr "DEBUG"
  | .INFO => iopStr "INFO"
  | .WARN => iopStr "WARN"
  | .ERROR => iopStr "ERROR"
  | .CRIT => iopStr "CRIT"
  | .NO_LOG => iopStr "NO_LOG"

/-! ### What reaches the hooks -/

/-- A call of one of the functions of `iop::LogHook`. -/
inductive LogHookCall
  | flush
  | staticPrint (s : StaticString) (level : LogLevel) (kind : LogType)
  | viewPrint (s : Bytes) (level : LogLevel) (kind : LogType)
  | traceStaticPrint (s : StaticString) (level : LogLevel) (kind : LogType)
  | traceViewPrint (s : Bytes) (level : LogLevel) (kind : LogType)

/-- `Log::print` -/
def logPrint (msg : LogText) (level : LogLevel) (kind : LogType) : LogHookCall :=
  match msg with
  | .view s => if level.value > LogLevel.TRACE.value then .viewPrint s level kind else .traceViewPrint s level kind
  | .progmem s =>
    if level.value > LogLevel.TRACE.value then .staticPrint s level kind else .traceStaticPrint s level kind

/-- The prints of `Log::printLogType`: the head of a line, where one begins. -/
def printLogType (target : StaticString) (kind : LogType) (level : LogLevel) : List LogHookCall :=
  if level = .NO_LOG then []
  else
    match kind with
    | .CONTINUITY => []
    | .END => []
    | .START => lineHead
    | .STARTEND => lineHead
where
  lineHead : List LogHookCall :=
    [logPrint (logStr "[") level .START,
      logPrint (.progmem (levelToString level)) level .CONTINUITY,
      logPrint (logStr "] ") level .CONTINUITY,
      logPrint (.progmem target) level .CONTINUITY,
      logPrint colonText level .CONTINUITY]

/-- What the build and the globals of `log.cpp` fix. -/
structure LogConfig where
  level : LogLevel
  hasInitialized : Bool
  shouldFlush : Bool

def LogConfig.isTracing (cfg : LogConfig) : Bool :=
  cfg.hasInitialized && decide (cfg.level.value ≤ LogLevel.TRACE.value)

/-- The steps of a log call. -/
inductive LogOp
  | updateState
  | finalizeState
  | flush
  | printLogType (target : StaticString) (level : LogLevel)
  | print (msg : LogText) (level : LogLevel)
  | terminate (level : LogLevel) (lineTermination : StaticString)

/-- What a step makes of the line state, and which hooks it calls. -/
def LogOp.perform (cfg : LogConfig) (state : LogType) : LogOp → LogType × List LogHookCall
  | updateState => (state.updateState, [])
  | finalizeState => (state.finalizeState, [])
  | flush => (state, if cfg.shouldFlush then [.flush] else [])
  | printLogType target level => (state, IopHal.printLogType target state level)
  | print msg level => (state, [logPrint msg level .CONTINUITY])
  | terminate level lineTermination =>
    (state,
      if state = .END ∨ state = .STARTEND then [logPrint (.progmem lineTermination) level .END]
      else if lineTermination.text.length ≠ 0 then [logPrint (.progmem lineTermination) level .CONTINUITY]
      else [])

/-- One call of a method of a logger, such as `trace`, or `traceln` where `ln` is set. -/
structure LogCall where
  target : StaticString
  level : LogLevel
  ln : Bool
  msg : LogText

def LogCall.ops (cfg : LogConfig) (c : LogCall) : List LogOp :=
  (if c.ln then .finalizeState else .updateState) ::
    if cfg.level.value > c.level.value then []
    else
      [.flush, .printLogType c.target c.level, .print c.msg c.level,
        .terminate c.level (if c.ln then iopStr "\n" else iopStr ""), .flush]

/-! ### Tracers and memory reports -/

/-- `iop::CodePoint` -/
structure CodePoint where
  line : Nat
  file : StaticString
  func : StaticString

/-- `iop_hal::Memory` -/
structure Memory where
  availableStack : Nat
  availableHeap : List (Bytes × Nat)
  biggestHeapBlock : List (Bytes × Nat)

/-- The part that `Tracer::Tracer` and `logMemory` share, up to their call of `Wifi::status`. -/
def reportMemory (target : StaticString) (level : LogLevel) (memory : Memory) : List LogCall :=
  [⟨target, level, false, logStr "Free stack "⟩, ⟨target, level, true, logNumber memory.availableStack⟩] ++
    memory.availableHeap.flatMap (fun item =>
      [⟨target, level, false, logStr "Free "⟩, ⟨target, level, false, .view item.1⟩,
        ⟨target, level, false, logStr " "⟩, ⟨target, level, true, logNumber item.2⟩]) ++
    memory.biggestHeapBlock.flatMap (fun item =>
      [⟨target, level, false, logStr "Biggest "⟩, ⟨target, level, false, .view item.1⟩,
        ⟨target, level, false, logStr " Block "⟩, ⟨target, level, true, logNumber item.2⟩]) ++
    [⟨target, level, false, logStr "Connection "⟩]

/-- The line that ends with the status. -/
def reportConnection (target : StaticString) (level : LogLevel) (connected : Bool) : List LogCall :=
  [⟨target, level, true, logNumber connected.toNat⟩]

def tracerName : StaticString := iopStr "TRACER"

def logScope (head : LogText) (point : CodePoint) : List LogCall :=
  [⟨tracerName, .TRACE, false, head⟩,
    ⟨tracerName, .TRACE, false, logNumber point.line⟩,
    ⟨tracerName, .TRACE, false, logStr ", in function "⟩,
    ⟨tracerName, .TRACE, false, .progmem point.func⟩,
    ⟨tracerName, .TRACE, false, logStr ", at file "⟩,
    ⟨tracerName, .TRACE, true, .progmem point.file⟩]

/-- What `Tracer::Tracer` logs before the memory. -/
def enterScope (point : CodePoint) : List LogCall := logScope (logStr "Entering new scope at line ") point

/-- `Tracer::~Tracer` -/
def leaveScope (point : CodePoint) : List LogCall := logScope (logStr "Leaving scope, at line ") point

end IopHal
