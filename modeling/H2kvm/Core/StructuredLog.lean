import Mathlib.Data.List.Perm.Basic
import Mathlib.Logic.Function.Basic
import H2kvm.Framework.Data
import H2kvm.Framework.Run

namespace H2kvm.Core

open Framework

structure WriterConfig where
  maxsize : Nat := 10000
  overflowWarnInterval : Nat := 1000
  bounded : 0 < maxsize := by decide
  interval_pos : 0 < overflowWarnInterval := by decide

/-- What one call of `write` submits. -/
structure Message where
  call : Nat
  text : String
  deriving DecidableEq

/-- What is written to the destination: a message with its newline, or the warning of an overflow. -/
inductive Line where
  | message (m : Message)
  | overflow (dropped : Nat)
  deriving DecidableEq

/-- Where a call of `write` stands that has found the queue full. -/
inductive WritePhase where
  | full
  | counted (warn : Bool)
  | cleared (warn : Bool)
  | warning
  deriving DecidableEq

structure WriteCall where
  message : Message
  phase : WritePhase := .full
  deriving DecidableEq

inductive DrainPhase where
  | uncalled
  | putting
  | joining
  deriving DecidableEq

/-- The queue, where `none` is the sentinel, and the threads around it. What was submitted, put on
the queue, written and dropped is kept beside, and whether `drain` came after all the writes. -/
structure AsyncLogWriter where
  queue : List (Option Message) := []
  calls : List WriteCall := []
  overflowCount : Nat := 0
  hand : Option Message := none
  stopped : Bool := false
  drain : DrainPhase := .uncalled
  dest : List Line := []
  submitted : List Message := []
  entered : List Message := []
  written : List Message := []
  dropped : List Message := []
  quiet : Bool := true
  deriving DecidableEq

/-- The next operation of one of the threads: of a call of `write`, of the writer thread or of `drain`.
Whether the destination takes what is written to it is given with the operation. -/
inductive LogEvent where
  | submit (text : String)
  | write (i : Nat) (works : Bool)
  | take
  | emit (works : Bool)
  | drain
  | putSentinel
  deriving DecidableEq

namespace AsyncLogWriter

variable (cfg : WriterConfig)

def isFull (s : AsyncLogWriter) : Bool := cfg.maxsize ≤ s.queue.length

def put (s : AsyncLogWriter) (m : Message) : AsyncLogWriter :=
  { s with queue := s.queue ++ [some m], entered := s.entered ++ [m] }

def setPhase (s : AsyncLogWriter) (i : Nat) (c : WriteCall) (phase : WritePhase) : AsyncLogWriter :=
  { s with calls := s.calls.set i { c with phase } }

/-- The call is done, or has its warning left to write. -/
def conclude (s : AsyncLogWriter) (i : Nat) (c : WriteCall) (warn : Bool) : AsyncLogWriter :=
  if warn then s.setPhase i c .warning else { s with calls := s.calls.eraseIdx i }

/-- `put_nowait`, at the start of `write`. -/
def submit (s : AsyncLogWriter) (text : String) : AsyncLogWriter :=
  let m : Message := ⟨s.submitted.length, text⟩
  let s := { s with submitted := s.submitted ++ [m], quiet := s.quiet && decide (s.drain = DrainPhase.uncalled) }
  if s.isFull cfg then { s with calls := s.calls ++ [{ message := m }] } else s.put m

/-- The next operation of a call of `write` that has found the queue full. -/
def overflow (s : AsyncLogWriter) (i : Nat) (c : WriteCall) (works : Bool) : AsyncLogWriter :=
  match c.phase with
  | .full =>
    let count := s.overflowCount + 1
    ({ s with overflowCount := count }).setPhase i c (.counted (count % cfg.overflowWarnInterval = 0))
  | .counted warn =>
    -- `get_nowait`: whatever comes first on the queue is gone
    let s := s.setPhase i c (.cleared warn)
    match s.queue with
    | [] => s
    | none :: queue => { s with queue }
    | some m :: queue => { s with queue, dropped := s.dropped ++ [m] }
  | .cleared warn =>
    let s := s.conclude i c warn
    if s.isFull cfg then { s with dropped := s.dropped ++ [c.message] } else s.put c.message
  | .warning =>
    let s := { s with calls := s.calls.eraseIdx i }
    if works then { s with dest := s.dest ++ [.overflow s.overflowCount] } else s

/-- `get`, by the writer thread. -/
def take (s : AsyncLogWriter) : AsyncLogWriter :=
  if s.stopped ∨ s.hand ≠ none then s
  else
    match s.queue with
    | [] => s
    | none :: queue => { s with queue, stopped := true }
    | some m :: queue => { s with queue, hand := some m }

/-- The writer thread writes what it has taken; an error of the destination is passed over. -/
def emit (s : AsyncLogWriter) (works : Bool) : AsyncLogWriter :=
  match s.hand with
  | none => s
  | some m =>
    let s := { s with hand := none }
    if works then { s with dest := s.dest ++ [.message m], written := s.written ++ [m] } else s

def step (s : AsyncLogWriter) (e : LogEvent) : AsyncLogWriter :=
  match e with
  | .submit text => s.submit cfg text
  | .write i works =>
    match s.calls[i]? with
    | none => s
    | some c => s.overflow cfg i c works
  | .take => s.take
  | .emit works => s.emit works
  | .drain => if s.drain = .uncalled then { s with drain := .putting, quiet := s.quiet && s.calls.isEmpty } else s
  | .putSentinel =>
    -- `put` waits for room
    if s.drain = .putting ∧ !s.isFull cfg then { s with queue := s.queue ++ [none], drain := .joining } else s

/-- The messages that calls of `write` still have to put on the queue or to drop. -/
def held (calls : List WriteCall) : List Message :=
  calls.filterMap fun c => if c.phase = .warning then none else some c.message

def queued (queue : List (Option Message)) : List Message := queue.filterMap id

/-- An operation of the writer thread or of `drain`. -/
def ofShutdown : LogEvent → Bool
  | .take | .emit true | .putSentinel => true
  | _ => false

/-- What the writer promises in every state: each message is in one place, the writes are in the order
of the queue, what was dropped was counted once no call of `write` runs, the sentinel gets through
once `drain` is called, and with all writes before it every message was written or dropped by then. -/
structure Accounted (s : AsyncLogWriter) : Prop where
  places : (s.written ++ s.dropped ++ (s.hand.toList ++ queued s.queue ++ held s.calls)).Perm s.submitted
  distinct : s.submitted.Nodup
  order : (s.written ++ s.hand.toList ++ queued s.queue).Sublist s.entered
  count : s.calls = [] → s.dropped.length = s.overflowCount
  shutdown : s.drain ≠ .uncalled → ∃ turns, (∀ e ∈ turns, ofShutdown e = true) ∧ (run (step cfg) s turns).stopped = true
  finished : s.stopped = true → s.quiet = true → (s.written ++ s.dropped).Perm s.submitted

/-- On an overflow the oldest message makes room for the new one, and the destination works. -/
def Replaces (s : AsyncLogWriter) : LogEvent → Prop
  | .write i _ =>
    match (s.calls[i]?).map WriteCall.phase with
    | some (.counted _) => ∃ m queue, s.queue = some m :: queue
    | some (.cleared _) => s.isFull cfg = false
    | _ => True
  | .emit works => works = true
  | _ => True

end AsyncLogWriter

end H2kvm.Core

namespace H2kvm.Core.StructuredLog

/-- The methods of `BoundLogger` that log at a level. -/
inductive Method where
  | debug
  | info
  | warning
  | error
  | critical
  deriving DecidableEq

/-- `getattr(logger, level, logger.info)`. -/
def Method.ofLevel (level : String) : Method :=
  match level with
  | "debug" => .debug
  | "warning" => .warning
  | "error" => .error
  | "critical" => .critical
  | _ => .info

def Method.number : Method → Nat
  | debug => 10
  | info => 20
  | warning => 30
  | error => 40
  | critical => 50

/-- `_LOG_LEVEL_MAP.get(level, logging.DEBUG)`. -/
def threshold (level : String) : Nat :=
  match level with
  | "debug" => 10
  | "info" => 20
  | "warning" | "warn" => 30
  | "error" => 40
  | "critical" => 50
  | _ => 10

/-- `level.lower()`. -/
def lower (level : String) : String := String.ofList (level.toList.map Char.toLower)

variable {V : Type*}

structure EventDict (V : Type*) where
  event : String
  level : Method
  /-- Whether `_audit` is true. -/
  audit : Bool := false
  channel : Option String := none
  fields : List (String × V)

/-- A processor that drops nothing: it returns the event or a text, which is then written. -/
abbrev Processor (V : Type*) := EventDict V → EventDict V ⊕ String

/-- What Python makes of the values of the fields. -/
structure Formatting (V : Type*) where
  truthy : V → Bool
  /-- `add_envelope` and `_enforce_field_limits`. -/
  envelope : EventDict V → EventDict V
  /-- The record of the audit channel as JSON, unless that raises. -/
  auditJson : String → List (String × V) → Option String
  /-- The processors behind the custom ones, as JSON or for the console, unless they raise. -/
  render : Bool → EventDict V → Option String

/-- The custom processors in their order. -/
def runCustom : List (Processor V) → EventDict V → EventDict V ⊕ String
  | [], d => .inl d
  | fn :: fns, d =>
    match fn d with
    | .inl d => runCustom fns d
    | .inr text => .inr text

/-- The processors that are configured: the custom ones of that time, and the renderer. -/
structure Pipeline (V : Type*) where
  custom : List (Processor V) := []
  json : Bool := true

/-- `_proxy`: the text that is written; `none` if the event is dropped or a processor raises. The token bucket and the
random draw decide on an event that is not an audit event. -/
def proxy (fmt : Formatting V) (p : Pipeline V) (level : String) (tokens kept : Bool) (d : EventDict V) : Option String :=
  if d.level.number < threshold level then none
  else
    let d := { fmt.envelope d with level := d.level, audit := d.audit }
    if !(d.audit || tokens) then none
    else if !(d.audit || kept) then none
    else
      match runCustom p.custom d with
      | .inl d => fmt.render p.json d
      | .inr text => some text

/-- The state of the module. `accepted` is what was put on the queue of each writer. The logger factory hands out the
main writer, or prints where there is none. -/
structure Logging (V : Type*) where
  configured : Bool := false
  level : String := "debug"
  custom : List (Processor V) := []
  pipeline : Pipeline V := {}
  mainWriter : Option Nat := none
  auditWriter : Option Nat := none
  next : Nat := 0
  accepted : Nat → List Message := fun _ => []
  printed : List Message := []
  calls : Nat := 0
  audits : List Nat := []

inductive Call (V : Type*) where
  | setLogLevel (level : String)
  | addProcessor (fn : Processor V)
  | configure (json isAsync : Bool)
  | logEvent (event level : String) (fields : List (String × V)) (tokens kept : Bool)
  | logAudit (event : String) (fields : List (String × V))

/-- A keyword is passed twice, which is a `TypeError`. -/
def clashes (names : List String) (fields : List (String × V)) : Bool := fields.any fun f => names.contains f.1

namespace Logging

variable (fmt : Formatting V) (s : Logging V)

/-- `AsyncLogWriter.write`, where the queue has room. -/
def put (i : Nat) (m : Message) : Logging V :=
  { s with accepted := Function.update s.accepted i (s.accepted i ++ [m]) }

def setLogLevel (level : String) : Logging V := { s with level := lower level, configured := false }

def addProcessor (fn : Processor V) : Logging V := { s with custom := s.custom ++ [fn], configured := false }

/-- `configure_structured_logging`. -/
def configure (json isAsync : Bool) : Logging V :=
  let s := { s with pipeline := ⟨s.custom, json⟩, configured := true }
  if isAsync then { s with mainWriter := some s.next, auditWriter := some (s.next + 1), next := s.next + 2 }
  else { s with mainWriter := none, auditWriter := none }

/-- `_ensure_configured`. -/
def ensureConfigured : Logging V := if s.configured then s else s.configure true true

/-- The message is written by the logger of the main pipeline. -/
def msg (m : Message) : Logging V :=
  match s.mainWriter with
  | some i => s.put i m
  | none => { s with printed := s.printed ++ [m] }

/-- `log_event`, whose message gets the number of the call. -/
def logEvent (tokens kept : Bool) (d : EventDict V) : Logging V :=
  let s := s.ensureConfigured
  if clashes ["method_name", "self"] d.fields then s
  else
    match proxy fmt s.pipeline s.level tokens kept d with
    | some text => s.msg ⟨s.calls, text⟩
    | none => s

/-- The record of the audit channel, if there is a writer for it. -/
def auditRecord (event : String) (fields : List (String × V)) : Logging V :=
  match s.auditWriter, fmt.auditJson event fields with
  | some i, some text => s.put i ⟨s.calls, text⟩
  | _, _ => s

/-- What `log_audit` passes on to the main pipeline. -/
def auditEvent (event : String) (fields : List (String × V)) : EventDict V :=
  { event, level := .warning, audit := true, channel := some "audit", fields }

/-- `log_audit`. -/
def logAudit (event : String) (fields : List (String × V)) : Logging V :=
  let s := s.auditRecord fmt event fields
  if clashes ["level", "_audit", "channel"] fields then s
  else s.logEvent fmt true true (auditEvent event fields)

def step : Call V → Logging V
  | .setLogLevel level => s.setLogLevel level
  | .addProcessor fn => s.addProcessor fn
  | .configure json isAsync => s.configure json isAsync
  | .logEvent event level fields tokens kept =>
    let audit := fields.any fun f => f.1 == "_audit" && fmt.truthy f.2
    let s := s.logEvent fmt tokens kept { event, level := Method.ofLevel level, audit, fields }
    { s with calls := s.calls + 1 }
  | .logAudit event fields =>
    let s := s.logAudit fmt event fields
    { s with calls := s.calls + 1, audits := s.audits ++ [s.calls] }

/-- The state after these calls from the unconfigured module. -/
def after (calls : List (Call V)) : Logging V := calls.foldl (step fmt) {}

end Logging

/-- A call, or a writer's thread takes the next message from its queue and writes it. -/
inductive Event (V : Type*) where
  | call (c : Call V)
  | write (i : Nat)

/-- The module and how many messages each writer's thread has written. -/
structure Process (V : Type*) where
  logging : Logging V := {}
  written : Nat → Nat := fun _ => 0

namespace Process

variable (fmt : Formatting V) (p : Process V)

def step : Event V → Process V
  | .call c => { p with logging := p.logging.step fmt c }
  | .write i => { p with written := Function.update p.written i (min (p.written i + 1) (p.logging.accepted i).length) }

def run (events : List (Event V)) : Process V := events.foldl (step fmt) {}

/-- `_shutdown_logging`, where each drain completes. -/
def shutdown : Process V :=
  { p with written := fun i =>
      if p.logging.mainWriter = some i ∨ p.logging.auditWriter = some i then (p.logging.accepted i).length
      else p.written i }

/-- What a writer has written. -/
def output (i : Nat) : List Message := (p.logging.accepted i).take (p.written i)

/-- Every audit event is written to some output, and so is everything a replaced writer has accepted. -/
structure Delivered : Prop where
  audits : ∀ id ∈ p.logging.audits, ∃ m : Message, m.call = id ∧ (m ∈ p.logging.printed ∨ ∃ i, m ∈ p.output i)
  replaced : ∀ i, p.logging.mainWriter ≠ some i → p.logging.auditWriter ≠ some i → p.output i = p.logging.accepted i

end Process

end H2kvm.Core.StructuredLog
