import H2kvm.Framework.Data

namespace H2kvm.Web

open Framework

/-- A `time.Time`, in nanoseconds. -/
abbrev Time := Int

inductive JobStatus where
  | pending
  | running
  | completed
  | failed
  | cancelled
  deriving DecidableEq

def JobStatus.text : JobStatus → String
  | .pending => "pending"
  | .running => "running"
  | .completed => "completed"
  | .failed => "failed"
  | .cancelled => "cancelled"

variable {Config Progress : Type}

structure Job (Config Progress : Type) where
  id : String
  config : Config
  status : JobStatus
  progress : Option Progress := none
  logLines : List String := []
  error : String := ""
  pid : Int := 0
  createdAt : Time
  startedAt : Option Time := none
  completedAt : Option Time := none

/-- An event of the `h2kvmctl` subprocess; an error is its text. -/
inductive RunnerEvent (Progress : Type) where
  | log (line : String)
  | progress (progress : Option Progress)
  | started (pid : Int)
  | done (exitCode : Int) (err : Option String)

/-- The messages `broadcast` sends to the clients. -/
inductive Message (Config Progress : Type) where
  | jobCreated (jobId : String) (config : Config) (status : JobStatus)
  | jobStarted (jobId : String)
  | jobFailed (jobId error : String)
  | jobCancelled (jobId : String)
  | jobLog (jobId line : String)
  | jobProgress (jobId : String) (progress : Option Progress)
  | jobCompleted (jobId : String)

/-- Where a goroutine of `execute` stands between two of its critical sections: not started,
in `runner.Run` with the job it holds, in the loop of `processEvents`, about to broadcast the
end of that job, or returned. -/
inductive RoutinePoint where
  | spawned
  | starting (job : Nat)
  | processing
  | reporting (job : Nat)
  | returned
  deriving DecidableEq

structure Routine where
  jobId : String
  point : RoutinePoint
  deriving DecidableEq

/-- `Manager`. Jobs live on a heap and are named by their address, since `execute` keeps the
pointer it looked up while the map may come to hold another job under the same id. -/
structure Manager (Config Progress : Type) where
  heap : List (Job Config Progress)
  jobs : Dict String Nat
  order : List String
  routines : List Routine
  sent : List (Message Config Progress)

namespace Manager

/-- `NewManager`. -/
def new : Manager Config Progress := ⟨[], ∅, [], [], []⟩

def broadcast (m : Manager Config Progress) (message : Message Config Progress) : Manager Config Progress :=
  { m with sent := m.sent ++ [message] }

/-- Writes through a job pointer. -/
def modify (m : Manager Config Progress) (job : Nat) (f : Job Config Progress → Job Config Progress) :
    Manager Config Progress :=
  { m with heap := m.heap.modify job f }

/-- The goroutine moves on. -/
def goto (m : Manager Config Progress) (g : Nat) (point : RoutinePoint) : Manager Config Progress :=
  { m with routines := m.routines.modify g fun r => { r with point } }

/-- `m.jobs[id]`, as the pointer and the job there. -/
def lookup (m : Manager Config Progress) (id : String) : Option (Nat × Job Config Progress) :=
  (m.jobs.lookup id).bind fun p => (m.heap[p]?).map fun job => (p, job)

/-- `Submit`; the id is the one `uuid` drew. -/
def submit (m : Manager Config Progress) (id : String) (config : Config) (now : Time) : Manager Config Progress :=
  let job : Job Config Progress := { id, config, status := .pending, createdAt := now }
  let m := { m with heap := m.heap ++ [job], jobs := m.jobs.insert id m.heap.length, order := m.order ++ [id] }
  let m := m.broadcast (.jobCreated id config .pending)
  { m with routines := m.routines ++ [⟨id, .spawned⟩] }

/-- `Cancel`; `runner.Stop` reaches the manager only through the events it causes. -/
def cancel (m : Manager Config Progress) (id : String) (now : Time) : Except String Unit × Manager Config Progress :=
  match m.lookup id with
  | none => (.error ("job not found: " ++ id), m)
  | some (p, job) =>
    if job.status ≠ .running ∧ job.status ≠ .pending then
      (.error ("job " ++ id ++ " is not cancellable (status: " ++ job.status.text ++ ")"), m)
    else
      let m := m.modify p fun job => { job with status := .cancelled, completedAt := some now }
      (.ok (), m.broadcast (.jobCancelled id))

/-- `execute` up to `runner.Run`. -/
def executeStart (m : Manager Config Progress) (g : Nat) (jobId : String) (now : Time) : Manager Config Progress :=
  match m.lookup jobId with
  | none => m.goto g .returned
  | some (p, _) =>
    let m := m.modify p fun job => { job with status := .running, startedAt := some now }
    (m.broadcast (.jobStarted jobId)).goto g (.starting p)

/-- `execute` after `runner.Run` has returned `err`. -/
def runReturned (m : Manager Config Progress) (g : Nat) (jobId : String) (p : Nat) (err : Option String) (now : Time) :
    Manager Config Progress :=
  match err with
  | some err =>
    let m := m.modify p fun job => { job with status := .failed, error := err, completedAt := some now }
    (m.broadcast (.jobFailed jobId err)).goto g .returned
  | none => m.goto g .processing

/-- The last 500 log lines are kept. -/
def appendLog (lines : List String) (line : String) : List String :=
  (if lines.length ≥ 500 then lines.drop 1 else lines) ++ [line]

/-- What `EventDone` makes of the job, and whether its end is broadcast. The check for a
cancelled job comes after the status has been overwritten. -/
def finish (exitCode : Int) (err : Option String) (now : Time) (job : Job Config Progress) : Job Config Progress × Bool :=
  let job := { job with completedAt := some now }
  if exitCode = 0 ∧ err = none then
    let job := { job with status := .completed }
    if job.status = .cancelled then (job, false) else ({ job with status := .completed }, true)
  else if job.status ≠ .cancelled then
    ({ job with status := .failed, error := err.getD ("exit code " ++ toString exitCode) }, true)
  else
    (job, true)

/-- One turn of the loop of `processEvents`. -/
def processEvent (m : Manager Config Progress) (g : Nat) (jobId : String) (event : RunnerEvent Progress) (now : Time) :
    Manager Config Progress :=
  match m.lookup jobId with
  | none => m
  | some (p, job) =>
    match event with
    | .started pid => m.modify p fun job => { job with pid }
    | .log line =>
      (m.modify p fun job => { job with logLines := appendLog job.logLines line }).broadcast (.jobLog jobId line)
    | .progress progress => (m.modify p fun job => { job with progress }).broadcast (.jobProgress jobId progress)
    | .done exitCode err =>
      let m := m.modify p fun job => (finish exitCode err now job).1
      if (finish exitCode err now job).2 then m.goto g (.reporting p) else m

/-- The broadcast after `EventDone`. It reads the job again without the lock. -/
def report (m : Manager Config Progress) (g : Nat) (jobId : String) (p : Nat) : Manager Config Progress :=
  let message := match m.heap[p]? with
    | some job => if job.status = .failed then .jobFailed jobId job.error else .jobCompleted jobId
    | none => .jobCompleted jobId
  (m.broadcast message).goto g .processing

/-- A step of a client or of the goroutine `g`. -/
inductive Action (Config Progress : Type) where
  | submit (id : String) (config : Config) (now : Time)
  | cancel (id : String) (now : Time)
  | executeStart (g : Nat) (now : Time)
  | runReturned (g : Nat) (err : Option String) (now : Time)
  | event (g : Nat) (event : RunnerEvent Progress) (now : Time)
  | report (g : Nat)
  | eventsClosed (g : Nat)

/-- A step that its goroutine is not at does nothing. -/
def step (m : Manager Config Progress) : Action Config Progress → Manager Config Progress
  | .submit id config now => m.submit id config now
  | .cancel id now => (m.cancel id now).2
  | .executeStart g now =>
    match m.routines[g]? with
    | some ⟨jobId, .spawned⟩ => m.executeStart g jobId now
    | _ => m
  | .runReturned g err now =>
    match m.routines[g]? with
    | some ⟨jobId, .starting p⟩ => m.runReturned g jobId p err now
    | _ => m
  | .event g event now =>
    match m.routines[g]? with
    | some ⟨jobId, .processing⟩ => m.processEvent g jobId event now
    | _ => m
  | .report g =>
    match m.routines[g]? with
    | some ⟨jobId, .reporting p⟩ => m.report g jobId p
    | _ => m
  | .eventsClosed g =>
    match m.routines[g]? with
    | some ⟨_, .processing⟩ => m.goto g .returned
    | _ => m

end Manager

end H2kvm.Web
