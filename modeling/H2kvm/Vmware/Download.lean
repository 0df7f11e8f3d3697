import Mathlib.Data.List.Basic
import Mathlib.Data.List.Infix
import Mathlib.Data.Rat.Defs
import Mathlib.Algebra.Order.Field.Rat
import H2kvm.Framework.Run
import H2kvm.Framework.Semaphore

namespace H2kvm.Vmware

section download

structure HTTPDownloadOptions where
  retries : Nat := 0
  resumeDownload : Bool := true
  isAtomic : Bool := true

/-- What the server does at one attempt: no response at all, or a response whose stream ends or breaks after some chunks. -/
inductive Answer where
  | unreachable
  | response (status : Nat) (chunks : List (List UInt8)) (breaks : Bool)

namespace Answer

/-- The response passes `raise_for_status`. -/
def accepted : Answer → Bool
  | unreachable => false
  | response status _ _ => !(400 ≤ status && status < 600)

def status : Answer → Nat
  | unreachable => 0
  | response status _ _ => status

def breaks : Answer → Bool
  | unreachable => true
  | response _ _ breaks => breaks

def chunks : Answer → List (List UInt8)
  | unreachable => []
  | response _ chunks _ => chunks

/-- The bytes of an accepted response. -/
def delivered (a : Answer) : List UInt8 := if a.accepted then a.chunks.flatten else []

end Answer

/-- The file that is appended to, and what is returned unless an exception is raised. -/
structure Streamed where
  content : Option (List UInt8)
  result : Option (Nat × Nat)

/-- The loop over `iter_content`. -/
def writeChunks (content : List UInt8) (downloaded : Nat) : List (List UInt8) → List UInt8 × Nat
  | [] => (content, downloaded)
  | chunk :: chunks =>
    if chunk = [] then writeChunks content downloaded chunks
    else writeChunks (content ++ chunk) (downloaded + chunk.length) chunks

/-- `_download_to_path`. -/
def downloadToPath (expectPartial : Bool) (content : Option (List UInt8)) : Answer → Streamed
  | .unreachable => ⟨content, none⟩
  | .response status chunks breaks =>
    if 400 ≤ status && status < 600 then ⟨content, none⟩
    -- the range was not honoured
    else if expectPartial && status != 206 then ⟨content, some (0, status)⟩
    else
      let (written, downloaded) := writeChunks (content.getD []) 0 chunks
      ⟨some written, if breaks then none else some (downloaded, status)⟩

/-- What the loop over the attempts carries along, with the two files it works on. -/
structure Transfer where
  startByte : Nat
  range : Bool
  localFile : Option (List UInt8)
  tempFile : Option (List UInt8) := none

namespace Transfer

variable (t : Transfer) (isAtomic : Bool)

/-- The output target of an attempt: a temporary file, with the first `startByte` bytes when resuming, or the file. -/
def openTarget : Transfer :=
  if isAtomic then
    match t.localFile with
    | some content => { t with tempFile := some (if 0 < t.startByte then content.take t.startByte else []) }
    | none => { t with tempFile := some [] }
  else if t.startByte = 0 then { t with localFile := none }
  else t

def target : Option (List UInt8) := if isAtomic then t.tempFile else t.localFile

def setTarget (content : Option (List UInt8)) : Transfer :=
  if isAtomic then { t with tempFile := content } else { t with localFile := content }

/-- One pass of the loop, and whether it returns. -/
def attempt (answer : Answer) : Transfer × Bool :=
  let opened := t.openTarget isAtomic
  let streamed := downloadToPath opened.range (opened.target isAtomic) answer
  let written := opened.setTarget isAtomic streamed.content
  match streamed.result with
  | none => ({ written with tempFile := none }, false)
  | some (_, status) =>
    if written.range && status != 206 then
      ({ written with tempFile := none, range := false, startByte := 0 }, false)
    else if isAtomic then ({ written with localFile := written.tempFile, tempFile := none }, true)
    else (written, true)

def attempts (t : Transfer) : List Answer → Transfer × Bool
  | [] => (t, false)
  | answer :: answers =>
    match t.attempt isAtomic answer with
    | (done, true) => (done, true)
    | (failed, false) => attempts failed answers

end Transfer

/-- `get_file_size`, which knows the size or does not. -/
def getFileSize (R : List UInt8) (known : Bool) : Option Nat := if known then some R.length else none

/-- Where a download goes on: the size of a file that is not empty and too short. -/
def resumeOffset (resume : Bool) (remoteSize : Option Nat) (localFile : Option (List UInt8)) : Nat :=
  match localFile, remoteSize with
  | some content, some size => if resume && 0 < content.length && content.length < size then content.length else 0
  | _, _ => 0

def alreadyComplete (resume : Bool) (remoteSize : Option Nat) (localFile : Option (List UInt8)) : Bool :=
  match localFile, remoteSize with
  | some content, some size => resume && content.length == size
  | _, _ => false

/-- `download_file`: the files after it, and whether it returns. -/
def downloadFile (opt : HTTPDownloadOptions) (remoteSize : Option Nat) (localFile : Option (List UInt8))
    (server : Nat → Answer) : Transfer × Bool :=
  if alreadyComplete opt.resumeDownload remoteSize localFile then (⟨0, false, localFile, none⟩, true)
  else
    let startByte := resumeOffset opt.resumeDownload remoteSize localFile
    Transfer.attempts opt.isAtomic ⟨startByte, 0 < startByte, localFile, none⟩
      ((List.range (opt.retries + 1)).map server)

section Exact

variable (offset : Nat)

/-- No response so far has made the client give up its range. -/
def Resuming (before : List Answer) : Prop :=
  0 < offset ∧ ∀ b ∈ before, b.accepted = true → b.status = 206

instance (before : List Answer) : Decidable (Resuming offset before) :=
  inferInstanceAs (Decidable (_ ∧ _))

/-- The download ends with this answer, if it gets there. -/
def Ends (before : List Answer) (a : Answer) : Prop :=
  a.accepted = true ∧ a.breaks = false ∧ (Resuming offset before → a.status = 206)

instance (before : List Answer) (a : Answer) : Decidable (Ends offset before a) :=
  inferInstanceAs (Decidable (_ ∧ _ ∧ (_ → _)))

/-- The answer that ends the download delivers what is missing. Without a temporary file, what earlier answers have
appended to a resumed file counts. -/
def Complete (isAtomic : Bool) (R : List UInt8) (answers : List Answer) : Prop :=
  ∀ before a, before ++ [a] <+: answers → Ends offset before a →
    (∀ pre b, pre ++ [b] <+: before → ¬ Ends offset pre b) →
      if Resuming offset before then
        (if isAtomic then [] else before.flatMap (·.delivered)) ++ a.delivered = R.drop offset
      else a.delivered = R

end Exact

/-- The promise of a download: all of the file, or with a temporary file no change. -/
structure ByteExact (opt : HTTPDownloadOptions) (R : List UInt8) (localFile : Option (List UInt8))
    (result : Transfer × Bool) : Prop where
  returned : result.2 = true → result.1.localFile = some R
  raised : result.2 = false → opt.isAtomic = true → result.1.localFile = localFile ∧ result.1.tempFile = none

/-- The servers that serve `R`: each response is what was asked for, up to where it breaks, or ends early when the size
is known. -/
def Serves (R : List UInt8) (known : Bool) (offset : Nat) (server : Nat → Answer) : Prop :=
  ∀ n, (server n).accepted = true →
    let whole := if (server n).status = 206 ∧ Resuming offset ((List.range n).map server) then R.drop offset else R
    ((server n).status = 200 ∨ (server n).status = 206) ∧ (server n).delivered <+: whole ∧
      ((server n).breaks = false → known = false → (server n).delivered = whole)

end download

section concurrency

open Framework

structure ConcurrencyLimits where
  maxConcurrentVms : Nat := 5
  maxConcurrentExports : Nat := 3
  maxApiCallsPerSecond : Nat := 10

/-- A semaphore with its entry in the statistics. -/
structure Slots where
  semaphore : Semaphore
  active : Int := 0
  deriving DecidableEq

namespace Slots

variable (s : Slots) (c : Nat)

/-- `__aenter__`, once the semaphore is acquired. -/
def entered : Slots := ⟨s.semaphore.grant c, s.active + 1⟩

def enter : Slots := if s.semaphore.isFree then s.entered c else { s with semaphore := s.semaphore.enqueue c }

def letIn : Slots :=
  if s.semaphore.lets c then ({ s with semaphore := s.semaphore.dequeue c } : Slots).entered c else s

/-- A coroutine that is cancelled while it waits. -/
def giveUp : Slots := { s with semaphore := s.semaphore.dequeue c }

/-- `__aexit__`, however the body has ended. -/
def leave : Slots := if c ∈ s.semaphore.inside then ⟨s.semaphore.release c, s.active - 1⟩ else s

end Slots

inductive SlotKind where
  | vm
  | export
  deriving DecidableEq

/-- The manager with its clock, the calls of `api_call` that are asleep, each with the time its sleep is over, and the
times at which calls were completed, the last first. -/
structure ConcurrencyManager where
  limits : ConcurrencyLimits
  vms : Slots
  exports : Slots
  api : Semaphore
  apiLastCall : ℚ := 0
  apiCallsTotal : Nat := 0
  apiCallsThrottled : Nat := 0
  now : ℚ := 0
  asleep : List (Nat × ℚ) := []
  completions : List ℚ := []

/-- What can happen between two awaits: the clock goes on, a coroutine asks for a slot, gets it, stops waiting for it
or leaves it, and calls `api_call`, passes its semaphore, wakes up or is cancelled in it. -/
inductive Await where
  | tick (now : ℚ)
  | enter (kind : SlotKind) (c : Nat)
  | letIn (kind : SlotKind) (c : Nat)
  | giveUp (kind : SlotKind) (c : Nat)
  | leave (kind : SlotKind) (c : Nat)
  | call (c : Nat)
  | admitCall (c : Nat)
  | wake (c : Nat)
  | cancelCall (c : Nat)

namespace ConcurrencyManager

def new (limits : ConcurrencyLimits) : ConcurrencyManager where
  limits := limits
  vms := ⟨{ value := limits.maxConcurrentVms }, 0⟩
  exports := ⟨{ value := limits.maxConcurrentExports }, 0⟩
  api := { value := limits.maxApiCallsPerSecond }

variable (m : ConcurrencyManager) (c : Nat)

/-- `_api_interval`. -/
def apiInterval : ℚ := if 0 < m.limits.maxApiCallsPerSecond then 1 / m.limits.maxApiCallsPerSecond else 0

def onSlots (f : Slots → Slots) : SlotKind → ConcurrencyManager
  | .vm => { m with vms := f m.vms }
  | .export => { m with exports := f m.exports }

/-- The end of `api_call`. -/
def complete : ConcurrencyManager :=
  { m with
    apiLastCall := if 0 < m.apiInterval then m.now else m.apiLastCall
    apiCallsTotal := m.apiCallsTotal + 1
    api := m.api.release c
    completions := m.now :: m.completions }

/-- `api_call` with the semaphore in hand, up to its sleep or its end. -/
def proceed : ConcurrencyManager :=
  let m := { m with api := m.api.grant c }
  let timeSinceLast := m.now - m.apiLastCall
  if 0 < m.apiInterval ∧ timeSinceLast < m.apiInterval then
    { m with
      apiCallsThrottled := m.apiCallsThrottled + 1
      asleep := (c, m.now + (m.apiInterval - timeSinceLast)) :: m.asleep }
  else m.complete c

def wakes (e : Nat × ℚ) : Bool := e.1 = c ∧ e.2 ≤ m.now

def step : Await → ConcurrencyManager
  | .tick now => { m with now := max m.now now }
  | .enter kind c => m.onSlots (·.enter c) kind
  | .letIn kind c => m.onSlots (·.letIn c) kind
  | .giveUp kind c => m.onSlots (·.giveUp c) kind
  | .leave kind c => m.onSlots (·.leave c) kind
  | .call c => if m.api.isFree then m.proceed c else { m with api := m.api.enqueue c }
  | .admitCall c => if m.api.lets c then ({ m with api := m.api.dequeue c }).proceed c else m
  | .wake c =>
    match m.asleep.find? (m.wakes c) with
    | some e => ({ m with asleep := m.asleep.erase e }).complete c
    | none => m
  | .cancelCall c =>
    match m.asleep.find? (·.1 = c) with
    | some e => { m with asleep := m.asleep.erase e, api := m.api.release c }
    | none => { m with api := m.api.dequeue c }

/-- Any two calls were completed at least an interval apart. -/
def Spaced : Prop :=
  m.completions.Pairwise fun later earlier => earlier + (1 / m.limits.maxApiCallsPerSecond : ℚ) ≤ later

/-- What the statistics say of the slots is so, and there are not more of them than allowed. -/
def SlotsCounted : Prop :=
  (m.vms.active = m.vms.semaphore.inside.length ∧ m.vms.semaphore.inside.length ≤ m.limits.maxConcurrentVms) ∧
    m.exports.active = m.exports.semaphore.inside.length ∧
      m.exports.semaphore.inside.length ≤ m.limits.maxConcurrentExports

structure RateLimited : Prop where
  spaced : m.Spaced
  total : m.apiCallsTotal = m.completions.length
  slots : m.SlotsCounted

/-- No call passes the semaphore while another one is asleep. -/
def Alone : Await → Prop
  | .call _ => m.api.isFree = true → m.asleep = []
  | .admitCall c => m.api.lets c = true → m.asleep = []
  | _ => True

instance (m : ConcurrencyManager) (a : Await) : Decidable (m.Alone a) := by
  cases a <;> unfold Alone <;> infer_instance

end ConcurrencyManager

end concurrency

end H2kvm.Vmware
