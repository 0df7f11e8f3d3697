import H2kvm.Framework.Run
import H2kvm.Worker.Schemas

namespace H2kvm.Worker

open Framework

section events

/-- `EventStore`: a cache of event lists in front of one append-only file for each job. -/
structure EventStore (codec : LineCodec ProgressEvent) where
  cache : Dict String (List ProgressEvent)
  files : Dict String (List codec.Text)

/-- A job's file in the storage directory. Job ids are UUIDs, so each names a file of its own. -/
def eventFile (jobId : String) : String := jobId ++ ".events.jsonl"

theorem eventFile_inj {a b : String} : eventFile a = eventFile b ↔ a = b :=
  String.append_left_inj ".events.jsonl"

namespace EventStore

variable {codec : LineCodec ProgressEvent}

/-- `EventStore(storage_dir)`: what is on disk stays, the cache starts empty. -/
def ofDir (files : Dict String (List codec.Text)) : EventStore codec := ⟨∅, files⟩

/-- The lines of a job's file, none if it does not exist. -/
def lines (s : EventStore codec) (jobId : String) : List codec.Text :=
  (s.files.lookup (eventFile jobId)).getD []

/-- `store`; a write that fails is logged and leaves the file as it was. -/
def store (s : EventStore codec) (event : ProgressEvent) (written : Bool) : EventStore codec where
  cache := s.cache.insert event.jobId ((s.cache.lookup event.jobId).getD [] ++ [event])
  files :=
    if written then s.files.insert (eventFile event.jobId) (s.lines event.jobId ++ [codec.dump event])
    else s.files

/-- `_load_from_disk`. -/
def loadFromDisk (s : EventStore codec) (jobId : String) : List ProgressEvent :=
  codec.parseLines (s.lines jobId)

/-- The list `get_events` works on, and the store once that list is cached. -/
def events (s : EventStore codec) (jobId : String) : List ProgressEvent :=
  (s.cache.lookup jobId).getD (s.loadFromDisk jobId)

def load (s : EventStore codec) (jobId : String) : EventStore codec :=
  match s.cache.lookup jobId with
  | some _ => s
  | none => { s with cache := s.cache.insert jobId (s.loadFromDisk jobId) }

/-- The filters of `get_events`; an empty phase is no filter. -/
def filtered (since : Option Datetime) (phaseFilter : Option String) (events : List ProgressEvent) :
    List ProgressEvent :=
  let events := match since with
    | some t => events.filter fun e => t < e.timestamp
    | none => events
  match phaseFilter with
  | some phase => if phase = "" then events else events.filter fun e => e.phase = phase
  | none => events

def getEvents (s : EventStore codec) (jobId : String) (since : Option Datetime) (phaseFilter : Option String) :
    List ProgressEvent × EventStore codec :=
  (filtered since phaseFilter (s.events jobId), s.load jobId)

def clearJobEvents (s : EventStore codec) (jobId : String) : EventStore codec :=
  ⟨s.cache.erase jobId, s.files.erase (eventFile jobId)⟩

@[simp] theorem lines_load (s : EventStore codec) (a b : String) : (s.load a).lines b = s.lines b := by
  unfold load lines
  cases s.cache.lookup a <;> rfl

/-- Caching a job's events changes what no job sees. -/
@[simp] theorem events_load (s : EventStore codec) (a b : String) : (s.load a).events b = s.events b := by
  cases ha : s.cache.lookup a with
  | some es => simp [load, ha]
  | none =>
    by_cases hab : b = a
    · subst hab
      simp [load, ha, events, loadFromDisk]
    · simp [load, ha, events, loadFromDisk, AList.lookup_insert_ne hab, lines]

theorem lines_store_other (s : EventStore codec) {event : ProgressEvent} {jobId : String}
    (h : jobId ≠ event.jobId) (written : Bool) : (s.store event written).lines jobId = s.lines jobId := by
  have hf : eventFile jobId ≠ eventFile event.jobId := fun he => h (eventFile_inj.mp he)
  cases written <;> simp [store, lines, AList.lookup_insert_ne hf]

@[simp] theorem lines_store (s : EventStore codec) (event : ProgressEvent) :
    (s.store event true).lines event.jobId = s.lines event.jobId ++ [codec.dump event] := by
  simp [store, lines]

theorem events_store_other (s : EventStore codec) {event : ProgressEvent} {jobId : String}
    (h : jobId ≠ event.jobId) (written : Bool) : (s.store event written).events jobId = s.events jobId := by
  have hl := lines_store_other s h written
  have hc : (s.store event written).cache.lookup jobId = s.cache.lookup jobId := AList.lookup_insert_ne h
  rw [events, events, loadFromDisk, loadFromDisk, hl, hc]

/-- A store starts the cache of a job it does not find there from nothing. -/
@[simp] theorem events_store (s : EventStore codec) (event : ProgressEvent) (written : Bool) :
    (s.store event written).events event.jobId = (s.cache.lookup event.jobId).getD [] ++ [event] := by
  simp [events, store]

end EventStore

/-- One operation on the store of a job's events, with successful disk writes. -/
inductive EventAction where
  | store (event : ProgressEvent)
  | getEvents (jobId : String) (since : Option Datetime) (phaseFilter : Option String)
  | clearJobEvents (jobId : String)
  | restart

/-- An event store and, for each job, the events stored since its last clear. -/
structure EventSession (codec : LineCodec ProgressEvent) where
  eventStore : EventStore codec
  log : String → List ProgressEvent

namespace EventSession

variable {codec : LineCodec ProgressEvent}

def start : EventSession codec := ⟨.ofDir ∅, fun _ => []⟩

def step (t : EventSession codec) : EventAction → EventSession codec
  | .store event =>
    ⟨t.eventStore.store event true, Function.update t.log event.jobId (t.log event.jobId ++ [event])⟩
  | .getEvents jobId since phaseFilter => { t with eventStore := (t.eventStore.getEvents jobId since phaseFilter).2 }
  | .clearJobEvents jobId => ⟨t.eventStore.clearJobEvents jobId, Function.update t.log jobId []⟩
  | .restart => { t with eventStore := .ofDir t.eventStore.files }

/-- The files hold the log of every job. -/
def Recorded (t : EventSession codec) : Prop := ∀ jobId, t.eventStore.lines jobId = (t.log jobId).map codec.dump

/-- `get_events` without filters returns the log of every job. -/
def Complete (t : EventSession codec) : Prop :=
  ∀ jobId, (t.eventStore.getEvents jobId none none).1 = t.log jobId

/-- A store that finds its job's events in the cache, or none on disk. -/
def Loaded (t : EventSession codec) : EventAction → Prop
  | .store event => event.jobId ∈ t.eventStore.cache ∨ t.eventStore.lines event.jobId = []
  | .getEvents _ _ _ => True
  | .clearJobEvents _ => True
  | .restart => True

theorem start_recorded : (start : EventSession codec).Recorded := by
  intro jobId
  simp [start, EventStore.ofDir, EventStore.lines]

theorem step_recorded (t : EventSession codec) (a : EventAction) (h : t.Recorded) : (t.step a).Recorded := by
  intro jobId
  cases a with
  | store event =>
    by_cases he : jobId = event.jobId
    · subst he
      simp [step, h event.jobId]
    · simp [step, EventStore.lines_store_other _ he, Function.update_of_ne he, h jobId]
  | getEvents other since phaseFilter => simp [step, EventStore.getEvents, h jobId]
  | clearJobEvents other =>
    by_cases he : jobId = other
    · subst he
      simp [step, EventStore.clearJobEvents, EventStore.lines]
    · have hf : eventFile jobId ≠ eventFile other := fun hf => he (eventFile_inj.mp hf)
      have hl := h jobId
      simp only [EventStore.lines] at hl
      simp [step, EventStore.clearJobEvents, EventStore.lines, AList.lookup_erase_ne hf, Function.update_of_ne he, hl]
  | restart => exact h jobId

theorem complete_iff (t : EventSession codec) : t.Complete ↔ ∀ jobId, t.eventStore.events jobId = t.log jobId :=
  Iff.rfl

theorem start_complete : (start : EventSession codec).Complete := by
  intro jobId
  rfl

/-- The cache of a job agrees with its log after a store exactly when it did before, a
missing cache standing for no events. -/
theorem store_complete_iff {t : EventSession codec} (h : t.Recorded) (hc : t.Complete) (event : ProgressEvent) :
    (t.step (.store event)).Complete ↔ t.Loaded (.store event) := by
  have others (jobId : String) (he : jobId ≠ event.jobId) :
      (t.eventStore.store event true).events jobId =
        Function.update t.log event.jobId (t.log event.jobId ++ [event]) jobId := by
    rw [EventStore.events_store_other _ he, Function.update_of_ne he]
    exact hc jobId
  have own : (t.step (.store event)).Complete ↔
      (t.eventStore.cache.lookup event.jobId).getD [] = t.log event.jobId := by
    rw [complete_iff]
    constructor
    · intro complete
      have same := complete event.jobId
      simpa [step] using same
    · intro same jobId
      by_cases he : jobId = event.jobId
      · subst he
        simp [step, same]
      · exact others jobId he
  rw [own]
  cases hl : t.eventStore.cache.lookup event.jobId with
  | some es =>
    have cached : event.jobId ∈ t.eventStore.cache := AList.lookup_isSome.mp (by simp [hl])
    have same : es = t.log event.jobId := by
      have := hc event.jobId
      simpa [EventStore.getEvents, EventStore.filtered, EventStore.events, hl] using this
    exact iff_of_true same (.inl cached)
  | none =>
    have absent : event.jobId ∉ t.eventStore.cache := AList.lookup_eq_none.mp hl
    have onDisk := h event.jobId
    simp only [Option.getD_none, Loaded, absent, false_or, onDisk, List.map_eq_nil_iff]
    exact eq_comm

/-- From a complete session, every operation but a store that is not loaded keeps it so. -/
theorem step_complete_iff (t : EventSession codec) (a : EventAction) (h : t.Recorded ∧ t.Complete) :
    (t.step a).Recorded ∧ (t.step a).Complete ↔ t.Loaded a := by
  obtain ⟨recorded, complete⟩ := h
  rw [and_iff_right (step_recorded t a recorded)]
  cases a with
  | store event => exact store_complete_iff recorded complete event
  | getEvents other since phaseFilter =>
    refine iff_of_true (fun jobId => ?_) trivial
    have same := EventStore.events_load t.eventStore other jobId
    exact same.trans (complete jobId)
  | clearJobEvents other =>
    refine iff_of_true ((complete_iff _).mpr fun jobId => ?_) trivial
    have hl := step_recorded t (.clearJobEvents other) recorded jobId
    by_cases he : jobId = other
    · subst he
      have gone : (t.step (.clearJobEvents jobId)).eventStore.cache.lookup jobId = none := AList.lookup_erase _ _
      rw [EventStore.events, gone, Option.getD_none, EventStore.loadFromDisk, hl, LineCodec.parseLines_dump]
    · have kept : (t.step (.clearJobEvents other)).eventStore.cache.lookup jobId = t.eventStore.cache.lookup jobId :=
        AList.lookup_erase_ne he
      have logged : (t.step (.clearJobEvents other)).log jobId = t.log jobId := Function.update_of_ne he _ _
      have before := (complete_iff t).mp complete jobId
      rw [EventStore.events, EventStore.loadFromDisk, recorded jobId] at before
      rw [EventStore.events, EventStore.loadFromDisk, hl, kept, logged]
      exact before
  | restart =>
    refine iff_of_true ((complete_iff _).mpr fun jobId => ?_) trivial
    have hl : (t.step .restart).eventStore.lines jobId = (t.log jobId).map codec.dump := recorded jobId
    have empty : (t.step .restart).eventStore.cache.lookup jobId = none := rfl
    rw [EventStore.events, empty, Option.getD_none, EventStore.loadFromDisk, hl, LineCodec.parseLines_dump]
    rfl

end EventSession

end events

section eventStream

/-- Where the generator of `EventStream.__iter__` stands. The first `get_events` gives it the
cached list itself, which it walks by index, or with a `since` bound a list of its own. -/
inductive StreamPoint where
  | start
  | live (index : Nat)
  | initial (rest : List ProgressEvent)
  | poll
  | slice
  | batch (rest : List ProgressEvent)
  | finished
  deriving DecidableEq

/-- What the generator has taken out of the store and not yielded yet. -/
def StreamPoint.rest : StreamPoint → List ProgressEvent
  | .initial rest => rest
  | .batch rest => rest
  | _ => []

/-- `EventStream`, with the point its generator has reached and what it has yielded. -/
structure EventStream where
  jobId : String
  follow : Bool
  since : Option Datetime
  position : Nat
  stopped : Bool
  point : StreamPoint
  yielded : List ProgressEvent

namespace EventStream

variable {codec : LineCodec ProgressEvent}

/-- `EventStream(job_id, event_store, follow, since)`. -/
def init (jobId : String) (follow : Bool) (since : Option Datetime) : EventStream :=
  ⟨jobId, follow, since, 0, false, .start, []⟩

/-- `yield event` and the `_position += 1` that follows it when the consumer comes back;
nobody else reads the position in between. -/
def yieldEvent (st : EventStream) (event : ProgressEvent) (next : StreamPoint) : EventStream :=
  { st with yielded := st.yielded ++ [event], position := st.position + 1, point := next }

/-- The initial events are exhausted: `if self.follow`. -/
def afterInitial (st : EventStream) : EventStream :=
  { st with point := if st.follow then .poll else .finished }

/-- One step of the generator. It holds no lock between the steps, so stores may come
between any two of them, also between the `len` and the slice of one poll. -/
def next (st : EventStream) (s : EventStore codec) : EventStream × EventStore codec :=
  match st.point with
  | .start =>
    let (events, s) := s.getEvents st.jobId st.since none
    match st.since with
    | none => ({ st with point := .live 0 }, s)
    | some _ => ({ st with point := .initial events }, s)
  | .live i =>
    match (s.events st.jobId)[i]? with
    | some event => (st.yieldEvent event (.live (i + 1)), s)
    | none => (st.afterInitial, s)
  | .initial (event :: rest) => (st.yieldEvent event (.initial rest), s)
  | .initial [] => (st.afterInitial, s)
  | .poll =>
    if st.stopped then ({ st with point := .finished }, s)
    else
      let (allEvents, s) := s.getEvents st.jobId none none
      if st.position < allEvents.length then ({ st with point := .slice }, s) else (st, s)
  | .slice => ({ st with point := .batch ((s.events st.jobId).drop st.position) }, s)
  | .batch (event :: rest) => (st.yieldEvent event (.batch rest), s)
  | .batch [] => ({ st with point := .poll }, s)
  | .finished => (st, s)

end EventStream

/-- The events of `es` a stream with this bound is asked for. -/
def later (since : Option Datetime) (es : List ProgressEvent) : List ProgressEvent :=
  EventStore.filtered since none es

/-- A step of the generator, of a thread that stores events, or of one that stops the stream. -/
inductive StreamAction where
  | next
  | store (event : ProgressEvent)
  | stop

/-- A stream on a store, and the events stored for its job so far. -/
structure StreamSession (codec : LineCodec ProgressEvent) where
  stream : EventStream
  eventStore : EventStore codec
  stored : List ProgressEvent

namespace StreamSession

variable {codec : LineCodec ProgressEvent}

/-- A new stream on a store that already holds events. -/
def start (s : EventStore codec) (jobId : String) (follow : Bool) (since : Option Datetime) : StreamSession codec :=
  ⟨.init jobId follow since, s, s.events jobId⟩

def step (t : StreamSession codec) : StreamAction → StreamSession codec
  | .next => { t with stream := (t.stream.next t.eventStore).1, eventStore := (t.stream.next t.eventStore).2 }
  | .store event =>
    { t with eventStore := t.eventStore.store event true
             stored := if event.jobId = t.stream.jobId then t.stored ++ [event] else t.stored }
  | .stop => { t with stream := { t.stream with stopped := true } }

/-- The stream has yielded a first part of the events it is asked for; a poll that finds
nothing leaves none of them out, and neither does a slice. -/
structure Delivers (t : StreamSession codec) : Prop where
  in_order : t.stream.yielded <+: later t.stream.since t.stored
  at_rest : t.stream.point = .poll → (t.eventStore.events t.stream.jobId).length ≤ t.stream.position →
    t.stream.yielded = later t.stream.since t.stored
  at_slice : t.stream.point = .slice →
    t.stream.yielded ++ (t.eventStore.events t.stream.jobId).drop t.stream.position = later t.stream.since t.stored

/-- The event is later than the bound, if there is one. -/
def Later (since : Option Datetime) (event : ProgressEvent) : Prop := ∀ t ∈ since, t < event.timestamp

/-- An event stored for the stream's job is later than its bound, and does not hide events
that are on disk only. -/
def Fresh (t : StreamSession codec) : StreamAction → Prop
  | .next => True
  | .store event => event.jobId = t.stream.jobId → Later t.stream.since event ∧
      (event.jobId ∈ t.eventStore.cache ∨ t.eventStore.lines event.jobId = [])
  | .stop => True

theorem later_eq_self {since : Option Datetime} {es : List ProgressEvent} (h : ∀ e ∈ es, Later since e) :
    later since es = es := by
  cases since with
  | none => rfl
  | some t =>
    change es.filter (fun e => t < e.timestamp) = es
    rw [List.filter_eq_self]
    intro e he
    exact decide_eq_true (h e he t rfl)

/-- What ties the generator to the store while every event is later than the bound. -/
structure Inv (t : StreamSession codec) : Prop where
  fresh : ∀ e ∈ t.stored, Later t.stream.since e
  seen : t.eventStore.events t.stream.jobId = t.stored
  counted : t.stream.position = t.stream.yielded.length
  in_order : t.stream.yielded ++ t.stream.point.rest <+: t.stored
  at_start : t.stream.point = .start → t.stream.yielded = []
  at_live : ∀ i, t.stream.point = .live i → i = t.stream.yielded.length

theorem Inv.delivers {t : StreamSession codec} (h : t.Inv) : t.Delivers := by
  have whole := later_eq_self h.fresh
  have given : t.stream.yielded <+: t.stored := (List.prefix_append _ _).trans h.in_order
  refine ⟨by rw [whole]; exact given, fun _ hlen => ?_, fun _ => ?_⟩
  · rw [whole]
    rw [h.seen, h.counted] at hlen
    exact given.eq_of_length_le hlen
  · rw [whole, h.seen, h.counted]
    exact List.prefix_iff_eq_append.mp given

theorem start_inv {s : EventStore codec} {jobId : String} {since : Option Datetime}
    (h : ∀ e ∈ s.events jobId, Later since e) (follow : Bool) : (start s jobId follow since).Inv where
  fresh := h
  seen := rfl
  counted := rfl
  in_order := List.nil_prefix
  at_start _ := rfl
  at_live i hp := by simp [start, EventStream.init] at hp

theorem store_inv {t : StreamSession codec} (h : t.Inv) {event : ProgressEvent} (hg : t.Fresh (.store event)) :
    (t.step (.store event)).Inv := by
  by_cases he : event.jobId = t.stream.jobId
  · obtain ⟨after, cached⟩ := hg he
    have stored : (t.step (.store event)).stored = t.stored ++ [event] := if_pos he
    have before : (t.eventStore.cache.lookup event.jobId).getD [] = t.stored := by
      rw [← h.seen, ← he]
      rcases cached with hc | hl
      · obtain ⟨es, hes⟩ := Option.isSome_iff_exists.mp (AList.lookup_isSome.mpr hc)
        simp [EventStore.events, hes]
      · simp [EventStore.events, EventStore.loadFromDisk, hl, LineCodec.parseLines]
    refine ⟨?_, ?_, h.counted, ?_, h.at_start, h.at_live⟩
    · rw [stored]
      intro e hm
      rcases List.mem_append.mp hm with hm | hm
      · exact h.fresh e hm
      · rw [List.mem_singleton.mp hm]
        exact after
    · change (t.eventStore.store event true).events t.stream.jobId = _
      rw [stored, ← he, EventStore.events_store, before]
    · rw [stored]
      exact h.in_order.trans (List.prefix_append _ _)
  · have stored : (t.step (.store event)).stored = t.stored := if_neg he
    refine ⟨?_, ?_, h.counted, ?_, h.at_start, h.at_live⟩
    · rw [stored]
      exact h.fresh
    · rw [stored, ← h.seen]
      exact EventStore.events_store_other _ (Ne.symm he) true
    · rw [stored]
      exact h.in_order

/-- Yielding the next of the pending events. -/
theorem yield_inv {t : StreamSession codec} (h : t.Inv) (event : ProgressEvent) (next : StreamPoint)
    (hn : next ≠ .start) (hl : ∀ i, next = .live i → i = t.stream.yielded.length + 1)
    (ho : t.stream.yielded ++ event :: next.rest <+: t.stored) :
    Inv { t with stream := t.stream.yieldEvent event next } where
  fresh := h.fresh
  seen := h.seen
  counted := by simp [EventStream.yieldEvent, h.counted]
  in_order := by simpa [EventStream.yieldEvent] using ho
  at_start hp := absurd hp hn
  at_live i hp := by
    have := hl i hp
    simpa [EventStream.yieldEvent] using this

/-- Moving on, at a point with nothing pending, to one with nothing pending. -/
theorem move_inv {t : StreamSession codec} (h : t.Inv) (next : StreamPoint) (hr : next.rest = [])
    (hn : next ≠ .start) (hl : ∀ i, next = .live i → i = t.stream.yielded.length) :
    Inv { t with stream := { t.stream with point := next } } where
  fresh := h.fresh
  seen := h.seen
  counted := h.counted
  in_order := by
    rw [show StreamPoint.rest _ = [] from hr, List.append_nil]
    exact (List.prefix_append _ _).trans h.in_order
  at_start hp := absurd hp hn
  at_live := hl

theorem load_inv {t : StreamSession codec} (h : t.Inv) (jobId : String) :
    Inv { t with eventStore := t.eventStore.load jobId } :=
  ⟨h.fresh, (EventStore.events_load _ _ _).trans h.seen, h.counted, h.in_order, h.at_start, h.at_live⟩

theorem afterInitial_inv {t : StreamSession codec} (h : t.Inv) :
    Inv { t with stream := t.stream.afterInitial } := by
  unfold EventStream.afterInitial
  split
  · exact move_inv h .poll rfl (by simp) (by simp)
  · exact move_inv h .finished rfl (by simp) (by simp)

theorem step_next {t : StreamSession codec} {st : EventStream} {s : EventStore codec}
    (h : t.stream.next t.eventStore = (st, s)) : t.step .next = { t with stream := st, eventStore := s } := by
  simp [step, h]

theorem live_inv {t : StreamSession codec} (h : t.Inv) {i : Nat} (hp : t.stream.point = .live i) :
    (t.step .next).Inv := by
  have hi := h.at_live i hp
  obtain ⟨rest, hrest⟩ : t.stream.yielded <+: t.stored := (List.prefix_append _ _).trans h.in_order
  have found : (t.eventStore.events t.stream.jobId)[i]? = rest.head? := by
    rw [h.seen, ← hrest, hi, List.getElem?_append_right (Nat.le_refl _), Nat.sub_self, List.head?_eq_getElem?]
  unfold step EventStream.next
  simp only [hp, found]
  cases rest with
  | nil => exact afterInitial_inv h
  | cons event rest =>
    refine yield_inv h event (.live (i + 1)) (by simp) (fun j hj => ?_) ?_
    · rw [← hi]
      exact (StreamPoint.live.inj hj).symm
    · rw [← hrest]
      exact List.prefix_append_right_inj _ |>.mpr ⟨rest, rfl⟩

theorem poll_inv {t : StreamSession codec} (h : t.Inv) (hp : t.stream.point = .poll) : (t.step .next).Inv := by
  have loaded := load_inv h t.stream.jobId
  by_cases hs : t.stream.stopped = true
  · have he : t.stream.next t.eventStore = ({ t.stream with point := .finished }, t.eventStore) := by
      simp [EventStream.next, hp, hs]
    rw [step_next he]
    exact move_inv h .finished rfl (by simp) (by simp)
  · by_cases hl : t.stream.position < (t.eventStore.events t.stream.jobId).length
    · have he : t.stream.next t.eventStore =
          ({ t.stream with point := .slice }, t.eventStore.load t.stream.jobId) := by
        simp [EventStream.next, hp, hs, EventStore.getEvents, EventStore.filtered, hl]
      rw [step_next he]
      exact move_inv loaded .slice rfl (by simp) (by simp)
    · have he : t.stream.next t.eventStore = (t.stream, t.eventStore.load t.stream.jobId) := by
        simp [EventStream.next, hp, hs, EventStore.getEvents, EventStore.filtered, hl]
      rw [step_next he]
      exact loaded

theorem slice_inv {t : StreamSession codec} (h : t.Inv) (hp : t.stream.point = .slice) : (t.step .next).Inv := by
  have given : t.stream.yielded <+: t.stored := (List.prefix_append _ _).trans h.in_order
  unfold step EventStream.next
  simp only [hp]
  refine ⟨h.fresh, h.seen, h.counted, ?_, by simp, by simp⟩
  change t.stream.yielded ++ (t.eventStore.events t.stream.jobId).drop t.stream.position <+: t.stored
  rw [h.seen, h.counted, List.prefix_iff_eq_append.mp given]

theorem initial_inv {t : StreamSession codec} (h : t.Inv) (hp : t.stream.point = .start) : (t.step .next).Inv := by
  have empty := h.at_start hp
  have loaded := load_inv h t.stream.jobId
  cases hs : t.stream.since with
  | none =>
    have he : t.stream.next t.eventStore = ({ t.stream with point := .live 0 }, t.eventStore.load t.stream.jobId) := by
      simp [EventStream.next, hp, hs, EventStore.getEvents]
    rw [step_next he]
    exact move_inv loaded (.live 0) rfl (by simp) (by simp [empty])
  | some bound =>
    have he : t.stream.next t.eventStore =
        ({ t.stream with point := .initial (later t.stream.since (t.eventStore.events t.stream.jobId)) },
          t.eventStore.load t.stream.jobId) := by
      simp [EventStream.next, hp, hs, EventStore.getEvents, later]
    rw [step_next he]
    refine ⟨h.fresh, loaded.seen, h.counted, ?_, by simp, by simp⟩
    change t.stream.yielded ++ later t.stream.since (t.eventStore.events t.stream.jobId) <+: t.stored
    rw [empty, h.seen, later_eq_self h.fresh, List.nil_append]

theorem next_inv {t : StreamSession codec} (h : t.Inv) : (t.step .next).Inv := by
  cases hp : t.stream.point with
  | start => exact initial_inv h hp
  | live i => exact live_inv h hp
  | poll => exact poll_inv h hp
  | slice => exact slice_inv h hp
  | finished =>
    unfold step EventStream.next
    simp only [hp]
    exact h
  | initial rest =>
    have pending := h.in_order
    rw [hp] at pending
    unfold step EventStream.next
    simp only [hp]
    cases rest with
    | nil => exact afterInitial_inv h
    | cons event rest => exact yield_inv h event (.initial rest) (by simp) (by simp) pending
  | batch rest =>
    have pending := h.in_order
    rw [hp] at pending
    unfold step EventStream.next
    simp only [hp]
    cases rest with
    | nil => exact move_inv h .poll rfl (by simp) (by simp)
    | cons event rest => exact yield_inv h event (.batch rest) (by simp) (by simp) pending

theorem step_inv (t : StreamSession codec) (a : StreamAction) (h : t.Inv) (hg : t.Fresh a) : (t.step a).Inv := by
  cases a with
  | next => exact next_inv h
  | store event => exact store_inv h hg
  | stop => exact ⟨h.fresh, h.seen, h.counted, h.in_order, h.at_start, h.at_live⟩

/-- Over every interleaving of the generator with stores, a stream delivers each event of its
job once and in order, if all of them are later than its bound. -/
theorem stream_delivers (s : EventStore codec) (jobId : String) (follow : Bool) (since : Option Datetime)
    (earlier : ∀ e ∈ s.events jobId, Later since e) (acts : List StreamAction)
    (h : EachStep step Fresh (start s jobId follow since) acts) :
    ∀ pre, pre <+: acts → (run step (start s jobId follow since) pre).Delivers := by
  intro pre hp
  obtain ⟨post, rfl⟩ := hp
  exact (invariant_of_eachStep step_inv (start_inv earlier follow) (eachStep_append.mp h).1).delivers

/-- An event is stored while the stream stands in its first batch, one after it. -/
theorem stream_delivers_interleaved :
    let event (n : Int) : ProgressEvent :=
      { jobId := "a", timestamp := n, phase := "convert", progressPercent := 0, message := "" }
    let s := (EventStore.ofDir ∅ : EventStore (LineCodec.value ProgressEvent)).store (event 7) true
    let acts := [StreamAction.next, .store (event 8), .next, .next, .next, .next, .next, .store (event 9)]
    let t := run step (start s "a" true (some 5)) acts
    t.stream.yielded = [event 7, event 8] ∧ t.stored = [event 7, event 8, event 9] ∧ t.Delivers := by
  intro event s acts t
  have earlier : ∀ e ∈ s.events "a", Later (some 5) e := by
    intro e he
    have only : s.events "a" = [event 7] := by decide
    rw [only, List.mem_singleton] at he
    subst he
    intro bound hb
    rw [← Option.mem_some_iff.mp hb]
    decide
  refine ⟨by decide, by decide, ?_⟩
  refine stream_delivers s "a" true (some 5) earlier acts ?_ acts List.prefix_rfl
  have fresh (n : Int) (hn : 5 < n) : Later (some 5) (event n) := by
    intro bound hb
    rw [← Option.mem_some_iff.mp hb]
    exact hn
  exact ⟨trivial, fun _ => ⟨fresh 8 (by decide), .inl (by decide)⟩, trivial, trivial, trivial, trivial, trivial,
    fun _ => ⟨fresh 9 (by decide), .inl (by decide)⟩, trivial⟩

/-- An event before the bound shifts the position: the event after it is yielded twice. -/
theorem stream_repeats :
    let event (n : Int) : ProgressEvent :=
      { jobId := "a", timestamp := n, phase := "convert", progressPercent := 0, message := "" }
    let acts := [StreamAction.store (event 3), .store (event 7), .next, .next, .next, .next, .next, .next]
    let t := run step (start (EventStore.ofDir ∅ : EventStore (LineCodec.value ProgressEvent)) "a" true (some 5)) acts
    t.stream.yielded = [event 7, event 7] ∧ later (some 5) t.stored = [event 7] ∧ ¬ t.Delivers := by
  intro event acts t
  have yielded : t.stream.yielded = [event 7, event 7] := by decide
  have asked : later t.stream.since t.stored = [event 7] := by decide
  refine ⟨yielded, asked, fun delivers => ?_⟩
  have bound := delivers.in_order.length_le
  rw [yielded, asked] at bound
  simp at bound

end StreamSession

end eventStream

end H2kvm.Worker
