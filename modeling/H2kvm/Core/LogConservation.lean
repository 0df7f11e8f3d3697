import H2kvm.Core.StructuredLog

namespace H2kvm.Core.AsyncLogWriter

open Framework

variable {cfg : WriterConfig} {s : AsyncLogWriter}

def isCounted (c : WriteCall) : Bool :=
  match c.phase with
  | .counted _ => true
  | _ => false

/-- The calls that have counted an overflow but not yet dropped a message for it. -/
def counting (calls : List WriteCall) : Nat := calls.countP isCounted

/-- What a run keeps in which each overflow replaces the oldest message. -/
structure Kept (s : AsyncLogWriter) : Prop where
  places : ∀ m, s.written.count m + s.dropped.count m + s.hand.toList.count m + (queued s.queue).count m +
    (held s.calls).count m = s.submitted.count m
  numbered : ∀ m ∈ s.submitted, m.call < s.submitted.length
  distinct : s.submitted.Nodup
  order : (s.written ++ s.hand.toList ++ queued s.queue).Sublist s.entered
  counted : s.dropped.length + counting s.calls = s.overflowCount
  early : s.drain ≠ .joining → none ∉ s.queue ∧ s.stopped = false
  sentinel : s.drain = .joining → s.stopped = true ∨ none ∈ s.queue
  done : s.stopped = true → s.hand = none ∧ s.drain = .joining
  calm : s.quiet = true → s.drain ≠ .uncalled → s.calls = []
  last : s.quiet = true → s.drain = .joining → s.stopped = false → ∃ ms : List Message, s.queue = ms.map some ++ [none]
  empty : s.quiet = true → s.stopped = true → s.queue = []

section calls

variable {calls : List WriteCall} {i : Nat} {c : WriteCall}

theorem held_append (cs ds : List WriteCall) : held (cs ++ ds) = held cs ++ held ds := List.filterMap_append

/-- How often a call has a message in hand. -/
def carries (c : WriteCall) (m : Message) : Nat := if c.phase ≠ .warning ∧ c.message = m then 1 else 0

theorem count_held_cons (c : WriteCall) (cs : List WriteCall) (m : Message) :
    (held (c :: cs)).count m = carries c m + (held cs).count m := by
  by_cases warning : c.phase = .warning
  · simp [carries, held, warning]
  · simp [carries, held, warning, List.count_cons, Nat.add_comm]

theorem count_held_set (at_i : calls[i]? = some c) (c' : WriteCall) (m : Message) :
    (held (calls.set i c')).count m + carries c m = (held calls).count m + carries c' m := by
  obtain ⟨before, after, was, -, set⟩ := split_at at_i
  rw [set, was, held_append, held_append, List.count_append, List.count_append, count_held_cons, count_held_cons]
  omega

theorem count_held_eraseIdx (at_i : calls[i]? = some c) (m : Message) :
    (held (calls.eraseIdx i)).count m + carries c m = (held calls).count m := by
  obtain ⟨before, after, was, erased, -⟩ := split_at at_i
  rw [erased, was, held_append, held_append, List.count_append, List.count_append, count_held_cons]
  omega

theorem counting_set (at_i : calls[i]? = some c) (c' : WriteCall) :
    counting (calls.set i c') + (if isCounted c then 1 else 0) = counting calls + (if isCounted c' then 1 else 0) :=
  countP_set at_i c' isCounted

theorem counting_eraseIdx (at_i : calls[i]? = some c) :
    counting (calls.eraseIdx i) + (if isCounted c then 1 else 0) = counting calls := countP_eraseIdx at_i isCounted

end calls

section steps

theorem queued_concat (queue : List (Option Message)) (m : Message) : queued (queue ++ [some m]) = queued queue ++ [m] :=
  List.filterMap_append

/-- A new message goes to the end of the queue, or into the hands of its call. -/
theorem Kept.submit (h : Kept s) (text : String) : Kept (s.submit cfg text) := by
  let m : Message := ⟨s.submitted.length, text⟩
  have fresh : m ∉ s.submitted := fun mem => absurd (h.numbered m mem) (lt_irrefl _)
  have numbered : ∀ m' ∈ s.submitted ++ [m], m'.call < (s.submitted ++ [m]).length := by
    intro m' hm'
    rw [List.length_append, List.length_singleton]
    rcases List.mem_append.mp hm' with old | new
    · exact Nat.lt_succ_of_lt (h.numbered m' old)
    · rw [List.mem_singleton.mp new]
      exact Nat.lt_succ_self _
  have distinct : (s.submitted ++ [m]).Nodup := by
    rw [List.nodup_append]
    refine ⟨h.distinct, List.nodup_singleton m, ?_⟩
    intro a ha b hb same
    rw [List.mem_singleton.mp hb] at same
    exact fresh (same ▸ ha)
  -- A write after `drain` is not quiet.
  have calm (quiet : (s.quiet && decide (s.drain = DrainPhase.uncalled)) = true) : s.drain = .uncalled :=
    of_decide_eq_true (Bool.and_eq_true_iff.mp quiet).2
  unfold AsyncLogWriter.submit
  simp only
  split
  · refine ⟨?_, numbered, distinct, h.order, ?_, h.early, h.sentinel, h.done, ?_, ?_, ?_⟩
    · intro m'
      have before := h.places m'
      have new : (held [{ message := m }]).count m' = [m].count m' := rfl
      show s.written.count m' + s.dropped.count m' + s.hand.toList.count m' + (queued s.queue).count m' +
        (held (s.calls ++ [{ message := m }])).count m' = (s.submitted ++ [m]).count m'
      rw [held_append, List.count_append, List.count_append, new]
      omega
    · have before := h.counted
      have new : counting (s.calls ++ [{ message := m }]) = counting s.calls + 0 := List.countP_append
      show s.dropped.length + counting (s.calls ++ [{ message := m }]) = s.overflowCount
      omega
    · exact fun quiet called => absurd (calm quiet) called
    · exact fun quiet joining _ => absurd ((calm quiet).symm.trans joining) DrainPhase.noConfusion
    · exact fun quiet stopped => absurd ((calm quiet).symm.trans (h.done stopped).2) DrainPhase.noConfusion
  · refine ⟨?_, numbered, distinct, ?_, h.counted, ?_, ?_, h.done, ?_, ?_, ?_⟩
    · intro m'
      have before := h.places m'
      show s.written.count m' + s.dropped.count m' + s.hand.toList.count m' + (queued (s.queue ++ [some m])).count m' +
        (held s.calls).count m' = (s.submitted ++ [m]).count m'
      rw [queued_concat, List.count_append, List.count_append]
      omega
    · show (s.written ++ s.hand.toList ++ queued (s.queue ++ [some m])).Sublist (s.entered ++ [m])
      rw [queued_concat, ← List.append_assoc]
      exact h.order.append (List.Sublist.refl _)
    · intro early
      obtain ⟨free, running⟩ := h.early early
      refine ⟨?_, running⟩
      intro mem
      rcases List.mem_append.mp mem with old | new
      · exact free old
      · cases List.mem_singleton.mp new
    · exact fun joining => (h.sentinel joining).imp_right (List.mem_append_left _)
    · exact fun quiet called => absurd (calm quiet) called
    · exact fun quiet joining _ => absurd ((calm quiet).symm.trans joining) DrainPhase.noConfusion
    · exact fun quiet stopped => absurd ((calm quiet).symm.trans (h.done stopped).2) DrainPhase.noConfusion

variable {i : Nat} {c : WriteCall}

/-- What a call under way may change: with it, `drain` came too early or not at all. -/
theorem Kept.busy (h : Kept s) (at_i : s.calls[i]? = some c) {calls : List WriteCall} {queue : List (Option Message)}
    {entered dropped : List Message} {overflowCount : Nat}
    (places : ∀ m, s.written.count m + dropped.count m + s.hand.toList.count m + (queued queue).count m +
      (held calls).count m = s.submitted.count m)
    (order : (s.written ++ s.hand.toList ++ queued queue).Sublist entered)
    (counted : dropped.length + counting calls = overflowCount)
    (sentinel : none ∈ queue ↔ none ∈ s.queue) (dest : List Line) :
    Kept { s with calls, queue, entered, dropped, overflowCount, dest } := by
  have early (quiet : s.quiet = true) : s.drain = .uncalled := by
    by_contra called
    rw [h.calm quiet called] at at_i
    cases at_i
  refine ⟨places, h.numbered, h.distinct, order, counted, ?_, ?_, h.done, ?_, ?_, ?_⟩
  · intro uncalled
    obtain ⟨free, running⟩ := h.early uncalled
    exact ⟨fun mem => free (sentinel.mp mem), running⟩
  · exact fun joining => (h.sentinel joining).imp_right sentinel.mpr
  · exact fun quiet called => absurd (early quiet) called
  · exact fun quiet joining _ => absurd ((early quiet).symm.trans joining) DrainPhase.noConfusion
  · exact fun quiet stopped => absurd ((early quiet).symm.trans (h.done stopped).2) DrainPhase.noConfusion

theorem none_mem_concat (queue : List (Option Message)) (m : Message) : none ∈ queue ++ [some m] ↔ none ∈ queue := by
  simp

theorem Kept.overflow_full (h : Kept s) (at_i : s.calls[i]? = some c) (phase : c.phase = .full) (works : Bool) :
    Kept (s.overflow cfg i c works) := by
  let c' : WriteCall := { c with phase := .counted (decide ((s.overflowCount + 1) % cfg.overflowWarnInterval = 0)) }
  have result : s.overflow cfg i c works = { s with calls := s.calls.set i c', overflowCount := s.overflowCount + 1 } := by
    simp only [AsyncLogWriter.overflow, phase]
    rfl
  rw [result]
  refine h.busy at_i ?_ h.order ?_ Iff.rfl s.dest
  · intro m
    have before := h.places m
    have moved := count_held_set at_i c' m
    have same : carries c m = carries c' m := by simp [carries, phase, c']
    omega
  · have before := h.counted
    have moved := counting_set at_i c'
    have was : isCounted c = false := by rw [isCounted, phase]
    have is : isCounted c' = true := rfl
    rw [was, is, if_pos rfl, if_neg Bool.false_ne_true] at moved
    omega

theorem Kept.overflow_counted (h : Kept s) (at_i : s.calls[i]? = some c) {warn : Bool} (phase : c.phase = .counted warn)
    {m : Message} {queue : List (Option Message)} (first : s.queue = some m :: queue) (works : Bool) :
    Kept (s.overflow cfg i c works) := by
  let c' : WriteCall := { c with phase := .cleared warn }
  have result : s.overflow cfg i c works =
      { s with calls := s.calls.set i c', queue := queue, dropped := s.dropped ++ [m] } := by
    simp only [AsyncLogWriter.overflow, phase, setPhase, first]
    rfl
  have rest : queued s.queue = m :: queued queue := by
    rw [first]
    rfl
  rw [result]
  refine h.busy at_i ?_ ?_ ?_ ?_ s.dest
  · intro m'
    have before := h.places m'
    have moved := count_held_set at_i c' m'
    have same : carries c m' = carries c' m' := by simp [carries, phase, c']
    rw [rest, List.count_cons] at before
    rw [List.count_append, List.count_cons, List.count_nil]
    omega
  · have before := h.order
    rw [rest] at before
    exact ((List.sublist_cons_self m (queued queue)).append_left _).trans before
  · have before := h.counted
    have moved := counting_set at_i c'
    have was : isCounted c = true := by rw [isCounted, phase]
    have is : isCounted c' = false := rfl
    rw [was, is, if_pos rfl, if_neg Bool.false_ne_true] at moved
    rw [List.length_append, List.length_singleton]
    omega
  · rw [first, List.mem_cons]
    simp

theorem Kept.overflow_cleared (h : Kept s) (at_i : s.calls[i]? = some c) {warn : Bool} (phase : c.phase = .cleared warn)
    (room : s.isFull cfg = false) (works : Bool) : Kept (s.overflow cfg i c works) := by
  have was : isCounted c = false := by rw [isCounted, phase]
  -- Once its message is on the queue, the call has nothing in hand.
  have ended : ∃ calls, s.conclude i c warn = { s with calls } ∧
      (∀ m, (held calls).count m + carries c m = (held s.calls).count m) ∧ counting calls = counting s.calls := by
    cases warn with
    | true =>
      let c' : WriteCall := { c with phase := .warning }
      refine ⟨s.calls.set i c', rfl, ?_, ?_⟩
      · intro m
        have moved := count_held_set at_i c' m
        have none : carries c' m = 0 := by simp [carries, c']
        omega
      · have moved := counting_set at_i c'
        have is : isCounted c' = false := rfl
        rw [was, is, if_neg Bool.false_ne_true] at moved
        omega
    | false =>
      refine ⟨s.calls.eraseIdx i, rfl, count_held_eraseIdx at_i, ?_⟩
      have moved := counting_eraseIdx at_i
      rw [was, if_neg Bool.false_ne_true] at moved
      omega
  obtain ⟨calls, concluded, inHand, count⟩ := ended
  have free : ({ s with calls } : AsyncLogWriter).isFull cfg = false := room
  have result : s.overflow cfg i c works =
      { s with calls, queue := s.queue ++ [some c.message], entered := s.entered ++ [c.message] } := by
    simp only [AsyncLogWriter.overflow, phase, concluded, free, Bool.false_eq_true, if_false, put]
  rw [result]
  refine h.busy at_i ?_ ?_ ?_ (none_mem_concat _ _) s.dest
  · intro m
    have before := h.places m
    have moved := inHand m
    have own : [c.message].count m = carries c m := by simp [carries, phase, List.count_cons]
    rw [queued_concat, List.count_append]
    omega
  · rw [queued_concat, ← List.append_assoc]
    exact h.order.append (List.Sublist.refl _)
  · rw [count]
    exact h.counted

theorem Kept.overflow_warning (h : Kept s) (at_i : s.calls[i]? = some c) (phase : c.phase = .warning) (works : Bool) :
    Kept (s.overflow cfg i c works) := by
  have was : isCounted c = false := by rw [isCounted, phase]
  have ended (dest : List Line) : Kept { s with calls := s.calls.eraseIdx i, dest } := by
    refine h.busy at_i ?_ h.order ?_ Iff.rfl dest
    · intro m
      have before := h.places m
      have moved := count_held_eraseIdx at_i m
      have none : carries c m = 0 := by simp [carries, phase]
      omega
    · have before := h.counted
      have moved := counting_eraseIdx at_i
      rw [was, if_neg Bool.false_ne_true] at moved
      omega
  simp only [AsyncLogWriter.overflow, phase]
  split
  · exact ended _
  · exact ended _

theorem Kept.overflow (h : Kept s) (at_i : s.calls[i]? = some c) {works : Bool} (replaces : s.Replaces cfg (.write i works)) :
    Kept (s.overflow cfg i c works) := by
  cases phase : c.phase with
  | full => exact h.overflow_full at_i phase works
  | counted warn =>
    simp only [Replaces, at_i, Option.map_some, phase] at replaces
    obtain ⟨m, queue, first⟩ := replaces
    exact h.overflow_counted at_i phase first works
  | cleared warn =>
    simp only [Replaces, at_i, Option.map_some, phase] at replaces
    exact h.overflow_cleared at_i phase replaces works
  | warning => exact h.overflow_warning at_i phase works

theorem Kept.take (h : Kept s) : Kept s.take := by
  unfold AsyncLogWriter.take
  split
  · exact h
  rename_i idle
  rw [not_or, not_not] at idle
  have running : s.stopped = false := Bool.eq_false_iff.mpr idle.1
  split
  · exact h
  · rename_i queue first
    -- Only `drain` puts the sentinel on the queue.
    have joining : s.drain = .joining := by
      by_contra early
      exact (h.early early).1 (by rw [first]; exact List.mem_cons_self)
    have rest : queued s.queue = queued queue := by rw [first]; rfl
    refine ⟨?_, h.numbered, h.distinct, ?_, h.counted, ?_, fun _ => .inl rfl, fun _ => ⟨idle.2, joining⟩, h.calm, ?_, ?_⟩
    · intro m
      have before := h.places m
      rw [rest] at before
      exact before
    · have before := h.order
      rw [rest] at before
      exact before
    · exact fun early => absurd joining early
    · exact fun _ _ running => nomatch running
    · intro quiet _
      obtain ⟨ms, all⟩ := h.last quiet joining running
      rw [first] at all
      cases ms with
      | nil =>
        rw [List.map_nil, List.nil_append, List.cons.injEq] at all
        exact all.2
      | cons m ms =>
        rw [List.map_cons, List.cons_append, List.cons.injEq] at all
        cases all.1
  · rename_i m queue first
    have rest : queued s.queue = m :: queued queue := by rw [first]; rfl
    have none : s.hand = none := idle.2
    refine ⟨?_, h.numbered, h.distinct, ?_, h.counted, ?_, ?_, ?_, h.calm, ?_, ?_⟩
    · intro m'
      have before := h.places m'
      rw [rest, none, List.count_cons] at before
      show s.written.count m' + s.dropped.count m' + (some m).toList.count m' + (queued queue).count m' +
        (held s.calls).count m' = s.submitted.count m'
      rw [Option.toList_some, List.count_singleton]
      simp only [Option.toList_none, List.count_nil] at before
      omega
    · have before := h.order
      rw [rest, none] at before
      simpa using before
    · intro early
      obtain ⟨free, running⟩ := h.early early
      rw [first, List.mem_cons, not_or] at free
      exact ⟨free.2, running⟩
    · intro joining
      refine (h.sentinel joining).imp_right fun mem => ?_
      rw [first] at mem
      exact (List.mem_cons.mp mem).resolve_left (fun same => nomatch same)
    · exact fun stopped => absurd stopped idle.1
    · intro quiet joining _
      obtain ⟨ms, all⟩ := h.last quiet joining running
      rw [first] at all
      cases ms with
      | nil =>
        rw [List.map_nil, List.nil_append, List.cons.injEq] at all
        cases all.1
      | cons m' ms =>
        rw [List.map_cons, List.cons_append, List.cons.injEq] at all
        exact ⟨ms, all.2⟩
    · exact fun _ stopped => absurd stopped idle.1

theorem Kept.emit (h : Kept s) : Kept (s.emit true) := by
  unfold AsyncLogWriter.emit
  split
  · exact h
  · rename_i m hand
    simp only [if_true]
    refine ⟨?_, h.numbered, h.distinct, ?_, h.counted, h.early, h.sentinel, ?_, h.calm, h.last, h.empty⟩
    · intro m'
      have before := h.places m'
      rw [hand, Option.toList_some] at before
      show (s.written ++ [m]).count m' + s.dropped.count m' + none.toList.count m' + (queued s.queue).count m' +
        (held s.calls).count m' = s.submitted.count m'
      rw [List.count_append, Option.toList_none, List.count_nil]
      omega
    · have before := h.order
      rw [hand, Option.toList_some] at before
      rw [Option.toList_none, List.append_nil]
      exact before
    · exact fun stopped => ⟨rfl, (h.done stopped).2⟩

theorem Kept.drain (h : Kept s) (uncalled : s.drain = .uncalled) :
    Kept { s with drain := .putting, quiet := s.quiet && s.calls.isEmpty } := by
  obtain ⟨free, running⟩ := h.early (by rw [uncalled]; exact DrainPhase.noConfusion)
  refine ⟨h.places, h.numbered, h.distinct, h.order, h.counted, fun _ => ⟨free, running⟩, DrainPhase.noConfusion, ?_, ?_,
    fun _ => DrainPhase.noConfusion, ?_⟩
  · intro stopped
    rw [running] at stopped
    cases stopped
  · intro quiet _
    exact List.isEmpty_iff.mp (Bool.and_eq_true_iff.mp quiet).2
  · intro _ stopped
    rw [running] at stopped
    cases stopped

theorem exists_split_none {queue : List (Option Message)} (h : none ∈ queue) :
    ∃ (ms : List Message) (rest : List (Option Message)), queue = ms.map some ++ none :: rest := by
  induction queue with
  | nil => cases h
  | cons x queue ih =>
    cases x with
    | none => exact ⟨[], queue, rfl⟩
    | some m =>
      obtain ⟨ms, rest, split⟩ := ih ((List.mem_cons.mp h).resolve_left fun same => nomatch same)
      exact ⟨m :: ms, rest, by rw [split]; rfl⟩

theorem exists_messages {queue : List (Option Message)} (h : none ∉ queue) :
    ∃ ms : List Message, queue = ms.map some := by
  induction queue with
  | nil => exact ⟨[], rfl⟩
  | cons x queue ih =>
    rw [List.mem_cons, not_or] at h
    cases x with
    | none => exact absurd rfl h.1
    | some m =>
      obtain ⟨ms, split⟩ := ih h.2
      exact ⟨m :: ms, by rw [split]; rfl⟩

theorem Kept.putSentinel (h : Kept s) (putting : s.drain = .putting) :
    Kept { s with queue := s.queue ++ [none], drain := .joining } := by
  obtain ⟨free, running⟩ := h.early (by rw [putting]; exact DrainPhase.noConfusion)
  have same : queued (s.queue ++ [none]) = queued s.queue := by
    rw [queued, List.filterMap_append]
    exact List.append_nil _
  refine ⟨?_, h.numbered, h.distinct, ?_, h.counted, fun early => absurd rfl early, ?_, ?_, ?_, ?_, ?_⟩
  · intro m
    rw [same]
    exact h.places m
  · rw [same]
    exact h.order
  · exact fun _ => .inr (List.mem_append_right _ List.mem_cons_self)
  · exact fun stopped => ⟨(h.done stopped).1, rfl⟩
  · exact fun quiet _ => h.calm quiet (by rw [putting]; exact DrainPhase.noConfusion)
  · intro _ _ _
    obtain ⟨ms, all⟩ := exists_messages free
    exact ⟨ms, by rw [all]⟩
  · intro _ stopped
    rw [running] at stopped
    cases stopped

theorem step_kept (s : AsyncLogWriter) (e : LogEvent) (h : Kept s) (replaces : s.Replaces cfg e) : Kept (s.step cfg e) := by
  cases e with
  | submit text => exact h.submit text
  | write i works =>
    simp only [step]
    split
    · exact h
    · rename_i c at_i
      exact h.overflow at_i replaces
  | take => exact h.take
  | emit works =>
    have ok : works = true := replaces
    rw [ok]
    exact h.emit
  | drain =>
    simp only [step]
    split
    · rename_i uncalled
      exact h.drain uncalled
    · exact h
  | putSentinel =>
    simp only [step]
    split
    · rename_i putting
      exact h.putSentinel putting.1
    · exact h

end steps

section shutdown

/-- The writer thread writes what it has and takes the next message, some times over. -/
def turns : Nat → List LogEvent
  | 0 => []
  | n + 1 => .emit true :: .take :: turns n

theorem ofShutdown_turns (n : Nat) : ∀ e ∈ turns n, ofShutdown e = true := by
  induction n with
  | zero => exact fun e he => (List.not_mem_nil he).elim
  | succ n ih => exact List.forall_mem_cons.mpr ⟨rfl, List.forall_mem_cons.mpr ⟨rfl, ih⟩⟩

theorem emit_frame (s : AsyncLogWriter) :
    (s.emit true).hand = none ∧ (s.emit true).queue = s.queue ∧ (s.emit true).stopped = s.stopped ∧
      (s.emit true).drain = s.drain := by
  unfold AsyncLogWriter.emit
  split
  · rename_i none
    exact ⟨none, rfl, rfl, rfl⟩
  · exact ⟨rfl, rfl, rfl, rfl⟩

/-- The writer thread works through the messages that come first. -/
theorem run_turns (cfg : WriterConfig) (ms : List Message) {s : AsyncLogWriter} {rest : List (Option Message)}
    (queue : s.queue = ms.map some ++ rest) (running : s.stopped = false) :
    (run (step cfg) s (turns ms.length)).queue = rest ∧ (run (step cfg) s (turns ms.length)).stopped = false ∧
      (run (step cfg) s (turns ms.length)).drain = s.drain := by
  induction ms generalizing s with
  | nil => exact ⟨queue, running, rfl⟩
  | cons m ms ih =>
    obtain ⟨free, same, stopped, drain⟩ := emit_frame s
    have first : (s.emit true).queue = some m :: (ms.map some ++ rest) := same.trans queue
    have idle : ¬((s.emit true).stopped = true ∨ (s.emit true).hand ≠ none) := by
      rw [stopped, running, free]
      simp
    have taken : (s.emit true).take = { s.emit true with queue := ms.map some ++ rest, hand := some m } := by
      simp only [AsyncLogWriter.take, if_neg idle, first]
    have after : run (step cfg) s (turns (m :: ms).length) = run (step cfg) (s.emit true).take (turns ms.length) := rfl
    rw [after, taken]
    obtain ⟨left, on, drained⟩ :=
      ih (s := { s.emit true with queue := ms.map some ++ rest, hand := some m }) rfl (stopped.trans running)
    exact ⟨left, on, drained.trans drain⟩

/-- A sentinel that comes first is received. -/
theorem run_turn_sentinel {rest : List (Option Message)} (queue : s.queue = none :: rest) :
    (run (step cfg) s (turns 1)).stopped = true := by
  obtain ⟨free, same, stopped, -⟩ := emit_frame s
  show ((s.emit true).take).stopped = true
  unfold AsyncLogWriter.take
  split
  · rename_i busy
    exact busy.resolve_right fun held => held free
  · simp only [same.trans queue]

theorem Kept.joins (cfg : WriterConfig) (h : Kept s) (joining : s.drain = .joining) :
    ∃ n, (run (step cfg) s (turns n)).stopped = true := by
  rcases h.sentinel joining with stopped | mem
  · exact ⟨0, stopped⟩
  · by_cases running : s.stopped = false
    · obtain ⟨ms, rest, split⟩ := exists_split_none mem
      obtain ⟨left, on, -⟩ := run_turns cfg ms split running
      have more : turns (ms.length + 1) = turns ms.length ++ turns 1 := by
        generalize ms.length = n
        induction n with
        | zero => rfl
        | succ n ih =>
          show _ :: _ :: turns (n + 1) = _ :: _ :: (turns n ++ turns 1)
          rw [ih]
      refine ⟨ms.length + 1, ?_⟩
      rw [more, run_append]
      exact run_turn_sentinel left
    · exact ⟨0, by simpa [turns] using running⟩

theorem Kept.shutdown (h : Kept s) (called : s.drain ≠ .uncalled) :
    ∃ events, (∀ e ∈ events, ofShutdown e = true) ∧ (run (step cfg) s events).stopped = true := by
  by_cases joining : s.drain = .joining
  · obtain ⟨n, stopped⟩ := h.joins cfg joining
    exact ⟨turns n, ofShutdown_turns n, stopped⟩
  · -- The queue is worked off, so that there is room for the sentinel.
    obtain ⟨free, running⟩ := h.early joining
    obtain ⟨ms, all⟩ := exists_messages free
    obtain ⟨left, on, drain⟩ := run_turns cfg ms (all.trans (List.append_nil _).symm) running
    have putting : s.drain = .putting := by
      cases phase : s.drain with
      | uncalled => exact absurd phase called
      | putting => rfl
      | joining => exact absurd phase joining
    have room : (run (step cfg) s (turns ms.length)).isFull cfg = false := by
      have positive := cfg.bounded
      rw [isFull, left, List.length_nil]
      exact decide_eq_false (by omega)
    refine ⟨turns ms.length ++ .putSentinel :: turns 1, ?_, ?_⟩
    · intro e he
      rcases List.mem_append.mp he with worked | ending
      · exact ofShutdown_turns _ e worked
      · rcases List.mem_cons.mp ending with rfl | last
        · rfl
        · exact ofShutdown_turns _ e last
    · rw [run_append]
      have put : (run (step cfg) s (turns ms.length)).step cfg .putSentinel =
          { run (step cfg) s (turns ms.length) with queue := [none], drain := .joining } := by
        simp only [step, drain, putting, room, Bool.not_false, and_self, if_true, left, List.nil_append]
      rw [run_cons, put]
      exact run_turn_sentinel rfl

theorem Kept.accounted (h : Kept s) : Accounted cfg s := by
  have places : (s.written ++ s.dropped ++ (s.hand.toList ++ queued s.queue ++ held s.calls)).Perm s.submitted := by
    rw [List.perm_iff_count]
    intro m
    have here := h.places m
    simp only [List.count_append]
    omega
  refine ⟨places, h.distinct, h.order, ?_, h.shutdown, ?_⟩
  · intro none
    have count := h.counted
    rw [none] at count
    exact count
  · intro stopped quiet
    obtain ⟨free, joining⟩ := h.done stopped
    have calls := h.calm quiet (by rw [joining]; exact DrainPhase.noConfusion)
    rw [free, h.empty quiet stopped, calls] at places
    simpa [queued, held] using places

end shutdown

/-- As long as each overflow replaces the oldest message by the new one, messages are accounted for
and the writer is shut down. -/
theorem accounted_of_replaces (cfg : WriterConfig) {events : List LogEvent}
    (h : EachStep (step cfg) (Replaces cfg) {} events) {pre : List LogEvent} (hp : pre <+: events) :
    Accounted cfg (run (step cfg) {} pre) := by
  obtain ⟨post, rfl⟩ := hp
  have upto := (eachStep_append.mp h).1
  have start : Kept {} := by
    refine ⟨fun _ => rfl, ?_, List.nodup_nil, List.Sublist.refl _, rfl, ?_, DrainPhase.noConfusion, ?_, fun _ _ => rfl,
      fun _ => DrainPhase.noConfusion, fun _ _ => rfl⟩
    · exact fun m hm => (List.not_mem_nil hm).elim
    · exact fun _ => ⟨List.not_mem_nil, rfl⟩
    · exact fun stopped => nomatch stopped
  exact (invariant_of_eachStep step_kept start upto).accounted

/-- A queue with room for one message. -/
def small : WriterConfig := { maxsize := 1 }

/-- The second message replaces the first, and the writer is drained. -/
def replacing : List LogEvent :=
  [.submit "a", .submit "b", .write 0 true, .write 0 true, .write 0 true, .drain, .take, .putSentinel, .emit true, .take]

theorem accounted_replacing :
    (run (step small) {} replacing).written = [⟨1, "b"⟩] ∧ (run (step small) {} replacing).dropped = [⟨0, "a"⟩] ∧
      Accounted small (run (step small) {} replacing) := by
  refine ⟨by decide +kernel, by decide +kernel, accounted_of_replaces small ?_ List.prefix_rfl⟩
  have full : (run (step small) {} (replacing.take 3)).queue = [some ⟨0, "a"⟩] := by decide +kernel
  have room : (run (step small) {} (replacing.take 4)).isFull small = false := by decide +kernel
  exact ⟨trivial, trivial, trivial, ⟨_, _, full⟩, room, trivial, trivial, trivial, rfl, trivial, trivial⟩

/-- The writer thread empties the queue before the producer can drop a message. -/
def overcounted : List LogEvent :=
  [.submit "a", .submit "b", .write 0 true, .take, .write 0 true, .write 0 true]

/-- A producer that overflows takes the sentinel for the oldest message. -/
def sentinelTaken : List LogEvent :=
  [.drain, .putSentinel, .submit "a", .write 0 true, .write 0 true, .write 0 true]

/-- The sentinel is on the queue of no state that comes after it was taken. -/
theorem sentinel_lost (cfg : WriterConfig) {turns : List LogEvent} (own : ∀ e ∈ turns, ofShutdown e = true) (s : AsyncLogWriter)
    (joining : s.drain = .joining) (free : none ∉ s.queue) (running : s.stopped = false) :
    (run (step cfg) s turns).stopped = false := by
  induction turns generalizing s with
  | nil => exact running
  | cons e turns ih =>
    obtain ⟨here, later⟩ := List.forall_mem_cons.mp own
    rw [run_cons]
    cases e with
    | take =>
      simp only [step, AsyncLogWriter.take]
      split
      · exact ih later s joining free running
      · split
        · exact ih later s joining free running
        · rename_i queue first
          exact absurd (first ▸ List.mem_cons_self) free
        · rename_i m queue first
          refine ih later _ joining ?_ running
          intro mem
          exact free (first ▸ List.mem_cons_of_mem _ mem)
    | emit works =>
      cases works with
      | true =>
        obtain ⟨-, queue, stopped, drain⟩ := emit_frame s
        exact ih later _ (drain.trans joining) (queue ▸ free) (stopped.trans running)
      | false => cases here
    | putSentinel =>
      have same : s.step cfg .putSentinel = s := by simp [step, joining]
      rw [same]
      exact ih later s joining free running
    | submit text => cases here
    | write i works => cases here
    | drain => cases here

theorem overflow_unaccounted :
    ¬Accounted small (run (step small) {} overcounted) ∧ ¬Accounted small (run (step small) {} sentinelTaken) := by
  constructor
  · intro accounted
    have count := accounted.count (by decide +kernel)
    exact absurd count (by decide +kernel)
  · intro accounted
    obtain ⟨turns, own, stopped⟩ := accounted.shutdown (by decide +kernel)
    have lost := sentinel_lost small own (run (step small) {} sentinelTaken) (by decide +kernel)
      (by decide +kernel) (by decide +kernel)
    exact absurd (lost.symm.trans stopped) (by decide)

end H2kvm.Core.AsyncLogWriter
