import H2kvm.Core.StructuredLog

namespace H2kvm.Core.StructuredLog

variable {V : Type*} {fmt : Formatting V}

namespace Logging

/-- A message was printed or put on a queue. -/
def Has (s : Logging V) (m : Message) : Prop := m ∈ s.printed ∨ ∃ i, m ∈ s.accepted i

def Current (s : Logging V) (i : Nat) : Prop := s.mainWriter = some i ∨ s.auditWriter = some i

/-- Nothing was put on the queues of the current writers. -/
def Idle (s : Logging V) : Prop := ∀ i, s.Current i → s.accepted i = []

/-- A replaced writer has accepted nothing. -/
def Replaced (s : Logging V) : Prop := ∀ i, ¬s.Current i → s.accepted i = []

/-- Nothing is lost, if the current writers are drained. -/
structure Good (s : Logging V) : Prop where
  replaced : s.Replaced
  audits : ∀ id ∈ s.audits, ∃ m : Message, m.call = id ∧ s.Has m

/-- The audit channel takes the record. -/
def Recorded (fmt : Formatting V) (s : Logging V) (event : String) (fields : List (String × V)) : Prop :=
  s.auditWriter ≠ none ∧ fmt.auditJson event fields ≠ none

/-- The main pipeline lets an audit event pass. -/
def Heard (fmt : Formatting V) (s : Logging V) (event : String) (fields : List (String × V)) : Prop :=
  clashes ["method_name", "self"] fields = false ∧ threshold s.level ≤ 30 ∧
    proxy fmt s.ensureConfigured.pipeline "debug" true true (auditEvent event fields) ≠ none

/-- A call that replaces writers finds them idle, and an audit event goes to a channel that takes it. -/
def Keeps (fmt : Formatting V) (s : Logging V) : Call V → Prop
  | .setLogLevel _ | .addProcessor _ => True
  | .configure _ _ => s.Idle
  | .logEvent _ _ _ _ _ => s.configured = true ∨ s.Idle
  | .logAudit event fields =>
    (Recorded fmt s event fields ∨ clashes ["level", "_audit", "channel"] fields = false ∧ Heard fmt s event fields) ∧
      (clashes ["level", "_audit", "channel"] fields = true ∨ s.configured = true ∨
        s.Idle ∧ ¬Recorded fmt s event fields)

/-- The writers are numbered from zero. -/
structure Numbered (s : Logging V) : Prop where
  fresh : ∀ i, s.next ≤ i → s.accepted i = []
  current : ∀ i, s.Current i → i < s.next

/-- The writers are numbered from zero, and so are the calls. -/
structure Counted (s : Logging V) : Prop extends s.Numbered where
  calls : ∀ m, s.Has m → m.call < s.calls
  audits : ∀ id ∈ s.audits, id < s.calls

section steps

variable {s : Logging V} {m m' : Message} {i : Nat}

@[simp] theorem put_mainWriter : (s.put i m).mainWriter = s.mainWriter := rfl

@[simp] theorem put_auditWriter : (s.put i m).auditWriter = s.auditWriter := rfl

@[simp] theorem put_accepted_self : (s.put i m).accepted i = s.accepted i ++ [m] := Function.update_self ..

@[simp] theorem put_accepted_of_ne {j : Nat} (h : j ≠ i) : (s.put i m).accepted j = s.accepted j :=
  Function.update_of_ne h ..

theorem has_put : (s.put i m).Has m' ↔ s.Has m' ∨ m' = m := by
  have queue (j : Nat) : m' ∈ (s.put i m).accepted j ↔ m' ∈ s.accepted j ∨ j = i ∧ m' = m := by
    by_cases same : j = i
    · subst same
      simp
    · simp [same]
  simp only [Has, queue, exists_or, exists_eq_left, ← or_assoc]
  rfl

theorem replaced_put (current : s.Current i) : (s.put i m).Replaced ↔ s.Replaced := by
  refine forall_congr' fun j => imp_congr_right fun replaced => ?_
  have other : j ≠ i := by
    rintro rfl
    exact replaced current
  rw [put_accepted_of_ne other]

theorem idle_put (current : s.Current i) : ¬(s.put i m).Idle := by
  intro idle
  have empty := idle i current
  rw [put_accepted_self] at empty
  exact List.append_ne_nil_of_right_ne_nil _ (List.cons_ne_nil _ _) empty

theorem Numbered.put (numbered : s.Numbered) (current : s.Current i) (m : Message) : (s.put i m).Numbered := by
  refine ⟨fun j fresh => ?_, numbered.current⟩
  have known := numbered.current i current
  have next : (s.put i m).next = s.next := rfl
  rw [put_accepted_of_ne (by omega)]
  exact numbered.fresh j fresh

theorem Numbered.msg (numbered : s.Numbered) (m : Message) : (s.msg m).Numbered := by
  unfold Logging.msg
  split
  · next i main => exact numbered.put (.inl main) m
  · exact ⟨numbered.fresh, numbered.current⟩

theorem Numbered.configure (numbered : s.Numbered) (json isAsync : Bool) : (s.configure json isAsync).Numbered := by
  cases isAsync with
  | false => exact ⟨numbered.fresh, fun i current => by simp [Logging.configure, Current] at current⟩
  | true =>
    constructor
    · intro i later
      have next : (s.configure json true).next = s.next + 2 := rfl
      exact numbered.fresh i (by omega)
    · intro i current
      simp only [Logging.configure, Current, if_true, Option.some.injEq] at current ⊢
      omega

theorem Numbered.ensureConfigured (numbered : s.Numbered) : s.ensureConfigured.Numbered := by
  unfold Logging.ensureConfigured
  split
  · exact numbered
  · exact numbered.configure true true

theorem has_msg : (s.msg m).Has m' ↔ s.Has m' ∨ m' = m := by
  unfold msg
  split
  · exact has_put
  · simp only [Has, List.mem_append, List.mem_singleton]
    tauto

theorem replaced_msg : (s.msg m).Replaced ↔ s.Replaced := by
  unfold msg
  split
  · next i main => exact replaced_put (.inl main)
  · exact Iff.rfl

theorem has_configure {json isAsync : Bool} : (s.configure json isAsync).Has m ↔ s.Has m := by
  cases isAsync with
  | false => exact Iff.rfl
  | true => exact Iff.rfl

/-- The writers that are replaced may have accepted nothing. -/
theorem replaced_configure (numbered : s.Numbered) (json isAsync : Bool) :
    (s.configure json isAsync).Replaced ↔ s.Replaced ∧ s.Idle := by
  have all : s.Replaced ∧ s.Idle ↔ ∀ i, s.accepted i = [] := by
    constructor
    · rintro ⟨replaced, idle⟩ i
      by_cases current : s.Current i
      · exact idle i current
      · exact replaced i current
    · exact fun empty => ⟨fun i _ => empty i, fun i _ => empty i⟩
  rw [all]
  cases isAsync with
  | false =>
    refine forall_congr' fun i => ?_
    have replaced : ¬(s.configure json false).Current i := by simp [configure, Current]
    exact ⟨fun h => h replaced, fun h _ => h⟩
  | true =>
    constructor
    · intro replaced i
      by_cases known : i < s.next
      · refine replaced i ?_
        simp only [configure, Current, if_true, Option.some.injEq]
        omega
      · exact numbered.fresh i (by omega)
    · exact fun empty i _ => empty i

theorem has_ensureConfigured : s.ensureConfigured.Has m ↔ s.Has m := by
  rw [ensureConfigured]
  split
  · rfl
  · exact has_configure

theorem replaced_ensureConfigured (numbered : s.Numbered) :
    s.ensureConfigured.Replaced ↔ s.Replaced ∧ (s.configured = true ∨ s.Idle) := by
  rw [ensureConfigured]
  cases configured : s.configured with
  | true => simp
  | false =>
    rw [if_neg Bool.false_ne_true, replaced_configure numbered]
    simp

/-- The text an event leaves in the main pipeline. -/
def spoken (fmt : Formatting V) (s : Logging V) (tokens kept : Bool) (d : EventDict V) : Option String :=
  if clashes ["method_name", "self"] d.fields then none
  else proxy fmt s.ensureConfigured.pipeline s.level tokens kept d

theorem logEvent_eq (tokens kept : Bool) (d : EventDict V) : s.logEvent fmt tokens kept d =
    match s.spoken fmt tokens kept d with
    | some text => s.ensureConfigured.msg ⟨s.calls, text⟩
    | none => s.ensureConfigured := by
  have level : s.ensureConfigured.level = s.level := by
    unfold ensureConfigured
    split
    · rfl
    · rfl
  have calls : s.ensureConfigured.calls = s.calls := by
    unfold ensureConfigured
    split
    · rfl
    · rfl
  rw [logEvent, spoken]
  simp only [level, calls]
  cases clashes ["method_name", "self"] d.fields with
  | true => rfl
  | false => rfl

theorem Numbered.logEvent (numbered : s.Numbered) (tokens kept : Bool) (d : EventDict V) :
    (s.logEvent fmt tokens kept d).Numbered := by
  rw [logEvent_eq]
  cases s.spoken fmt tokens kept d with
  | some text => exact numbered.ensureConfigured.msg _
  | none => exact numbered.ensureConfigured

theorem replaced_logEvent (numbered : s.Numbered) (tokens kept : Bool) (d : EventDict V) :
    (s.logEvent fmt tokens kept d).Replaced ↔ s.Replaced ∧ (s.configured = true ∨ s.Idle) := by
  rw [logEvent_eq, ← replaced_ensureConfigured numbered]
  cases s.spoken fmt tokens kept d with
  | some text => exact replaced_msg
  | none => rfl

theorem has_logEvent (tokens kept : Bool) (d : EventDict V) : (s.logEvent fmt tokens kept d).Has m ↔
    s.Has m ∨ m.call = s.calls ∧ s.spoken fmt tokens kept d = some m.text := by
  rw [logEvent_eq]
  cases s.spoken fmt tokens kept d with
  | some text =>
    rw [has_msg, has_ensureConfigured]
    refine or_congr Iff.rfl ⟨?_, ?_⟩
    · rintro rfl
      exact ⟨rfl, rfl⟩
    · rintro ⟨call, same⟩
      obtain ⟨_, _⟩ := m
      cases call
      cases same
      rfl
  | none =>
    rw [has_ensureConfigured]
    simp

theorem proxy_eq (p : Pipeline V) (level : String) (tokens kept : Bool) (d : EventDict V) :
    proxy fmt p level tokens kept d =
      if d.level.number < threshold level then none else proxy fmt p "debug" tokens kept d := by
  have low : ¬d.level.number < threshold "debug" := by cases d.level <;> decide
  by_cases drops : d.level.number < threshold level
  · rw [proxy, if_pos drops, if_pos drops]
  · rw [proxy, proxy, if_neg drops, if_neg drops, if_neg low]

theorem heard_iff (event : String) (fields : List (String × V)) :
    Heard fmt s event fields ↔ s.spoken fmt true true (auditEvent event fields) ≠ none := by
  have number : (auditEvent event fields).level.number = 30 := rfl
  have names : (auditEvent event fields).fields = fields := rfl
  rw [Heard, spoken, names, proxy_eq s.ensureConfigured.pipeline s.level, number]
  cases clashes ["method_name", "self"] fields with
  | true => simp
  | false =>
    by_cases drops : 30 < threshold s.level
    · have loud : ¬threshold s.level ≤ 30 := by omega
      simp [drops, loud]
    · have soft : threshold s.level ≤ 30 := by omega
      simp [drops, soft]

/-- The audit channel takes the record, or nothing happens. -/
theorem auditRecord_cases (fmt : Formatting V) (s : Logging V) (event : String) (fields : List (String × V)) :
    (∃ i text, s.auditWriter = some i ∧ Recorded fmt s event fields ∧
      s.auditRecord fmt event fields = s.put i ⟨s.calls, text⟩) ∨
    ¬Recorded fmt s event fields ∧ s.auditRecord fmt event fields = s := by
  rw [Recorded, auditRecord]
  cases writer : s.auditWriter with
  | none => exact .inr ⟨by simp, rfl⟩
  | some i =>
    cases fmt.auditJson event fields with
    | none => exact .inr ⟨by simp, rfl⟩
    | some record => exact .inl ⟨i, record, rfl, by simp, rfl⟩

end steps

theorem good_iff {s s' : Logging V} {new : List Nat} {P : Prop} (counted : s.Counted) (audits : s'.audits = s.audits ++ new)
    (replaced : s'.Replaced ↔ s.Replaced ∧ P) (has : ∀ m : Message, m.call < s.calls → (s'.Has m ↔ s.Has m)) :
    s'.Good ↔ s.Good ∧ P ∧ ∀ id ∈ new, ∃ m : Message, m.call = id ∧ s'.Has m := by
  have old : (∀ id ∈ s.audits, ∃ m : Message, m.call = id ∧ s'.Has m) ↔
      ∀ id ∈ s.audits, ∃ m : Message, m.call = id ∧ s.Has m := by
    refine forall_congr' fun id => imp_congr_right fun mem => exists_congr fun m => and_congr_right fun same => ?_
    exact has m (same ▸ counted.audits id mem)
  constructor
  · intro good
    obtain ⟨before, p⟩ := replaced.mp good.replaced
    have heard := good.audits
    rw [audits] at heard
    exact ⟨⟨before, old.mp fun id mem => heard id (List.mem_append_left _ mem)⟩, p,
      fun id mem => heard id (List.mem_append_right _ mem)⟩
  · rintro ⟨good, p, heard⟩
    refine ⟨replaced.mpr ⟨good.replaced, p⟩, ?_⟩
    rw [audits]
    intro id mem
    rcases List.mem_append.mp mem with mem | mem
    · exact old.mpr good.audits id mem
    · exact heard id mem

theorem logEvent_audits (fmt : Formatting V) (s : Logging V) (tokens kept : Bool) (d : EventDict V) :
    (s.logEvent fmt tokens kept d).audits = s.audits ∧ (s.logEvent fmt tokens kept d).calls = s.calls := by
  have configured : s.ensureConfigured.audits = s.audits ∧ s.ensureConfigured.calls = s.calls := by
    unfold ensureConfigured
    split
    · exact ⟨rfl, rfl⟩
    · exact ⟨rfl, rfl⟩
  rw [logEvent_eq]
  cases s.spoken fmt tokens kept d with
  | none => exact configured
  | some text =>
    simp only [msg]
    split
    · exact configured
    · exact configured

theorem logAudit_frame (fmt : Formatting V) {s : Logging V} (numbered : s.Numbered) (event : String)
    (fields : List (String × V)) : (s.logAudit fmt event fields).Numbered ∧
      (s.logAudit fmt event fields).audits = s.audits ∧ (s.logAudit fmt event fields).calls = s.calls := by
  have frame : (s.auditRecord fmt event fields).Numbered ∧ (s.auditRecord fmt event fields).audits = s.audits ∧
      (s.auditRecord fmt event fields).calls = s.calls := by
    rcases auditRecord_cases fmt s event fields with ⟨i, text, writer, -, put⟩ | ⟨-, same⟩
    · rw [put]
      exact ⟨numbered.put (.inr writer) _, rfl, rfl⟩
    · rw [same]
      exact ⟨numbered, rfl, rfl⟩
  simp only [logAudit]
  split
  · exact frame
  · obtain ⟨audits, calls⟩ := logEvent_audits fmt (s.auditRecord fmt event fields) true true (auditEvent event fields)
    exact ⟨frame.1.logEvent true true _, audits.trans frame.2.1, calls.trans frame.2.2⟩

/-- What `log_audit` does: to the writers it replaces, and to the messages. -/
theorem logAudit_spec (fmt : Formatting V) {s : Logging V} (counted : s.Counted) (event : String) (fields : List (String × V)) :
    ((s.logAudit fmt event fields).Replaced ↔ s.Replaced ∧
      (clashes ["level", "_audit", "channel"] fields = true ∨ s.configured = true ∨
        s.Idle ∧ ¬Recorded fmt s event fields)) ∧
    (∀ m : Message, m.call < s.calls → ((s.logAudit fmt event fields).Has m ↔ s.Has m)) ∧
    ((∃ m : Message, m.call = s.calls ∧ (s.logAudit fmt event fields).Has m) ↔
      Recorded fmt s event fields ∨ clashes ["level", "_audit", "channel"] fields = false ∧ Heard fmt s event fields) := by
  rw [heard_iff]
  have clash : (if clashes ["level", "_audit", "channel"] fields then s.auditRecord fmt event fields else
      (s.auditRecord fmt event fields).logEvent fmt true true (auditEvent event fields)) = s.logAudit fmt event fields := rfl
  rw [← clash]
  rcases auditRecord_cases fmt s event fields with ⟨i, text, writer, recorded, put⟩ | ⟨unrecorded, same⟩
  · have current : s.Current i := .inr writer
    have there : (s.put i ⟨s.calls, text⟩).Has ⟨s.calls, text⟩ := has_put.mpr (.inr rfl)
    have older (m : Message) (old : m.call < s.calls) : (s.put i ⟨s.calls, text⟩).Has m ↔ s.Has m := by
      rw [has_put, or_iff_left]
      rintro rfl
      exact absurd old (lt_irrefl _)
    rw [put]
    cases clashes ["level", "_audit", "channel"] fields with
    | true =>
      simp only [if_true, true_or, and_true]
      exact ⟨replaced_put current, older, iff_of_true ⟨_, rfl, there⟩ (.inl recorded)⟩
    | false =>
      simp only [Bool.false_eq_true, if_false, false_or]
      refine ⟨?_, ?_, iff_of_true ⟨_, rfl, (has_logEvent ..).mpr (.inl there)⟩ (.inl recorded)⟩
      · rw [replaced_logEvent (counted.toNumbered.put current _), replaced_put current]
        refine and_congr_right fun _ => or_congr Iff.rfl ?_
        exact iff_of_false (idle_put current) fun h => h.2 recorded
      · intro m old
        rw [has_logEvent, older m old, or_iff_left]
        rintro ⟨call, -⟩
        exact absurd (call ▸ old) (lt_irrefl _)
  · rw [same]
    cases clashes ["level", "_audit", "channel"] fields with
    | true =>
      simp only [if_true, true_or, and_true]
      refine ⟨trivial, fun m _ => trivial, iff_of_false ?_ (by simp [unrecorded])⟩
      rintro ⟨m, call, has⟩
      exact absurd (call ▸ counted.calls m has) (lt_irrefl _)
    | false =>
      simp only [Bool.false_eq_true, if_false, false_or, true_and]
      refine ⟨?_, ?_, ?_⟩
      · rw [replaced_logEvent counted.toNumbered]
        simp [unrecorded]
      · intro m old
        rw [has_logEvent, or_iff_left]
        rintro ⟨call, -⟩
        exact absurd (call ▸ old) (lt_irrefl _)
      · rw [or_iff_right unrecorded]
        constructor
        · rintro ⟨m, call, has⟩
          rcases (has_logEvent ..).mp has with old | ⟨-, text⟩
          · exact absurd (call ▸ counted.calls m old) (lt_irrefl _)
          · simp [text]
        · intro heard
          obtain ⟨text, spoken⟩ := Option.ne_none_iff_exists'.mp heard
          exact ⟨⟨s.calls, text⟩, rfl, (has_logEvent ..).mpr (.inr ⟨rfl, spoken⟩)⟩

/-- One call keeps everything exactly when it meets its condition. -/
theorem good_step_iff {s : Logging V} (counted : s.Counted) (c : Call V) :
    (s.step fmt c).Good ↔ s.Good ∧ s.Keeps fmt c := by
  cases c with
  | setLogLevel level => exact ⟨fun good => ⟨⟨good.replaced, good.audits⟩, trivial⟩, fun h => ⟨h.1.replaced, h.1.audits⟩⟩
  | addProcessor fn => exact ⟨fun good => ⟨⟨good.replaced, good.audits⟩, trivial⟩, fun h => ⟨h.1.replaced, h.1.audits⟩⟩
  | configure json isAsync =>
    have audits : (s.configure json isAsync).audits = s.audits ++ [] := by cases isAsync <;> simp [configure]
    have same := good_iff counted audits (replaced_configure counted.toNumbered json isAsync) fun m _ => has_configure
    rw [and_iff_left (List.forall_mem_nil _)] at same
    exact same
  | logEvent event level fields tokens kept =>
    let d : EventDict V :=
      ⟨event, Method.ofLevel level, fields.any fun f => f.1 == "_audit" && fmt.truthy f.2, none, fields⟩
    have audits : (s.step fmt (.logEvent event level fields tokens kept)).audits = s.audits ++ [] := by
      rw [List.append_nil]
      exact (logEvent_audits fmt s tokens kept d).1
    have replaced : (s.step fmt (.logEvent event level fields tokens kept)).Replaced ↔
        s.Replaced ∧ (s.configured = true ∨ s.Idle) := replaced_logEvent counted.toNumbered tokens kept d
    have has (m : Message) (old : m.call < s.calls) :
        (s.step fmt (.logEvent event level fields tokens kept)).Has m ↔ s.Has m := by
      refine (has_logEvent tokens kept d).trans (or_iff_left ?_)
      rintro ⟨call, -⟩
      exact absurd (call ▸ old) (lt_irrefl _)
    have same := good_iff counted audits replaced has
    rw [and_iff_left (List.forall_mem_nil _)] at same
    exact same
  | logAudit event fields =>
    obtain ⟨replaced, has, heard⟩ := logAudit_spec fmt counted event fields
    obtain ⟨-, kept, calls⟩ := logAudit_frame fmt counted.toNumbered event fields
    have audits : (s.step fmt (.logAudit event fields)).audits = s.audits ++ [s.calls] := by
      rw [← kept, ← calls]
      rfl
    have same := good_iff counted audits replaced has
    rw [List.forall_mem_singleton] at same
    have both := same.trans (and_congr_right fun _ => and_congr_right fun _ => heard)
    exact both.trans (and_congr_right fun _ => and_comm)

theorem has_logAudit {s : Logging V} {m : Message} (event : String) (fields : List (String × V))
    (has : (s.logAudit fmt event fields).Has m) : s.Has m ∨ m.call = s.calls := by
  have recorded (h : (s.auditRecord fmt event fields).Has m) : s.Has m ∨ m.call = s.calls := by
    rcases auditRecord_cases fmt s event fields with ⟨i, text, -, -, put⟩ | ⟨-, same⟩
    · rw [put, has_put] at h
      refine h.imp_right ?_
      rintro rfl
      rfl
    · exact .inl (same ▸ h)
  have calls : (s.auditRecord fmt event fields).calls = s.calls := by
    rcases auditRecord_cases fmt s event fields with ⟨i, text, -, -, put⟩ | ⟨-, same⟩
    · rw [put]
      rfl
    · rw [same]
  simp only [logAudit] at has
  split at has
  · exact recorded has
  · rcases (has_logEvent ..).mp has with old | ⟨call, -⟩
    · exact recorded old
    · exact .inr (call.trans calls)

theorem Counted.step {s : Logging V} (counted : s.Counted) (c : Call V) : (s.step fmt c).Counted := by
  cases c with
  | setLogLevel level => exact ⟨⟨counted.fresh, counted.current⟩, counted.calls, counted.audits⟩
  | addProcessor fn => exact ⟨⟨counted.fresh, counted.current⟩, counted.calls, counted.audits⟩
  | configure json isAsync =>
    refine ⟨counted.toNumbered.configure json isAsync, fun m has => ?_, fun id mem => ?_⟩
    · have calls : (s.configure json isAsync).calls = s.calls := by cases isAsync <;> rfl
      exact calls.symm ▸ counted.calls m (has_configure.mp has)
    · cases isAsync with
      | false => exact counted.audits id mem
      | true => exact counted.audits id mem
  | logEvent event level fields tokens kept =>
    let d : EventDict V :=
      ⟨event, Method.ofLevel level, fields.any fun f => f.1 == "_audit" && fmt.truthy f.2, none, fields⟩
    obtain ⟨audits, calls⟩ := logEvent_audits fmt s tokens kept d
    have numbered : (s.logEvent fmt tokens kept d).Numbered := counted.toNumbered.logEvent tokens kept d
    have next : (s.step fmt (.logEvent event level fields tokens kept)).calls = s.calls + 1 := congrArg (· + 1) calls
    refine ⟨⟨numbered.fresh, numbered.current⟩, fun m has => ?_, fun id mem => ?_⟩
    · rcases (has_logEvent tokens kept d).mp has with old | ⟨call, -⟩
      · have := counted.calls m old
        omega
      · omega
    · have := counted.audits id (audits ▸ mem)
      omega
  | logAudit event fields =>
    obtain ⟨numbered, audits, calls⟩ := logAudit_frame fmt counted.toNumbered event fields
    have next : (s.step fmt (.logAudit event fields)).calls = s.calls + 1 := congrArg (· + 1) calls
    refine ⟨⟨numbered.fresh, numbered.current⟩, fun m has => ?_, fun id mem => ?_⟩
    · rcases has_logAudit event fields has with old | call
      · have := counted.calls m old
        omega
      · omega
    · have all : (s.step fmt (.logAudit event fields)).audits = s.audits ++ [s.calls] := by
        rw [← audits, ← calls]
        rfl
      rw [all] at mem
      rcases List.mem_append.mp mem with old | new
      · have := counted.audits id old
        omega
      · rw [List.mem_singleton] at new
        omega

theorem counted_after (calls : List (Call V)) : (after fmt calls).Counted := by
  induction calls using List.reverseRecOn with
  | nil =>
    have silent (m : Message) : ¬(after fmt []).Has m := by simp [after, Has]
    have none (i : Nat) : ¬(after fmt []).Current i := by simp [after, Current]
    exact ⟨⟨fun _ _ => rfl, fun i h => absurd h (none i)⟩, fun m h => absurd h (silent m), fun id h => nomatch h⟩
  | append_singleton calls c ih =>
    rw [after, List.foldl_append]
    exact ih.step c

theorem good_after_iff (calls : List (Call V)) :
    (after fmt calls).Good ↔ ∀ before c rest, calls = before ++ c :: rest → (after fmt before).Keeps fmt c := by
  induction calls using List.reverseRecOn with
  | nil =>
    refine iff_of_true ⟨fun i _ => rfl, fun id h => nomatch h⟩ fun before c rest h => ?_
    simp at h
  | append_singleton calls c ih =>
    have step : after fmt (calls ++ [c]) = (after fmt calls).step fmt c := by
      rw [after, List.foldl_append]
      rfl
    rw [step, good_step_iff (counted_after calls), ih]
    constructor
    · rintro ⟨earlier, last⟩ before c' rest split
      rcases List.eq_nil_or_concat rest with rfl | ⟨rest', c'', rfl⟩
      · obtain ⟨rfl, same⟩ := List.append_inj' split rfl
        cases same
        exact last
      · rw [List.concat_eq_append, ← List.cons_append, ← List.append_assoc] at split
        exact earlier before c' rest' (List.append_inj' split rfl).1
    · intro all
      refine ⟨fun before c' rest split => ?_, all calls c [] rfl⟩
      exact all before c' (rest ++ [c]) (by rw [split, List.append_assoc, List.cons_append])

end Logging

namespace Process

/-- The calls of a run of the process. -/
def calls (events : List (Event V)) : List (Call V) :=
  events.filterMap fun
    | .call c => some c
    | .write _ => none

/-- The threads do not change what the calls do. -/
theorem run_logging (events : List (Event V)) : (run fmt events).logging = Logging.after fmt (calls events) := by
  induction events using List.reverseRecOn with
  | nil => rfl
  | append_singleton events e ih =>
    rw [run, List.foldl_append, calls, List.filterMap_append, Logging.after, List.foldl_append]
    cases e with
    | call c => exact congrArg (Logging.step fmt · c) ih
    | write i => exact ih

theorem output_shutdown {p : Process V} {i : Nat} (current : p.logging.Current i) :
    p.shutdown.output i = p.logging.accepted i := by
  have written : p.shutdown.written i = (p.logging.accepted i).length := if_pos current
  rw [output, written]
  exact List.take_length ..

theorem delivered_of_good {p : Process V} (good : p.logging.Good) : p.shutdown.Delivered := by
  constructor
  · intro id mem
    obtain ⟨m, call, has⟩ := good.audits id mem
    refine ⟨m, call, has.imp_right ?_⟩
    rintro ⟨i, accepted⟩
    refine ⟨i, ?_⟩
    rw [output_shutdown]
    · exact accepted
    · by_contra replaced
      rw [good.replaced i replaced] at accepted
      cases accepted
  · intro i main audit
    have empty := good.replaced i fun current => current.elim main audit
    have same : p.shutdown.logging.accepted i = [] := empty
    rw [output, same, List.take_nil]

theorem calls_map (cs : List (Call V)) : calls (cs.map Event.call) = cs := by
  induction cs with
  | nil => rfl
  | cons c cs ih => exact congrArg (c :: ·) ih

theorem run_map_written (cs : List (Call V)) : (run fmt (cs.map Event.call)).written = fun _ => 0 := by
  induction cs using List.reverseRecOn with
  | nil => rfl
  | append_singleton cs c ih =>
    rw [run, List.map_append, List.foldl_append]
    exact ih

theorem good_of_delivered {cs : List (Call V)} (delivered : (run fmt (cs.map Event.call)).shutdown.Delivered) :
    (Logging.after fmt cs).Good := by
  have logging : (run fmt (cs.map Event.call)).logging = Logging.after fmt cs := by rw [run_logging, calls_map]
  rw [← logging]
  constructor
  · intro i replaced
    have written : (run fmt (cs.map Event.call)).shutdown.written i = 0 := by
      rw [shutdown, run_map_written]
      exact if_neg replaced
    have all := delivered.replaced i (fun main => replaced (.inl main)) fun audit => replaced (.inr audit)
    rw [output, written, List.take_zero] at all
    exact all.symm
  · intro id mem
    obtain ⟨m, call, heard⟩ := delivered.audits id mem
    refine ⟨m, call, heard.imp_right ?_⟩
    rintro ⟨i, out⟩
    exact ⟨i, List.mem_of_mem_take out⟩

end Process

/-- Whatever the threads do, every audit event and everything a replaced writer has accepted is written exactly when
each call meets its condition in the state it finds. -/
theorem delivered_iff (fmt : Formatting V) (calls : List (Call V)) :
    (∀ events, Process.calls events = calls → (Process.run fmt events).shutdown.Delivered) ↔
      ∀ before c rest, calls = before ++ c :: rest → (Logging.after fmt before).Keeps fmt c := by
  rw [← Logging.good_after_iff]
  constructor
  · intro all
    exact Process.good_of_delivered (all _ (Process.calls_map calls))
  · rintro good events rfl
    exact Process.delivered_of_good (Process.run_logging events ▸ good)

/-- Values that are numbers, and texts that are the names of the events. -/
def plain : Formatting Nat where
  truthy n := n ≠ 0
  envelope d := d
  auditJson event _ := some event
  render _ d := some d.event

/-- A level above that of warnings, set before anything is configured. -/
def quietLogin : List (Call Nat) := [.setLogLevel "error", .logAudit "login" []]

/-- The audit event is lost: there is no audit writer yet, and the main pipeline drops it. -/
theorem not_delivered_quietLogin :
    ¬∀ events, Process.calls events = quietLogin → (Process.run plain events).shutdown.Delivered := by
  intro all
  have delivered := all (quietLogin.map Event.call) (Process.calls_map quietLogin)
  have mem : 0 ∈ (Process.run plain (quietLogin.map Event.call)).shutdown.logging.audits := by decide
  obtain ⟨m, -, printed | ⟨i, out⟩⟩ := delivered.audits 0 mem
  · have none : (Process.run plain (quietLogin.map Event.call)).shutdown.logging.printed = [] := by decide
    rw [none] at printed
    cases printed
  · have empty : (Process.run plain (quietLogin.map Event.call)).shutdown.logging.accepted = fun _ => [] := rfl
    rw [Process.output, empty, List.take_nil] at out
    cases out

end H2kvm.Core.StructuredLog
