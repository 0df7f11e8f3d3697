import H2kvm.Vmware.Download

namespace H2kvm.Vmware

section Stream

variable {content : Option (List UInt8)} {expectPartial : Bool} {a : Answer}

theorem writeChunks_fst (written : List UInt8) (downloaded : Nat) (chunks : List (List UInt8)) :
    (writeChunks written downloaded chunks).1 = written ++ chunks.flatten := by
  induction chunks generalizing written downloaded with
  | nil => simp [writeChunks]
  | cons chunk chunks ih =>
    unfold writeChunks
    split
    next empty => rw [ih, empty, List.flatten_cons, List.nil_append]
    · rw [ih, List.flatten_cons, List.append_assoc]

theorem downloadToPath_refused (refused : a.accepted = false) :
    downloadToPath expectPartial content a = ⟨content, none⟩ := by
  cases a with
  | unreachable => rfl
  | response status chunks breaks =>
    have : (400 ≤ status && status < 600) = true := by simpa [Answer.accepted] using refused
    simp only [downloadToPath, this, if_true]

theorem downloadToPath_unhonoured (accepted : a.accepted = true) (other : a.status ≠ 206) :
    downloadToPath true content a = ⟨content, some (0, a.status)⟩ := by
  cases a with
  | unreachable => cases accepted
  | response status chunks breaks =>
    have passes : (400 ≤ status && status < 600) = false := by simpa only [Answer.accepted, Bool.not_eq_true'] using accepted
    have unhonoured : (status != 206) = true := bne_iff_ne.mpr other
    simp only [downloadToPath, passes, unhonoured, Bool.and_self, if_true, Bool.false_eq_true, if_false, Answer.status]

theorem downloadToPath_streamed (content : Option (List UInt8)) (accepted : a.accepted = true) (honoured : expectPartial = true → a.status = 206) :
    ∃ n, downloadToPath expectPartial content a =
      ⟨some (content.getD [] ++ a.delivered), if a.breaks then none else some (n, a.status)⟩ := by
  cases a with
  | unreachable => cases accepted
  | response status chunks breaks =>
    have passes : (400 ≤ status && status < 600) = false := by simpa only [Answer.accepted, Bool.not_eq_true'] using accepted
    have streams : (expectPartial && status != 206) = false := by
      cases expectPartial with
      | false => rfl
      | true =>
        have : status = 206 := honoured rfl
        rw [this]
        rfl
    have all : (Answer.response status chunks breaks).delivered = chunks.flatten := if_pos accepted
    refine ⟨(writeChunks (content.getD []) 0 chunks).2, ?_⟩
    rw [all, ← writeChunks_fst _ 0]
    simp only [downloadToPath, passes, streams, Bool.false_eq_true, if_false, Answer.status, Answer.breaks]
    rfl

end Stream

section Attempts

variable {offset : Nat} {isAtomic : Bool} {localFile : Option (List UInt8)} {pre : List Answer} {a : Answer} {t : Transfer}

/-- What is carried to the attempt after `pre`, from a file that has `offset` bytes if it is to be resumed. -/
structure Carried (offset : Nat) (isAtomic : Bool) (localFile : Option (List UInt8)) (pre : List Answer) (t : Transfer) :
    Prop where
  startByte : t.startByte = if Resuming offset pre then offset else 0
  range : t.range = decide (Resuming offset pre)
  tempFile : t.tempFile = none
  untouched : isAtomic = true → t.localFile = localFile
  appended : isAtomic = false → Resuming offset pre →
    t.localFile = some (localFile.getD [] ++ pre.flatMap (·.delivered))

theorem resuming_concat : Resuming offset (pre ++ [a]) ↔ Resuming offset pre ∧ (a.accepted = true → a.status = 206) := by
  unfold Resuming
  rw [List.forall_mem_append, List.forall_mem_singleton, and_assoc]

theorem Carried.startByte_ne (h : Carried offset isAtomic localFile pre t) (resumes : Resuming offset pre) :
    t.startByte ≠ 0 := by
  rw [h.startByte, if_pos resumes]
  exact Nat.pos_iff_ne_zero.mp resumes.1

/-- The content an attempt starts from. -/
def seed (offset : Nat) (isAtomic : Bool) (localFile : Option (List UInt8)) (pre : List Answer) : List UInt8 :=
  if Resuming offset pre then localFile.getD [] ++ if isAtomic then [] else pre.flatMap (·.delivered) else []

@[simp] theorem openTarget_range : (t.openTarget isAtomic).range = t.range := by
  unfold Transfer.openTarget
  split
  · split <;> rfl
  · split <;> rfl

@[simp] theorem openTarget_startByte : (t.openTarget isAtomic).startByte = t.startByte := by
  unfold Transfer.openTarget
  split
  · split <;> rfl
  · split <;> rfl

theorem openTarget_atomic : (t.openTarget true).localFile = t.localFile := by
  unfold Transfer.openTarget
  rw [if_pos rfl]
  split
  next same => exact same.symm ▸ rfl
  next same => exact same.symm ▸ rfl

theorem openTarget_resuming (resumes : t.startByte ≠ 0) : t.openTarget false = t := by
  unfold Transfer.openTarget
  rw [if_neg (by decide), if_neg resumes]

theorem Carried.target (h : Carried offset isAtomic localFile pre t)
    (size : (localFile.getD []).length = offset ∨ offset = 0) :
    ((t.openTarget isAtomic).target isAtomic).getD [] = seed offset isAtomic localFile pre := by
  unfold seed
  by_cases resumes : Resuming offset pre
  · rw [if_pos resumes]
    have start : t.startByte = offset := h.startByte.trans (if_pos resumes)
    have whole := size.resolve_right (Nat.pos_iff_ne_zero.mp resumes.1)
    cases isAtomic with
    | true =>
      unfold Transfer.openTarget
      rw [if_pos rfl, h.untouched rfl]
      cases localFile with
      | none =>
        rw [← whole] at resumes
        exact absurd resumes.1 (by decide)
      | some content =>
        show (if 0 < t.startByte then content.take t.startByte else []) = content ++ []
        have whole : content.length = offset := whole
        rw [start, if_pos resumes.1, ← whole, List.take_length, List.append_nil]
    | false =>
      rw [openTarget_resuming (h.startByte_ne resumes)]
      show t.localFile.getD [] = _
      rw [h.appended rfl resumes]
      rfl
  · rw [if_neg resumes]
    have start : t.startByte = 0 := h.startByte.trans (if_neg resumes)
    unfold Transfer.openTarget
    cases isAtomic with
    | true =>
      rw [if_pos rfl, start]
      cases t.localFile <;> rfl
    | false =>
      rw [if_neg (by decide), if_pos start]
      rfl

@[simp] theorem setTarget_range {content : Option (List UInt8)} : (t.setTarget isAtomic content).range = t.range := by
  cases isAtomic <;> rfl

@[simp] theorem setTarget_startByte {content : Option (List UInt8)} :
    (t.setTarget isAtomic content).startByte = t.startByte := by
  cases isAtomic <;> rfl

theorem attempt_refused (refused : a.accepted = false) :
    t.attempt isAtomic a = ({ t.openTarget isAtomic with tempFile := none }, false) := by
  unfold Transfer.attempt
  dsimp only
  rw [downloadToPath_refused refused]
  cases isAtomic <;> rfl

theorem attempt_unhonoured (accepted : a.accepted = true) (range : t.range = true) (other : a.status ≠ 206) :
    t.attempt isAtomic a =
      ({ t.openTarget isAtomic with tempFile := none, range := false, startByte := 0 }, false) := by
  unfold Transfer.attempt
  dsimp only
  rw [openTarget_range, range, downloadToPath_unhonoured accepted other]
  dsimp only
  rw [setTarget_range, openTarget_range, range, bne_iff_ne.mpr other]
  cases isAtomic <;> rfl

theorem attempt_streamed (accepted : a.accepted = true) (honoured : t.range = true → a.status = 206) :
    t.attempt isAtomic a =
      let content := ((t.openTarget isAtomic).target isAtomic).getD [] ++ a.delivered
      let written := (t.openTarget isAtomic).setTarget isAtomic (some content)
      if a.breaks then ({ written with tempFile := none }, false)
      else ({ written with localFile := some content, tempFile := if isAtomic then none else written.tempFile }, true) := by
  unfold Transfer.attempt
  dsimp only
  have asked : (t.openTarget isAtomic).range = true → a.status = 206 := by rwa [openTarget_range]
  obtain ⟨n, streamed⟩ := downloadToPath_streamed ((t.openTarget isAtomic).target isAtomic) accepted asked
  rw [streamed]
  cases breaks : a.breaks with
  | true => rfl
  | false =>
    have settled : ∀ content,
        (((t.openTarget isAtomic).setTarget isAtomic content).range && a.status != 206) = false := by
      intro content
      rw [setTarget_range, openTarget_range]
      cases range : t.range with
      | false => rfl
      | true => simpa using honoured range
    simp only [Bool.false_eq_true, if_false, settled]
    cases isAtomic <;> rfl

/-- The attempt that ends the download leaves its content in the file. -/
theorem Carried.ends (h : Carried offset isAtomic localFile pre t)
    (size : (localFile.getD []).length = offset ∨ offset = 0) (last : Ends offset pre a) :
    (t.attempt isAtomic a).2 = true ∧
      (t.attempt isAtomic a).1.localFile = some (seed offset isAtomic localFile pre ++ a.delivered) := by
  obtain ⟨accepted, whole, honoured⟩ := last
  have asked : t.range = true → a.status = 206 := by
    rw [h.range, decide_eq_true_eq]
    exact honoured
  rw [attempt_streamed accepted asked, whole, ← h.target size]
  exact ⟨rfl, rfl⟩

/-- Every other attempt fails, and what it leaves is carried on. -/
theorem Carried.fails (h : Carried offset isAtomic localFile pre t)
    (size : (localFile.getD []).length = offset ∨ offset = 0) (other : ¬ Ends offset pre a) :
    (t.attempt isAtomic a).2 = false ∧ Carried offset isAtomic localFile (pre ++ [a]) (t.attempt isAtomic a).1 := by
  cases accepted : a.accepted with
  | false =>
    have same : Resuming offset (pre ++ [a]) ↔ Resuming offset pre := by
      rw [resuming_concat, accepted]
      exact and_iff_left nofun
    have nothing : a.delivered = [] := if_neg (by rw [accepted]; decide)
    rw [attempt_refused accepted]
    refine ⟨rfl, ?_, ?_, rfl, ?_, ?_⟩
    · simp only [openTarget_startByte, same, h.startByte]
    · simp only [openTarget_range, same, h.range]
    · intro temporary
      subst temporary
      exact openTarget_atomic.trans (h.untouched rfl)
    · intro direct resumes
      subst direct
      rw [same] at resumes
      rw [openTarget_resuming (h.startByte_ne resumes), List.flatMap_append, List.flatMap_singleton, nothing, List.append_nil]
      exact h.appended rfl resumes
  | true =>
    by_cases honoured : Resuming offset pre → a.status = 206
    · -- the stream has broken
      have breaks : a.breaks = true := by
        by_contra whole
        exact other ⟨accepted, Bool.not_eq_true _ ▸ whole, honoured⟩
      have same : Resuming offset (pre ++ [a]) ↔ Resuming offset pre := by
        rw [resuming_concat]
        exact and_iff_left_of_imp fun resumes _ => honoured resumes
      have asked : t.range = true → a.status = 206 := by
        rw [h.range, decide_eq_true_eq]
        exact honoured
      rw [attempt_streamed accepted asked, breaks, h.target size]
      refine ⟨rfl, ?_, ?_, rfl, ?_, ?_⟩
      · simp only [if_true, setTarget_startByte, openTarget_startByte, same, h.startByte]
      · simp only [if_true, setTarget_range, openTarget_range, same, h.range]
      · intro temporary
        subst temporary
        exact openTarget_atomic.trans (h.untouched rfl)
      · intro direct resumes
        subst direct
        rw [same] at resumes
        show some (seed offset false localFile pre ++ a.delivered) = _
        rw [seed, if_pos resumes, List.flatMap_append, List.flatMap_singleton, List.append_assoc]
        rfl
    · obtain ⟨resumes, unhonoured⟩ := Classical.not_imp.mp honoured
      have stops : ¬ Resuming offset (pre ++ [a]) := by
        rw [resuming_concat]
        exact fun ⟨_, still⟩ => unhonoured (still accepted)
      have asked : t.range = true := h.range.trans (decide_eq_true resumes)
      rw [attempt_unhonoured accepted asked unhonoured]
      refine ⟨rfl, ?_, ?_, rfl, ?_, fun _ still => absurd still stops⟩
      · rw [if_neg stops]
      · rw [decide_eq_false stops]
      · intro temporary
        subst temporary
        exact openTarget_atomic.trans (h.untouched rfl)

/-- The answers after `pre` that end the download deliver what the file lacks. -/
def CompleteFrom (offset : Nat) (isAtomic : Bool) (localFile : Option (List UInt8)) (R : List UInt8) (pre answers : List Answer) :
    Prop :=
  ∀ mid a, mid ++ [a] <+: answers → Ends offset (pre ++ mid) a →
    (∀ m b, m ++ [b] <+: mid → ¬ Ends offset (pre ++ m) b) →
      seed offset isAtomic localFile (pre ++ mid) ++ a.delivered = R

theorem completeFrom_ends {R : List UInt8} {answers : List Answer} (last : Ends offset pre a) :
    CompleteFrom offset isAtomic localFile R pre (a :: answers) ↔ seed offset isAtomic localFile pre ++ a.delivered = R := by
  constructor
  · intro complete
    have := complete [] a (List.prefix_append [a] answers) (by rwa [List.append_nil])
      fun m b before => absurd (List.prefix_nil.mp before) (by simp)
    rwa [List.append_nil] at this
  · intro whole mid b reached _ first
    cases mid with
    | nil =>
      obtain ⟨rfl, -⟩ := List.cons_prefix_cons.mp reached
      rwa [List.append_nil]
    | cons c mid =>
      obtain ⟨rfl, -⟩ := List.cons_prefix_cons.mp reached
      exact absurd (by rwa [List.append_nil]) (first [] c (List.prefix_append [c] mid))

theorem completeFrom_fails {R : List UInt8} {answers : List Answer} (other : ¬ Ends offset pre a) :
    CompleteFrom offset isAtomic localFile R pre (a :: answers) ↔
      CompleteFrom offset isAtomic localFile R (pre ++ [a]) answers := by
  constructor
  · intro complete mid b reached last first
    rw [List.append_assoc] at last ⊢
    refine complete (a :: mid) b (List.cons_prefix_cons.mpr ⟨rfl, reached⟩) last fun m c before => ?_
    cases m with
    | nil =>
      obtain ⟨rfl, -⟩ := List.cons_prefix_cons.mp before
      rwa [List.append_nil]
    | cons d m =>
      obtain ⟨rfl, within⟩ := List.cons_prefix_cons.mp before
      have := first m c within
      rwa [List.append_assoc] at this
  · intro complete mid b reached last first
    cases mid with
    | nil =>
      obtain ⟨rfl, -⟩ := List.cons_prefix_cons.mp reached
      rw [List.append_nil] at last
      exact absurd last other
    | cons c mid =>
      obtain ⟨rfl, later⟩ := List.cons_prefix_cons.mp reached
      have := complete mid b later (by rwa [List.append_assoc]) fun m d before => by
        rw [List.append_assoc]
        exact first (c :: m) d (List.cons_prefix_cons.mpr ⟨rfl, before⟩)
      rwa [List.append_assoc] at this

theorem attempts_ends {answers : List Answer} (returns : (t.attempt isAtomic a).2 = true) :
    t.attempts isAtomic (a :: answers) = t.attempt isAtomic a := by
  unfold Transfer.attempts
  split
  next done eq => exact eq.symm
  next failed eq => rw [eq] at returns; cases returns

theorem attempts_fails {answers : List Answer} (raises : (t.attempt isAtomic a).2 = false) :
    t.attempts isAtomic (a :: answers) = (t.attempt isAtomic a).1.attempts isAtomic answers := by
  rw [Transfer.attempts]
  split
  next done eq => rw [eq] at raises; cases raises
  next failed eq => rw [eq]

theorem Carried.returned_iff {R : List UInt8} {answers : List Answer} (h : Carried offset isAtomic localFile pre t)
    (size : (localFile.getD []).length = offset ∨ offset = 0) :
    ((t.attempts isAtomic answers).2 = true → (t.attempts isAtomic answers).1.localFile = some R) ↔
      CompleteFrom offset isAtomic localFile R pre answers := by
  induction answers generalizing pre t with
  | nil =>
    refine iff_of_true nofun fun mid a reached => ?_
    exact absurd (List.prefix_nil.mp reached) (by simp)
  | cons a answers ih =>
    by_cases last : Ends offset pre a
    · obtain ⟨returns, content⟩ := h.ends size last
      rw [completeFrom_ends last, attempts_ends returns, content, returns]
      simp
    · obtain ⟨raises, carried⟩ := h.fails size last
      rw [completeFrom_fails last, attempts_fails raises]
      exact ih carried

theorem Carried.raised {answers : List Answer} (h : Carried offset true localFile pre t)
    (size : (localFile.getD []).length = offset ∨ offset = 0) (raises : (t.attempts true answers).2 = false) :
    (t.attempts true answers).1.localFile = localFile ∧ (t.attempts true answers).1.tempFile = none := by
  induction answers generalizing pre t with
  | nil => exact ⟨h.untouched rfl, h.tempFile⟩
  | cons a answers ih =>
    by_cases last : Ends offset pre a
    · obtain ⟨returns, -⟩ := h.ends size last
      rw [attempts_ends returns, returns] at raises
      cases raises
    · obtain ⟨failed, carried⟩ := h.fails size last
      rw [attempts_fails failed] at raises ⊢
      exact ih carried raises

end Attempts

section Download

variable {opt : HTTPDownloadOptions} {R : List UInt8} {known : Bool} {localFile : Option (List UInt8)}

theorem resumeOffset_size (resume : Bool) (remoteSize : Option Nat) (localFile : Option (List UInt8)) :
    (localFile.getD []).length = resumeOffset resume remoteSize localFile ∨
      resumeOffset resume remoteSize localFile = 0 := by
  unfold resumeOffset
  split
  · split
    · exact .inl rfl
    · exact .inr rfl
  · exact .inr rfl

theorem carried_initial {offset : Nat} (isAtomic : Bool) (size : (localFile.getD []).length = offset ∨ offset = 0) :
    Carried offset isAtomic localFile [] ⟨offset, 0 < offset, localFile, none⟩ := by
  have resuming : Resuming offset [] ↔ 0 < offset := and_iff_left fun _ member => absurd member List.not_mem_nil
  refine ⟨?_, ?_, rfl, fun _ => rfl, fun _ resumes => ?_⟩
  · split
    · rfl
    next stops => exact Nat.eq_zero_of_not_pos (resuming.not.mp stops)
  · simp only [resuming]
  · have whole := size.resolve_right (Nat.pos_iff_ne_zero.mp resumes.1)
    cases localFile with
    | none =>
      rw [← whole] at resumes
      exact absurd resumes.1 (by decide)
    | some content => simp

theorem completeFrom_nil {offset : Nat} {isAtomic : Bool} {answers : List Answer}
    (size : (localFile.getD []).length = offset ∨ offset = 0) (part : localFile.getD [] <+: R) :
    CompleteFrom offset isAtomic localFile R [] answers ↔ Complete offset isAtomic R answers := by
  unfold CompleteFrom Complete
  simp only [List.nil_append]
  refine forall₅_congr fun before a _ _ _ => ?_
  unfold seed
  split
  next resumes =>
    have whole := size.resolve_right (Nat.pos_iff_ne_zero.mp resumes.1)
    obtain ⟨rest, rfl⟩ := part
    rw [List.append_assoc, List.append_right_inj, List.drop_left' whole]
  · rw [List.nil_append]

theorem eq_of_alreadyComplete {resume : Bool} (part : localFile.getD [] <+: R)
    (already : alreadyComplete resume (getFileSize R known) localFile = true) : localFile = some R := by
  cases localFile with
  | none => cases already
  | some content =>
    cases known with
    | false => cases already
    | true =>
      have same : content.length = R.length := by
        have := (Bool.and_eq_true _ _ ▸ already : _ ∧ _).2
        exact beq_iff_eq.mp this
      exact congrArg some (part.eq_of_length same)

/-- A download is byte-exact if and only if the answer that ends it delivers what is missing, together with what earlier
answers have appended when there is no temporary file. -/
theorem byteExact_iff (server : Nat → Answer) (part : localFile.getD [] <+: R) :
    ByteExact opt R localFile (downloadFile opt (getFileSize R known) localFile server) ↔
      alreadyComplete opt.resumeDownload (getFileSize R known) localFile = true ∨
        Complete (resumeOffset opt.resumeDownload (getFileSize R known) localFile) opt.isAtomic R
          ((List.range (opt.retries + 1)).map server) := by
  unfold downloadFile
  cases already : alreadyComplete opt.resumeDownload (getFileSize R known) localFile with
  | true => exact iff_of_true ⟨fun _ => eq_of_alreadyComplete part already, nofun⟩ (.inl rfl)
  | false =>
    have size := resumeOffset_size opt.resumeDownload (getFileSize R known) localFile
    have start := carried_initial opt.isAtomic size
    simp only [Bool.false_eq_true, if_false, false_or]
    rw [← completeFrom_nil size part, ← start.returned_iff size]
    constructor
    · exact fun exact => exact.returned
    · intro returned
      refine ⟨returned, fun raises temporary => ?_⟩
      rw [temporary] at start raises ⊢
      exact start.raised size raises

theorem byteExact_retried :
    ByteExact { retries := 1 } [1, 2, 3] (some [1])
      (downloadFile { retries := 1 } (getFileSize [1, 2, 3] true) (some [1]) fun n =>
        if n = 0 then .response 206 [[2]] true else .response 206 [[2], [], [3]] false) := by
  have part : (some [1] : Option (List UInt8)).getD [] <+: [1, 2, 3] := by decide
  have complete : Complete 1 true [1, 2, 3] [.response 206 [[2]] true, .response 206 [[2], [], [3]] false] := by
    refine (completeFrom_nil (.inl rfl) part).mp ((completeFrom_fails (by decide)).mpr ?_)
    exact (completeFrom_ends (by decide)).mpr (by decide)
  refine (byteExact_iff _ part).mpr (.inr ?_)
  exact complete

/-- A stream that ends early is taken for the whole file, and without a temporary file a retry appends again what was
appended before. -/
theorem not_byteExact_early :
    (Serves [1, 2] true 0 (fun _ => .response 200 [[1]] false) ∧
      ¬ ByteExact {} [1, 2] none (downloadFile {} (some 2) none fun _ => .response 200 [[1]] false)) ∧
    (Serves [1, 2, 3] true 1 (fun n => if n = 0 then .response 206 [[2]] true else .response 206 [[2, 3]] false) ∧
      ¬ ByteExact { retries := 1, isAtomic := false } [1, 2, 3] (some [1])
        (downloadFile { retries := 1, isAtomic := false } (some 3) (some [1]) fun n =>
          if n = 0 then .response 206 [[2]] true else .response 206 [[2, 3]] false)) := by
  refine ⟨⟨fun n _ => ?_, fun exact => ?_⟩, fun n _ => ?_, fun exact => ?_⟩
  · refine ⟨.inl rfl, ?_, nofun⟩
    rw [if_neg (by simp [Answer.status])]
    show [1] <+: [1, 2]
    decide
  · exact absurd (exact.returned rfl) (by decide)
  · have resumes : Resuming 1 ((List.range n).map fun n =>
        if n = 0 then .response 206 [[2]] true else .response 206 [[2, 3]] false) := by
      refine ⟨by decide, fun b member _ => ?_⟩
      obtain ⟨m, -, rfl⟩ := List.mem_map.mp member
      split <;> rfl
    by_cases first : n = 0
    · subst first
      exact ⟨.inr rfl, by decide, nofun⟩
    · simp only [if_neg first]
      refine ⟨.inr rfl, ?_, nofun⟩
      rw [if_pos ⟨rfl, resumes⟩]
      decide
  · exact absurd (exact.returned rfl) (by decide)

end Download

end H2kvm.Vmware
