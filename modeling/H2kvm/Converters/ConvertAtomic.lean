import Mathlib.Data.List.Infix
import Mathlib.Data.List.Nodup

namespace H2kvm.Converters.Convert

/-- qemu-img convert tuning knobs. -/
structure ConvertOptions where
  cacheMode : String := "none"
  threads : Option Int := none
  compressionType : Option String := some "zstd"
  compressionLevel : Option Int := none
  preallocation : Option String := none
  deriving DecidableEq

/-- The options that use no optional feature. -/
def ConvertOptions.minimal : ConvertOptions := ⟨"", none, none, none, none⟩

section plan

/-- Options that were given out before are not given again. -/
def emit (ordered : List ConvertOptions) (opt : ConvertOptions) : List ConvertOptions :=
  if opt ∈ ordered then ordered else ordered ++ [opt]

/-- The options that `_fallback_plan` emits, in order. -/
def emitted (base : ConvertOptions) (outFormat : String) (compress : Bool) : List ConvertOptions :=
  let compressed := outFormat = "qcow2" ∧ compress = true
  [base] ++
  (if base.threads.any (· ≠ 0) then [{ base with threads := none }] else []) ++
  (if compressed then
    (if base.compressionType = some "zstd" then [{ base with threads := none, compressionType := some "zlib" }] else []) ++
    [{ base with threads := none, compressionType := none }] ++
    (if base.compressionLevel ≠ none then [{ base with threads := none, compressionType := none, compressionLevel := none }]
      else [])
  else []) ++
  (if base.cacheMode ≠ "" then
    [{ base with
        cacheMode := "", threads := none
        compressionType := if compressed then none else base.compressionType
        compressionLevel := if compressed then none else base.compressionLevel }]
  else []) ++
  [.minimal]

def fallbackPlan (base : ConvertOptions) (outFormat : String) (compress : Bool) : List ConvertOptions :=
  (emitted base outFormat compress).foldl emit []

theorem mem_emit {ordered : List ConvertOptions} {opt a : ConvertOptions} : a ∈ emit ordered opt ↔ a ∈ ordered ∨ a = opt := by
  unfold emit
  split
  · next seen => exact ⟨Or.inl, fun mem => mem.elim id fun same => same ▸ seen⟩
  · simp

theorem nodup_emit {ordered : List ConvertOptions} (h : ordered.Nodup) (opt : ConvertOptions) : (emit ordered opt).Nodup := by
  unfold emit
  split
  · exact h
  · next new => simpa [List.nodup_append, h] using fun a mem (same : a = opt) => new (same ▸ mem)

theorem last_foldl_emit {last : ConvertOptions} (opts : List ConvertOptions)
    (h : opts.Pairwise fun a b => a = last → b = last) :
    (∀ a, a ∈ opts.foldl emit [] ↔ a ∈ opts) ∧ (last ∈ opts → (opts.foldl emit []).getLast? = some last) := by
  induction opts using List.reverseRecOn with
  | nil => simp
  | append_singleton opts opt ih =>
    obtain ⟨before, -, follows⟩ := List.pairwise_append.mp h
    obtain ⟨mems, ends⟩ := ih before
    simp only [List.foldl_append, List.foldl_cons, List.foldl_nil]
    refine ⟨fun a => by rw [mem_emit, mems a, List.mem_append, List.mem_singleton], fun mem => ?_⟩
    by_cases seen : last ∈ opts
    · obtain rfl : opt = last := follows last seen opt (List.mem_singleton_self _) rfl
      rw [emit, if_pos ((mems opt).mpr seen)]
      exact ends seen
    · obtain rfl : last = opt := by simpa [seen] using mem
      rw [emit, if_neg (fun mem => seen ((mems last).mp mem))]
      simp

theorem nodup_fallbackPlan (base : ConvertOptions) (outFormat : String) (compress : Bool) :
    (fallbackPlan base outFormat compress).Nodup := by
  have keeps (opts ordered : List ConvertOptions) (h : ordered.Nodup) : (opts.foldl emit ordered).Nodup := by
    induction opts generalizing ordered with
    | nil => exact h
    | cons opt opts ih => exact ih _ (nodup_emit h opt)
  exact keeps _ [] List.nodup_nil

theorem pairwise_emitted (base : ConvertOptions) (outFormat : String) (compress : Bool) :
    (emitted base outFormat compress).Pairwise fun a b => a = .minimal → b = .minimal := by
  obtain ⟨cache, threads, type, level, preallocation⟩ := base
  simp only [emitted, ConvertOptions.minimal]
  split_ifs <;> simp_all

theorem getLast_fallbackPlan (base : ConvertOptions) (outFormat : String) (compress : Bool) :
    (fallbackPlan base outFormat compress).getLast? = some .minimal :=
  (last_foldl_emit _ (pairwise_emitted base outFormat compress)).2 (by simp [emitted])

end plan

/-- The destination and its `.part` file. -/
@[ext]
structure Files (C : Type*) where
  dst : Option C
  part : Option C

/-- What a qemu-img process comes to: its exit code or a KeyboardInterrupt, and the content it left in its
target. -/
inductive Attempt (C : Type*) where
  | exited (returncode : Int) (wrote : Option C)
  | interrupted (wrote : Option C)

/-- The exceptions that leave the conversion. -/
inductive Failure where
  | systemExit
  | fileNotFound
  | imgInfo
  | partMissing
  | keyboardInterrupt
  | diskConversion (code : Int)
  deriving DecidableEq

/-- What is looked at before the first attempt: whether qemu-img is installed, the source is a file and
`qemu-img info` reads it. -/
structure Preflight where
  qemuImg : Bool := true
  isFile : Bool := true
  imgInfo : Bool := true

/-- How the conversion ended, with the files it left and the options it tried. -/
structure Conversion (C : Type*) where
  files : Files C
  result : Except Failure Unit
  tried : List ConvertOptions

section code

variable {C : Type*}

/-- The `.part` file is removed in atomic mode. -/
def Files.unlinkPart (files : Files C) (atomic : Bool) : Files C :=
  if atomic then { files with part := none } else files

/-- qemu-img writes to the `.part` file in atomic mode and to the destination otherwise. -/
def Files.write (files : Files C) (atomic : Bool) (wrote : Option C) : Files C :=
  if atomic then { files with part := wrote } else { files with dst := wrote.or files.dst }

/-- The destination after an exit code 0. -/
def Files.replace (files : Files C) (atomic : Bool) : Files C × Except Failure Unit :=
  if atomic then
    match files.part with
    | none => (files, .error .partMissing)
    | some image => (⟨some image, none⟩, .ok ())
  else (files, .ok ())

variable (attempts : Nat → ConvertOptions → Attempt C) (atomic : Bool)

/-- The attempts over the options that remain, the first with number `attemptNo`. -/
def tryPlan (attemptNo : Nat) (lastError : Option Int) (files : Files C) : List ConvertOptions → Conversion C
  | [] => ⟨files.unlinkPart atomic, .error (.diskConversion (lastError.getD 73)), []⟩
  | opt :: plan =>
    match attempts attemptNo opt with
    | .interrupted wrote => ⟨(files.unlinkPart atomic).write atomic wrote, .error .keyboardInterrupt, [opt]⟩
    | .exited rc wrote =>
      let left := (files.unlinkPart atomic).write atomic wrote
      if rc = 0 then ⟨(left.replace atomic).1, (left.replace atomic).2, [opt]⟩
      else
        let rest := tryPlan (attemptNo + 1) (some rc) left plan
        { rest with tried := opt :: rest.tried }

def convertImageWithProgress (preflight : Preflight) (base : ConvertOptions) (outFormat : String) (compress : Bool)
    (files : Files C) : Conversion C :=
  if !preflight.qemuImg then ⟨files, .error .systemExit, []⟩
  else if !preflight.isFile then ⟨files, .error .fileNotFound, []⟩
  else if !preflight.imgInfo then ⟨files, .error .imgInfo, []⟩
  else tryPlan attempts atomic 1 none files (fallbackPlan base outFormat compress)

end code

section runs

variable {C : Type*} {attempts : Nat → ConvertOptions → Attempt C}

/-- A non-zero exit code, after which the next options are tried. -/
def Attempt.failed : Attempt C → Prop
  | .exited rc _ => rc ≠ 0
  | .interrupted _ => False

/-- The files and the result after an attempt that ends the conversion. -/
def Attempt.ends (dst : Option C) : Attempt C → Files C × Except Failure Unit
  | .interrupted wrote => (⟨dst, wrote⟩, .error .keyboardInterrupt)
  | .exited _ none => (⟨dst, none⟩, .error .partMissing)
  | .exited _ (some image) => (⟨some image, none⟩, .ok ())

/-- The first `k` attempts fail, counted from the number `attemptNo`. -/
def AllFail (attempts : Nat → ConvertOptions → Attempt C) (attemptNo : Nat) (plan : List ConvertOptions) : Prop :=
  ∀ k opt, plan[k]? = some opt → (attempts (attemptNo + k) opt).failed

theorem allFail_cons {attemptNo : Nat} {opt : ConvertOptions} {plan : List ConvertOptions} :
    AllFail attempts attemptNo (opt :: plan) ↔ (attempts attemptNo opt).failed ∧ AllFail attempts (attemptNo + 1) plan := by
  constructor
  · refine fun all => ⟨all 0 opt rfl, fun k o get => ?_⟩
    have := all (k + 1) o (by simpa using get)
    rwa [show attemptNo + (k + 1) = attemptNo + 1 + k by omega] at this
  · rintro ⟨first, rest⟩ (_ | k) o get
    · obtain rfl : opt = o := by simpa using get
      exact first
    · have := rest k o (by simpa using get)
      rwa [show attemptNo + 1 + k = attemptNo + (k + 1) by omega] at this

theorem tryPlan_cons {attemptNo : Nat} (lastError : Option Int) (files : Files C) {opt : ConvertOptions}
    (plan : List ConvertOptions) (failed : (attempts attemptNo opt).failed) :
    ∃ rc left, left.dst = files.dst ∧ tryPlan attempts true attemptNo lastError files (opt :: plan) =
      { tryPlan attempts true (attemptNo + 1) (some rc) left plan with
        tried := opt :: (tryPlan attempts true (attemptNo + 1) (some rc) left plan).tried } := by
  cases ended : attempts attemptNo opt with
  | interrupted wrote => rw [ended] at failed; exact failed.elim
  | exited rc wrote =>
    rw [ended] at failed
    refine ⟨rc, (files.unlinkPart true).write true wrote, rfl, ?_⟩
    simp only [tryPlan, ended, if_neg (show ¬rc = 0 from failed)]

theorem tryPlan_fails {attemptNo : Nat} (lastError : Option Int) (files : Files C) {plan : List ConvertOptions}
    (all : AllFail attempts attemptNo plan) :
    ∃ code, tryPlan attempts true attemptNo lastError files plan =
      ⟨⟨files.dst, none⟩, .error (.diskConversion code), plan⟩ := by
  induction plan generalizing attemptNo lastError files with
  | nil => exact ⟨_, rfl⟩
  | cons opt plan ih =>
    obtain ⟨first, rest⟩ := allFail_cons.mp all
    obtain ⟨rc, left, kept, run⟩ := tryPlan_cons lastError files plan first
    obtain ⟨code, ends⟩ := ih (some rc) left rest
    exact ⟨code, by rw [run, ends, kept]⟩

theorem tryPlan_ends {attemptNo : Nat} (lastError : Option Int) (files : Files C) {before : List ConvertOptions}
    (opt : ConvertOptions) (plan : List ConvertOptions) (all : AllFail attempts attemptNo before)
    (ends : ¬(attempts (attemptNo + before.length) opt).failed) :
    tryPlan attempts true attemptNo lastError files (before ++ opt :: plan) =
      ⟨((attempts (attemptNo + before.length) opt).ends files.dst).1,
        ((attempts (attemptNo + before.length) opt).ends files.dst).2, before ++ [opt]⟩ := by
  induction before generalizing attemptNo lastError files with
  | nil =>
    simp only [List.length_nil, Nat.add_zero, List.nil_append] at ends ⊢
    cases ended : attempts attemptNo opt with
    | interrupted wrote => simp [tryPlan, ended, Attempt.ends, Files.unlinkPart, Files.write]
    | exited rc wrote =>
      obtain rfl : rc = 0 := by simpa [ended, Attempt.failed] using ends
      cases wrote <;> simp [tryPlan, ended, Attempt.ends, Files.unlinkPart, Files.write, Files.replace]
  | cons first before ih =>
    obtain ⟨fails, rest⟩ := allFail_cons.mp all
    obtain ⟨rc, left, kept, run⟩ := tryPlan_cons lastError files (before ++ opt :: plan) fails
    have next : attemptNo + (first :: before).length = attemptNo + 1 + before.length := by
      rw [List.length_cons]; omega
    rw [next] at ends ⊢
    rw [List.cons_append, run, ih _ _ rest ends, kept]
    rfl

theorem allFail_or (attempts : Nat → ConvertOptions → Attempt C) (attemptNo : Nat) (plan : List ConvertOptions) :
    AllFail attempts attemptNo plan ∨ ∃ before opt after, plan = before ++ opt :: after ∧
      AllFail attempts attemptNo before ∧ ¬(attempts (attemptNo + before.length) opt).failed := by
  induction plan generalizing attemptNo with
  | nil => exact .inl fun k opt get => by simp at get
  | cons opt plan ih =>
    by_cases first : (attempts attemptNo opt).failed
    · refine (ih (attemptNo + 1)).imp (fun rest => allFail_cons.mpr ⟨first, rest⟩) ?_
      rintro ⟨before, stop, after, rfl, fails, ends⟩
      refine ⟨opt :: before, stop, after, rfl, allFail_cons.mpr ⟨first, fails⟩, ?_⟩
      rwa [List.length_cons, show attemptNo + (before.length + 1) = attemptNo + 1 + before.length by omega]
    · exact .inr ⟨[], opt, plan, rfl, fun k o get => by simp at get, by simpa using first⟩

end runs

section conversion

variable {C : Type*}

/-- All or nothing: the output of the attempt that succeeded is the destination's content, or the destination is
as it was and no `.part` file is left; the options of the plan are distinct, end with those that use no optional
feature, and are tried in order up to the first attempt that does not fail. -/
structure AllOrNothing (attempts : Nat → ConvertOptions → Attempt C) (plan : List ConvertOptions) (files : Files C)
    (run : Conversion C) : Prop where
  all : run.result = .ok () → ∃ before opt image, run.tried = before ++ [opt] ∧
    attempts (1 + before.length) opt = .exited 0 (some image) ∧ run.files = ⟨some image, none⟩
  nothing : run.result ≠ .ok () → run.files = ⟨files.dst, none⟩
  nodup : plan.Nodup
  minimal : plan.getLast? = some .minimal
  inOrder : run.tried <+: plan
  untilFirst : AllFail attempts 1 run.tried.dropLast
  exhausted : ∀ code, run.result = .error (.diskConversion code) → run.tried = plan ∧ AllFail attempts 1 plan

def Preflight.passes (preflight : Preflight) : Bool := preflight.qemuImg && preflight.isFile && preflight.imgInfo

/-- No `.part` file lies there when the conversion stops before its first attempt, and none that is reached is
interrupted after it wrote one. -/
def NoPart (attempts : Nat → ConvertOptions → Attempt C) (preflight : Preflight) (plan : List ConvertOptions)
    (files : Files C) : Prop :=
  if preflight.passes then
    ∀ before opt after image, plan = before ++ opt :: after → AllFail attempts 1 before →
      attempts (1 + before.length) opt ≠ .interrupted (some image)
  else files.part = none

variable (attempts : Nat → ConvertOptions → Attempt C) {preflight : Preflight} (base : ConvertOptions)
  (outFormat : String) (compress : Bool) (files : Files C)

theorem convert_passes (passes : preflight.passes) :
    convertImageWithProgress attempts true preflight base outFormat compress files =
      tryPlan attempts true 1 none files (fallbackPlan base outFormat compress) := by
  simp only [Preflight.passes, Bool.and_eq_true] at passes
  simp [convertImageWithProgress, passes]

theorem convert_stops (stops : ¬preflight.passes) :
    ∃ failure, (∀ code, failure ≠ .diskConversion code) ∧
      convertImageWithProgress attempts true preflight base outFormat compress files = ⟨files, .error failure, []⟩ := by
  simp only [Preflight.passes, Bool.and_eq_true, not_and] at stops
  simp only [convertImageWithProgress]
  split_ifs with noTool noFile noInfo
  · exact ⟨.systemExit, by simp, rfl⟩
  · exact ⟨.fileNotFound, by simp, rfl⟩
  · exact ⟨.imgInfo, by simp, rfl⟩
  · simp_all

variable {attempts base outFormat compress files}

theorem allOrNothing_of_ends {before after : List ConvertOptions} {opt : ConvertOptions}
    (plan : fallbackPlan base outFormat compress = before ++ opt :: after) (fails : AllFail attempts 1 before)
    (ends : ¬(attempts (1 + before.length) opt).failed)
    (clean : ∀ image, attempts (1 + before.length) opt ≠ .interrupted (some image)) :
    AllOrNothing attempts (fallbackPlan base outFormat compress) files
      ⟨((attempts (1 + before.length) opt).ends files.dst).1, ((attempts (1 + before.length) opt).ends files.dst).2,
        before ++ [opt]⟩ where
  all ok := by
    refine ⟨before, opt, ?_⟩
    cases ended : attempts (1 + before.length) opt with
    | interrupted wrote => simp [ended, Attempt.ends] at ok
    | exited rc wrote =>
      obtain rfl : rc = 0 := by simpa [ended, Attempt.failed] using ends
      cases wrote with
      | none => simp [ended, Attempt.ends] at ok
      | some image => exact ⟨image, rfl, rfl, rfl⟩
  nothing bad := by
    cases ended : attempts (1 + before.length) opt with
    | interrupted wrote =>
      cases wrote with
      | none => rfl
      | some image => exact absurd ended (clean image)
    | exited rc wrote =>
      cases wrote with
      | none => rfl
      | some image => simp [ended, Attempt.ends] at bad
  nodup := nodup_fallbackPlan base outFormat compress
  minimal := getLast_fallbackPlan base outFormat compress
  inOrder := ⟨after, by simp [plan]⟩
  untilFirst := by simpa using fails
  exhausted code bad := by
    cases ended : attempts (1 + before.length) opt with
    | interrupted wrote => simp [ended, Attempt.ends] at bad
    | exited rc wrote => cases wrote <;> simp [ended, Attempt.ends] at bad

variable (attempts base outFormat compress files)

theorem allOrNothing_of_fails (fails : AllFail attempts 1 (fallbackPlan base outFormat compress)) (code : Int) :
    AllOrNothing attempts (fallbackPlan base outFormat compress) files
      ⟨⟨files.dst, none⟩, .error (.diskConversion code), fallbackPlan base outFormat compress⟩ where
  all ok := by simp at ok
  nothing _ := rfl
  nodup := nodup_fallbackPlan base outFormat compress
  minimal := getLast_fallbackPlan base outFormat compress
  inOrder := List.prefix_rfl
  untilFirst k opt get := by
    refine fails k opt ?_
    rw [List.dropLast_eq_take, List.getElem?_take] at get
    split at get
    · exact get
    · simp at get
  exhausted _ _ := ⟨rfl, fails⟩

variable (preflight)

/-- A conversion in atomic mode is all or nothing exactly when no `.part` file is left behind by an interrupt or
lies there before a conversion that never starts. -/
theorem allOrNothing_iff :
    AllOrNothing attempts (fallbackPlan base outFormat compress) files
        (convertImageWithProgress attempts true preflight base outFormat compress files) ↔
      NoPart attempts preflight (fallbackPlan base outFormat compress) files := by
  by_cases passes : preflight.passes
  · rw [convert_passes attempts base outFormat compress files passes, NoPart, if_pos passes]
    constructor
    · intro right before opt after image plan fails interrupted
      have ends : ¬(attempts (1 + before.length) opt).failed := by simp [interrupted, Attempt.failed]
      have nothing := right.nothing
      rw [plan, tryPlan_ends none files opt after fails ends] at nothing
      simp [interrupted, Attempt.ends] at nothing
    · intro clean
      rcases allFail_or attempts 1 (fallbackPlan base outFormat compress) with fails | ⟨before, opt, after, plan, fails, ends⟩
      · obtain ⟨code, run⟩ := tryPlan_fails none files fails
        rw [run]
        exact allOrNothing_of_fails attempts base outFormat compress files fails code
      · have run := tryPlan_ends none files opt after fails ends
        rw [← plan] at run
        rw [run]
        exact allOrNothing_of_ends plan fails ends fun image => clean before opt after image plan fails
  · obtain ⟨failure, other, run⟩ := convert_stops attempts base outFormat compress files passes
    rw [run, NoPart, if_neg passes]
    constructor
    · intro right
      exact congrArg Files.part (right.nothing (by simp))
    · intro clean
      exact
        { all := by simp
          nothing := fun _ => Files.ext rfl clean
          nodup := nodup_fallbackPlan base outFormat compress
          minimal := getLast_fallbackPlan base outFormat compress
          inOrder := List.nil_prefix
          untilFirst := fun k opt get => by simp at get
          exhausted := fun code same => absurd (Except.error.inj same) (other code) }

end conversion

/-- Ctrl-C during the first attempt leaves its `.part` file. -/
theorem not_allOrNothing_interrupted :
    ¬AllOrNothing (fun _ _ => Attempt.interrupted (some 7)) (fallbackPlan {} "qcow2" true) (⟨none, none⟩ : Files Nat)
      (convertImageWithProgress (fun _ _ => .interrupted (some 7)) true {} {} "qcow2" true ⟨none, none⟩) := by
  intro right
  have left := right.nothing (by decide)
  exact absurd (congrArg Files.part left) (by decide)

end H2kvm.Converters.Convert
