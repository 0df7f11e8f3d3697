import H2kvm.Converters.Contained
import H2kvm.Framework.Obstacles
import H2kvm.Framework.Usage

namespace H2kvm.Converters.Extract

open Framework FileTree Names Paths Text

variable {δ α β : Type} {sys : System} {size : δ → Nat} {limit : Option Nat} {n m : Nat} {d d' d₀ : Disk δ}
  {outdir target p q r : Path}

/-- What is read of a member is no longer than its header says. -/
def Bounded (size : δ → Nat) (member : Member δ) : Prop := ∀ src, member.stream = some src → size src.data ≤ member.size

/-- The bytes a member may add. -/
def cost (member : Member δ) : Nat := if member.kind = .file then member.size else 0

theorem sum_cost (members : List (Member δ)) : (members.map cost).sum = totalBytes members := by
  induction members with
  | nil => rfl
  | cons member members ih =>
    rw [List.map_cons, List.sum_cons, ih, totalBytes, totalBytes, cost]
    by_cases isFile : member.kind = .file
    · simp [isFile]
    · simp [isFile]

section costs

theorem costs_call {y : Call δ α} (costs : Costs size limit n y) : Costs size limit n (call y) := fun d => by
  rw [endState_call]
  exact costs d

theorem costs_removeIfPresent (p : Path) : Costs size limit 0 (removeIfPresent sys p : Act δ Unit) := by
  refine .reads_bind Reads.of_get fun s _ _ => ?_
  split
  · exact (costs_unlink p).suppress
  · exact .of_reads (.of_pure ())

/-- What comes after is counted from the same state on. -/
theorem adds_bind {x : Act δ α} {f : α → Act δ β} (less : n ≤ m) (first : Adds size limit n d₀ (endState x d))
    (second : ∀ a d', x d = .ok a d' → Adds size limit n d₀ d' → Adds size limit m d₀ (endState (f a) d')) :
    Adds size limit m d₀ (endState (x >>= f) d) := by
  cases run : x d with
  | ok a d' =>
    rw [endState_of_ok run] at first
    rw [endState, bind_of_ok run]
    exact second a d' run first
  | error e d' =>
    rw [endState_of_error run] at first
    rw [endState_of_error (bind_of_error run)]
    exact first.mono less

theorem adds_reads_bind {x : Act δ α} {f : α → Act δ β} (reads : Reads x) (less : n ≤ m) (sofar : Adds size limit n d₀ d)
    (second : ∀ a, x d = .ok a d → Adds size limit m d₀ (endState (f a) d)) :
    Adds size limit m d₀ (endState (x >>= f) d) := by
  refine adds_bind less (by rwa [reads d]) fun a d' run _ => ?_
  obtain rfl := reads.of_ok run
  exact second a run

end costs

namespace AMI

variable [Inhabited δ] (empty : size default = 0)
include empty

theorem costs_store {single : Option Nat} {src : Stream δ} (target : Path) (small : limit.all (size src.data ≤ ·)) :
    Costs size limit (size src.data) (store sys target single src) := by
  refine .tryCatch ?_ fun e => ?_
  · refine (costs_call (costs_openOver empty _ target)).free_bind fun r => ?_
    refine (costs_call (costs_write r small)).bind_free fun _ => .of_reads ?_
    exact (Reads.of_require _ _).bind fun _ => (Reads.of_require _ _).bind fun _ => Reads.of_pure _
  · split
    · exact (costs_removeIfPresent target).free_bind fun _ => .of_reads fun _ => rfl
    · exact .of_reads fun _ => rfl

/-- A member adds no more than its header says, and no file over the limit. -/
theorem costs_safeExtractOne {skipSpecial : Bool} {member : Member δ} (bounded : Bounded size member) (outdir : Path) :
    Costs size limit (cost member) (safeExtractOne sys outdir skipSpecial limit member) := by
  refine .reads_bind (reads_resolved outdir) fun outdirR _ _ => ?_
  refine .reads_bind (Reads.of_require _ _) fun _ _ _ => .reads_bind (Reads.of_require _ _) fun _ _ _ => ?_
  refine .reads_bind (reads_resolved _) fun target _ _ => .reads_bind (Reads.of_require _ _) fun _ _ _ => ?_
  refine .reads_bind (Reads.of_require _ _) fun _ _ passed => ?_
  split
  · refine .mono ?_ (Nat.zero_le _)
    refine .reads_bind (reads_hasSymlinkInParents _ _) fun _ _ _ => .reads_bind (Reads.of_require _ _) fun _ _ _ => ?_
    refine (costs_call (costs_mkdirs target)).free_bind fun _ => ?_
    split
    · exact (costs_chmod target _).suppress.free_bind fun _ => .of_reads (.of_pure _)
    · exact .of_reads (.of_pure _)
  split
  · refine .mono (.of_reads ?_) (Nat.zero_le _)
    split
    · exact .of_pure _
    · exact fun _ => rfl
  · next isFile =>
    have isFile : member.kind = .file := not_not.mp isFile
    have declared : within limit member.size = true := by simpa [isFile] using require_ok passed
    rw [cost, if_pos isFile]
    refine (costs_call (costs_mkdirs target.dropLast)).free_bind fun _ => ?_
    refine .reads_bind (reads_hasSymlinkInParents _ _) fun _ _ _ => .reads_bind (Reads.of_require _ _) fun _ _ _ => ?_
    refine .reads_bind Reads.of_get fun s _ _ => .reads_bind (Reads.of_require _ _) fun _ _ _ => ?_
    cases stream : member.stream with
    | none => exact .mono (.of_reads fun _ => rfl) (Nat.zero_le _)
    | some src =>
      have less := bounded src stream
      have small : limit.all (size src.data ≤ ·) := by
        cases limit with
        | none => rfl
        | some k => exact decide_eq_true (less.trans (of_decide_eq_true declared))
      refine Costs.mono ((costs_store empty target small).bind_free fun written => ?_) less
      exact (costs_chmod target _).suppress.free_bind fun _ => .of_reads (.of_pure _)

/-- An archive adds no more than its headers say, if that is within the limit. -/
theorem costs_extractTar {opts : Options} {members : List (Member δ)} (bounded : ∀ member ∈ members, Bounded size member)
    (outdir : Path) (total : within opts.limits.maxTotalBytes (totalBytes members) → totalBytes members ≤ n) :
    Costs size opts.maxSingleFileBytes n (extractTar sys outdir opts members) := by
  refine .reads_bind (reads_resolved outdir) fun outdirR _ _ => ?_
  refine .reads_bind (reads_checkLimits _ _) fun _ d passed => ?_
  obtain ⟨_, _, rest⟩ := (Reads.of_require _ _).bind_ok passed
  refine .mono ?_ (total (require_ok rest))
  rw [← sum_cost]
  exact .foldlM (fun _ member mem => (costs_safeExtractOne empty (bounded member mem) outdirR).bind_free fun _ =>
    .of_reads (.of_pure ())) ()

section nested

variable {getmembers : δ → Option (List (Member δ))} {opts : Options}
  (bounded' : ∀ data members, getmembers data = some members → ∀ member ∈ members, Bounded size member)
include bounded'

/-- So does a nested archive. -/
theorem adds_extractNested (t : Path) (d : Disk δ)
    (total : ∀ members, (content sys.hops d.tree t).bind getmembers = some members →
      within opts.limits.maxTotalBytes (totalBytes members) → totalBytes members ≤ n) :
    Adds size opts.maxSingleFileBytes n d (endState (extractNested sys getmembers opts () t) d) := by
  rw [extractNested, endState, bind_get, ← endState]
  cases read : (content sys.hops d.tree t).bind getmembers with
  | none => exact (Adds.refl d).mono (Nat.zero_le _)
  | some members =>
    obtain ⟨data, -, archive⟩ := Option.bind_eq_some_iff.mp read
    have costs : Costs size opts.maxSingleFileBytes n (extractTar sys (nestedOut t) opts members) :=
      costs_extractTar empty (bounded' data members archive) (nestedOut t) (total members read)
    exact (costs_call (costs_mkdirs _)).free_bind (fun _ => costs.suppress) d

theorem adds_nested (ts : List Path) (d : Disk δ) :
    ∃ n, Adds size opts.maxSingleFileBytes n d (endState (ts.foldlM (extractNested sys getmembers opts) ()) d) := by
  have rounds : EachRound (extractNested sys getmembers opts) (fun _ _ => True) ts () d :=
    eachRound_of_invariant (I := fun _ => True) (fun _ _ _ _ => trivial) (fun _ _ _ => trivial) trivial
  refine endState_foldlM (r := fun d d' => ∃ n, Adds size opts.maxSingleFileBytes n d d') (I := fun _ => True)
    (fun _ t _ d _ _ => ?_) (fun _ _ _ _ => trivial) trivial rounds
  refine ⟨(((content sys.hops d.tree t).bind getmembers).map totalBytes).getD 0, adds_extractNested empty bounded' t d ?_⟩
  intro members read _
  rw [read]
  exact le_rfl

end nested

omit empty

/-- How many archives are gone through: the first and those that it held. -/
def archives (sys : System) (extractedTo : Path) (opts : Options) (extractNestedTar : Bool) (members : List (Member δ))
    (d : Disk δ) : Nat :=
  match extractTar sys extractedTo opts members d with
  | .ok _ d' => if extractNestedTar then (candidates sys d'.tree extractedTo).length + 1 else 1
  | .error _ _ => 1

include empty

theorem adds_extractAll {getmembers : δ → Option (List (Member δ))} {opts : Options} {members : List (Member δ)}
    (extractedTo : Path) (extractNestedTar : Bool) (bounded : ∀ member ∈ members, Bounded size member)
    (bounded' : ∀ data members, getmembers data = some members → ∀ member ∈ members, Bounded size member)
    (total : within opts.limits.maxTotalBytes (totalBytes members) → totalBytes members ≤ n)
    (total' : ∀ data members, getmembers data = some members →
      within opts.limits.maxTotalBytes (totalBytes members) → totalBytes members ≤ n) (d : Disk δ) :
    Adds size opts.maxSingleFileBytes (archives sys extractedTo opts extractNestedTar members d * n) d
      (endState (extractAll sys getmembers extractedTo opts extractNestedTar members) d) := by
  have first : Adds size opts.maxSingleFileBytes n d (endState (extractTar sys extractedTo opts members) d) :=
    costs_extractTar empty bounded extractedTo total d
  rw [archives]
  cases run : extractTar sys extractedTo opts members d with
  | error e d' =>
    rw [endState_of_error run] at first
    rw [extractAll, endState_of_error (bind_of_error run), Nat.one_mul]
    exact first
  | ok u d' =>
    rw [endState_of_ok run] at first
    rw [extractAll, endState, bind_of_ok run, bind_get]
    cases extractNestedTar with
    | false =>
      change Adds size _ (1 * n) d d'
      rwa [Nat.one_mul]
    | true =>
      change Adds size _ (((candidates sys d'.tree extractedTo).length + 1) * n) d
        (endState ((candidates sys d'.tree extractedTo).foldlM (extractNested sys getmembers opts) ()) d')
      rw [Nat.add_mul, Nat.one_mul, Nat.add_comm]
      have rest : Costs size opts.maxSingleFileBytes ((candidates sys d'.tree extractedTo).map fun _ => n).sum
          ((candidates sys d'.tree extractedTo).foldlM (extractNested sys getmembers opts) ()) :=
        .foldlM (fun _ t _ d => adds_extractNested empty bounded' t d fun members read => by
          obtain ⟨data, -, archive⟩ := Option.bind_eq_some_iff.mp read
          exact total' data members archive) ()
      simp only [List.map_const', List.sum_replicate, Nat.nsmul_eq_mul] at rest
      exact first.trans (rest d')

/-- No file of a run is over the limit. -/
theorem fileSize_extractAll {getmembers : δ → Option (List (Member δ))} {opts : Options} {members : List (Member δ)}
    {limit : Nat} (extractedTo : Path) (extractNestedTar : Bool) (bounded : ∀ member ∈ members, Bounded size member)
    (bounded' : ∀ data members, getmembers data = some members → ∀ member ∈ members, Bounded size member)
    (limited : opts.maxSingleFileBytes = some limit) (d : Disk δ) :
    ∀ p ∈ written d (endState (extractAll sys getmembers extractedTo opts extractNestedTar members) d),
      fileSize size (endState (extractAll sys getmembers extractedTo opts extractNestedTar members) d).tree p ≤ limit := by
  have outer : Adds size opts.maxSingleFileBytes (totalBytes members) d
      (endState (extractTar sys extractedTo opts members) d) :=
    costs_extractTar empty bounded extractedTo (fun _ => le_rfl) d
  obtain ⟨n, adds⟩ : ∃ n, Adds size opts.maxSingleFileBytes n d
      (endState (extractAll sys getmembers extractedTo opts extractNestedTar members) d) := by
    cases run : extractTar sys extractedTo opts members d with
    | error e d' =>
      rw [endState_of_error run] at outer
      rw [extractAll, endState_of_error (bind_of_error run)]
      exact ⟨_, outer⟩
    | ok u d' =>
      rw [endState_of_ok run] at outer
      rw [extractAll, endState, bind_of_ok run, bind_get]
      cases extractNestedTar with
      | false => exact ⟨_, outer⟩
      | true =>
        obtain ⟨m, rest⟩ : ∃ m, Adds size opts.maxSingleFileBytes m d'
            (endState ((candidates sys d'.tree extractedTo).foldlM (extractNested sys getmembers opts) ()) d') :=
          adds_nested empty bounded' (candidates sys d'.tree extractedTo) d'
        exact ⟨_, outer.trans rest⟩
  intro p member
  have small := adds.all_of_mem_written member
  rw [limited] at small
  exact of_decide_eq_true small

omit empty

section counts

/-- `extracted_count` of the loop over the members. -/
def extractedCount (sys : System) (outdir : Path) (opts : Options) : List (Member δ) → Disk δ → Nat
  | [], _ => 0
  | member :: members, d =>
    match safeExtractOne sys outdir opts.skipSpecial opts.maxSingleFileBytes member d with
    | .ok (ok, _) d' => extractedCount sys outdir opts members d' + if ok then 1 else 0
    | .error _ _ => 0

/-- The members of an archive that are extracted. -/
def extractedMembers (sys : System) (outdir : Path) (opts : Options) (members : List (Member δ)) (d : Disk δ) : Nat :=
  match (resolved sys outdir >>= fun outdir => checkLimits opts.limits members >>= fun _ => pure outdir) d with
  | .ok outdir d' => extractedCount sys outdir opts members d'
  | .error _ _ => 0

theorem extractedCount_le (outdir : Path) (opts : Options) (members : List (Member δ)) (d : Disk δ) :
    extractedCount sys outdir opts members d ≤ members.length := by
  induction members generalizing d with
  | nil => exact Nat.le_refl 0
  | cons member members ih =>
    rw [extractedCount, List.length_cons]
    split
    · next ok _ d' _ =>
      have rest := ih d'
      split <;> omega
    · exact Nat.zero_le _

theorem extractedMembers_le {opts : Options} {limit : Nat} (limited : opts.limits.maxMembers = some limit) (outdir : Path)
    (members : List (Member δ)) (d : Disk δ) : extractedMembers sys outdir opts members d ≤ limit := by
  rw [extractedMembers]
  split
  · next outdir' d' run =>
    obtain ⟨_, _, rest⟩ := (reads_resolved outdir).bind_ok run
    obtain ⟨_, checked, _⟩ := (reads_checkLimits _ _).bind_ok rest
    obtain ⟨_, few, _⟩ := (Reads.of_require _ _).bind_ok checked
    have few := require_ok few
    rw [limited] at few
    exact (extractedCount_le outdir' opts members d').trans (of_decide_eq_true few)
  · exact Nat.zero_le _

/-- The members that are extracted of the nested archives. -/
def nestedMembers (sys : System) (getmembers : δ → Option (List (Member δ))) (opts : Options) : List Path → Disk δ → Nat
  | [], _ => 0
  | t :: ts, d =>
    match (content sys.hops d.tree t).bind getmembers with
    | none => nestedMembers sys getmembers opts ts d
    | some members =>
      match mkdirs sys.hops (nestedOut t) d with
      | .error _ _ => 0
      | .ok _ d' => extractedMembers sys (nestedOut t) opts members d' +
          nestedMembers sys getmembers opts ts (endState (extractTar sys (nestedOut t) opts members) d')

/-- The members that are extracted in a run. -/
def allMembers (sys : System) (getmembers : δ → Option (List (Member δ))) (extractedTo : Path) (opts : Options)
    (extractNestedTar : Bool) (members : List (Member δ)) (d : Disk δ) : Nat :=
  extractedMembers sys extractedTo opts members d +
    match extractTar sys extractedTo opts members d with
    | .ok _ d' => if extractNestedTar then nestedMembers sys getmembers opts (candidates sys d'.tree extractedTo) d' else 0
    | .error _ _ => 0

theorem nestedMembers_le {opts : Options} {limit : Nat} (limited : opts.limits.maxMembers = some limit)
    (getmembers : δ → Option (List (Member δ))) (ts : List Path) (d : Disk δ) :
    nestedMembers sys getmembers opts ts d ≤ ts.length * limit := by
  induction ts generalizing d with
  | nil => exact Nat.zero_le _
  | cons t ts ih =>
    rw [nestedMembers, List.length_cons, Nat.add_mul, Nat.one_mul]
    split
    · exact (ih d).trans (Nat.le_add_right _ _)
    split
    · exact Nat.zero_le _
    · next members _ _ _ d' _ =>
      have one : extractedMembers sys (nestedOut t) opts members d' ≤ limit :=
        extractedMembers_le limited (nestedOut t) members d'
      have rest := ih (endState (extractTar sys (nestedOut t) opts members) d')
      omega

theorem allMembers_le {opts : Options} {limit : Nat} (limited : opts.limits.maxMembers = some limit)
    (getmembers : δ → Option (List (Member δ))) (extractedTo : Path) (extractNestedTar : Bool) (members : List (Member δ))
    (d : Disk δ) : allMembers sys getmembers extractedTo opts extractNestedTar members d ≤
      archives sys extractedTo opts extractNestedTar members d * limit := by
  have outer : extractedMembers sys extractedTo opts members d ≤ limit :=
    extractedMembers_le limited extractedTo members d
  rw [allMembers, archives]
  cases extractTar sys extractedTo opts members d with
  | error e d' => simpa using outer
  | ok u d' =>
    cases extractNestedTar with
    | false => simpa using outer
    | true =>
      have rest : nestedMembers sys getmembers opts (candidates sys d'.tree extractedTo) d' ≤ _ :=
        nestedMembers_le limited getmembers (candidates sys d'.tree extractedTo) d'
      simp only [if_true, Nat.add_mul, Nat.one_mul]
      omega

end counts

end AMI

namespace RAW

variable [Inhabited δ] (empty : size default = 0)

omit [Inhabited δ] in
theorem costs_preserveMode (policy : ExtractPolicy) (p : Path) (mode : Nat) :
    Costs size limit 0 (preserveMode sys policy p mode : Act δ Unit) := by
  rw [preserveMode]
  split
  · exact (costs_chmod p _).suppress
  · exact .of_reads (.of_pure ())

omit [Inhabited δ] in
theorem costs_clear (p : Path) : Costs size limit 0 (clear sys p : Act δ Unit) := by
  refine .reads_bind Reads.of_get fun s _ _ => ?_
  split
  · exact costs_call (costs_unlink p)
  · exact .of_reads (.of_pure ())

include empty

theorem costs_openForWriteNofollow (path : Path) (overwrite : Bool) :
    Costs size limit 0 (openForWriteNofollow sys path overwrite : Act δ Path) := by
  refine .reads_bind Reads.of_get fun s _ _ => ?_
  split
  · refine .reads_bind (Reads.of_require _ _) fun _ _ _ => .reads_bind (Reads.of_require _ _) fun _ _ _ => ?_
    split
    · exact costs_call (costs_openOver empty false path)
    · exact .of_reads fun _ => rfl
  · split
    · exact costs_call (costs_openNew empty path)
    · exact .of_reads fun _ => rfl

/-- The bytes are counted once: what is written to the temporary path is moved. -/
theorem adds_store {policy : ExtractPolicy} {writtenTotal mode : Nat} {bytesBudget : Option Nat} {src : Stream δ}
    (secure : Secure d.tree [] p) :
    Adds size none (size src.data) d (endState (store sys policy writtenTotal bytesBudget mode p src) d) := by
  cases named : atomicTmp sys p with
  | error e =>
    have run : store sys policy writtenTotal bytesBudget mode p src d = .error e d := by
      rw [store, named]
      rfl
    rw [endState_of_error run]
    exact (Adds.refl d).mono (Nat.zero_le _)
  | ok tmpPath =>
    obtain ⟨c, proper, rfl⟩ := atomicTmp_ok named
    have tmp : Secure d.tree [] (p.dropLast ++ [c]) := .child secure.normal.dropLast proper secure.unlinked List.nil_prefix
    rw [store, named]
    refine Costs.adds_tryCatch ?_ fun e => (costs_removeIfPresent _).free_bind fun _ => .of_reads fun _ => rfl
    refine adds_bind (Nat.zero_le _) (costs_clear _ d) fun _ d1 cleared first => ?_
    have onward1 : Onward true [] d d1 := endState_of_ok cleared ▸ clear_onward tmp
    have tmp1 := onward1.secure tmp
    refine adds_bind (Nat.zero_le _) (first.trans (costs_openForWriteNofollow empty _ false d1)) fun r d2 opened second => ?_
    have onward2 : Onward true [] d1 d2 := endState_of_ok opened ▸ openForWriteNofollow_onward tmp1
    obtain ⟨rfl, found⟩ := openForWriteNofollow_ok tmp1 opened
    obtain ⟨-, free, put⟩ := openForWriteNofollow_put tmp1 opened
    have tmp2 := onward2.secure tmp1
    have member : p.dropLast ++ [c] ∈ written d d2 := by
      have new : written d1 d2 = {p.dropLast ++ [c]} := by
        rw [written_concat (put ▸ rfl : d2.log = d1.log ++ [⟨.created, p.dropLast ++ [c]⟩])]
        rfl
      obtain ⟨_, grown, -⟩ := onward2.log
      rw [written_trans first.log ⟨_, grown.symm⟩, new]
      exact Finset.mem_union_right _ (Finset.mem_singleton_self _)
    have writing : Costs size none (size src.data) (write (p.dropLast ++ [c]) src.data) := costs_write _ rfl
    refine adds_bind (by omega) (second.trans (costs_call writing d2)) fun _ d3 written' third => ?_
    have onward3 : Onward true [] d2 d3 := endState_of_ok written' ▸ (by
      rw [endState_call]
      exact write_onward tmp2.inside src.data)
    refine adds_reads_bind (Reads.of_require _ _) (by omega) third fun _ _ => ?_
    refine adds_reads_bind (Reads.of_require _ _) (by omega) third fun _ _ => ?_
    have unlinked : Unlinked d3.tree (p.dropLast ++ [c]) :=
      onward3.unlinked (unlinked_of_dropLast tmp2.unlinked (plain_of_file found).2)
    refine adds_bind (by omega) (third.trans (costs_preserveMode policy _ _ d3)) fun _ d4 modes fourth => ?_
    have onward4 : Onward true [] d3 d4 := endState_of_ok modes ▸ preserveMode_onward tmp.normal unlinked tmp.inside policy _
    have later : d2.log <+: d4.log := by
      obtain ⟨_, grown, -⟩ := (onward3.trans onward4).log
      exact ⟨_, grown.symm⟩
    rw [endState_call]
    refine (Adds.move fourth (mem_written_of_later second.log later member) fun s placed => ?_).mono (by omega)
    exact ((onward3.trans onward4).secure tmp2).eq_place placed

/-- A member adds no more than its header says. -/
theorem costs_safeExtractOne {policy : ExtractPolicy} {writtenTotal : Nat} {bytesBudget : Option Nat} {isManifest : Bool}
    {member : Member δ} (bounded : Bounded size member) (outdir : Path) :
    Costs size none (cost member) (safeExtractOne sys outdir policy writtenTotal bytesBudget isManifest member) := by
  refine .reads_bind (reads_resolved outdir) fun outdirR _ _ => ?_
  split
  · exact .mono (.reads_bind (Reads.of_require _ _) fun _ _ _ => .of_reads (.of_pure _)) (Nat.zero_le _)
  · next plain =>
    refine .reads_bind (reads_lift _) fun parts _ _ d => adds_reads_bind (reads_resolved _) (Nat.zero_le _) (.refl d) ?_
    intro target joined
    obtain ⟨normal, unlinked⟩ := realpath_plain (resolved_ok joined)
    refine adds_reads_bind (Reads.of_require _ _) (Nat.zero_le _) (.refl d) fun _ _ => ?_
    split
    · refine Costs.mono ((costs_call (costs_mkdirs target)).free_bind (n := 0) fun _ => ?_) (Nat.zero_le _) d
      exact (costs_preserveMode policy target _).free_bind fun _ => .of_reads (.of_pure _)
    · next noDir =>
      have isFile : member.kind = .file := by
        by_contra other
        exact plain (by simp [noDir, other])
      rw [cost, if_pos isFile]
      have onward : Onward true [] d (endState (mkdirs sys.hops target.dropLast) d) :=
        mkdirs_onward ground_root normal.dropLast (unlinked.of_above (List.dropLast_prefix target)) List.nil_prefix
      refine adds_bind (Nat.zero_le _) (costs_call (costs_mkdirs target.dropLast) d) fun _ d1 made first => ?_
      have onward : Onward true [] d d1 := by rwa [endState_of_ok (call_ok made)] at onward
      have unlinked1 := onward.unlinked unlinked
      refine adds_reads_bind (reads_ensureNoSymlinkComponents _ _) (Nat.zero_le _) first fun _ _ => ?_
      refine adds_reads_bind (reads_finalPath policy target) (Nat.zero_le _) first fun final chosen => ?_
      split
      · exact first.mono (Nat.zero_le _)
      · cases stream : member.stream with
        | none => exact first.mono (Nat.zero_le _)
        | some src =>
          have parent := unlinked1.of_above (List.dropLast_prefix target)
          have secure : Secure d1.tree [] final := by
            rcases finalPath_ok chosen with rfl | ⟨c, proper, rfl⟩
            · exact .of_unlinked normal unlinked1 List.nil_prefix
            · exact .child normal.dropLast proper parent List.nil_prefix
          refine adds_bind le_rfl ((first.trans (adds_store empty secure)).mono ?_) fun _ d2 _ stored => stored
          have less := bounded src stream
          omega

theorem costs_extractRawTar {policy : ExtractPolicy} {maxMembers : Option Nat} {extractAll includeManifests : Bool}
    {members : List (Member δ)} (bounded : ∀ member ∈ members, Bounded size member) (outdir : Path)
    (total : ∀ bytes, within policy.maxTotalBytes bytes → bytes ≤ n) :
    Costs size none n (extractRawTar sys outdir policy maxMembers extractAll includeManifests members) := by
  refine .reads_bind (Reads.of_require _ _) fun _ _ _ => .reads_bind (Reads.of_require _ _) fun _ _ _ => ?_
  refine .reads_bind (Reads.of_require _ _) fun _ _ small => .mono ?_ (total _ (require_ok small))
  rw [← sum_cost]
  refine .foldlM (fun writtenTotal member mem => ?_) 0
  refine Costs.bind_free ?_ fun _ => .of_reads (.of_pure _)
  exact costs_safeExtractOne empty (bounded member (List.mem_of_mem_filter mem)) outdir

omit empty

section counts

/-- `extract_count` of the second pass. -/
def extractedCount (sys : System) (outdir : Path) (policy : ExtractPolicy) : List (Member δ) → Nat → Disk δ → Nat
  | [], _, _ => 0
  | member :: members, writtenTotal, d =>
    match safeExtractOne sys outdir policy writtenTotal policy.maxTotalBytes (isManifestName member.name) member d with
    | .ok res d' => extractedCount sys outdir policy members (writtenTotal + res.extractedBytes) d' +
        if res.extractedPath.isSome then 1 else 0
    | .error _ _ => 0

/-- The members that are extracted in a run. -/
def extractedMembers (sys : System) (outdir : Path) (policy : ExtractPolicy) (maxMembers : Option Nat)
    (extractAll includeManifests : Bool) (members : List (Member δ)) (d : Disk δ) : Nat :=
  let plan := planned extractAll includeManifests members
  if within maxMembers members.length && !plan.isEmpty && within policy.maxTotalBytes (totalBytes plan) then
    extractedCount sys outdir policy plan 0 d
  else 0

theorem extractedCount_le (outdir : Path) (policy : ExtractPolicy) (members : List (Member δ)) (writtenTotal : Nat)
    (d : Disk δ) : extractedCount sys outdir policy members writtenTotal d ≤ members.length := by
  induction members generalizing writtenTotal d with
  | nil => exact Nat.le_refl 0
  | cons member members ih =>
    rw [extractedCount, List.length_cons]
    split
    · next res d' _ =>
      have rest := ih (writtenTotal + res.extractedBytes) d'
      split <;> omega
    · exact Nat.zero_le _

theorem extractedMembers_le {limit : Nat} (outdir : Path) (policy : ExtractPolicy) (extractAll includeManifests : Bool)
    (members : List (Member δ)) (d : Disk δ) :
    extractedMembers sys outdir policy (some limit) extractAll includeManifests members d ≤ limit := by
  rw [extractedMembers]
  split
  · next passed =>
    simp only [Bool.and_eq_true] at passed
    calc extractedCount sys outdir policy (planned extractAll includeManifests members) 0 d
        ≤ (planned extractAll includeManifests members).length := extractedCount_le outdir policy _ 0 d
      _ ≤ members.length := List.length_filter_le _ members
      _ ≤ limit := of_decide_eq_true passed.1.1
  · exact Nat.zero_le _

end counts

end RAW

section inputs

/-- A disk image that is not empty has one byte. -/
def byte (n : Nat) : Nat := if n = 0 then 0 else 1

/-- The output directory. -/
def fresh : Disk Nat := ⟨(∅ : Places Nat).insert out .dir, []⟩

theorem bounded_regular (name : String) : ∀ member ∈ [regular name], Bounded byte member := by
  intro member mem src stream
  rw [List.mem_singleton.mp mem] at stream ⊢
  cases stream
  exact le_rfl

end inputs

end H2kvm.Converters.Extract
