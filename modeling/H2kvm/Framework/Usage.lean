import Mathlib.Algebra.BigOperators.Group.Finset.Piecewise
import Mathlib.Algebra.Order.Group.Defs
import Mathlib.Tactic.Abel
import Mathlib.Algebra.BigOperators.Group.Finset.Basic
import Mathlib.Algebra.Order.BigOperators.Group.Finset
import H2kvm.Framework.FileOps

namespace H2kvm.Framework.Dwell

/-! How long a thing is in each of its states: a history lists the states it enters, oldest
first, each with the time it does. -/

section histories

variable {σ T : Type} {s : σ} {now : T}

/-- When the first of the entries was made, or the end if there is none. -/
def left (now : T) : List (σ × T) → T
  | [] => now
  | entry :: _ => entry.2

/-- Every stay in the state is over at once. -/
def Brief (s : σ) (now : T) (entries : List (σ × T)) : Prop :=
  ∀ before t after, entries = before ++ (s, t) :: after → left now after = t

theorem brief_cons {entry : σ × T} {later : List (σ × T)} :
    Brief s now (entry :: later) ↔ (entry.1 = s → left now later = entry.2) ∧ Brief s now later := by
  constructor
  · intro h
    constructor
    · rintro rfl
      exact h [] entry.2 later rfl
    · rintro before t after rfl
      exact h (entry :: before) t after rfl
  · rintro ⟨first, rest⟩ before t after split
    cases before with
    | nil =>
      obtain ⟨rfl, rfl⟩ := List.cons.inj split
      exact first rfl
    | cons e before =>
      obtain ⟨rfl, rfl⟩ := List.cons.inj split
      exact rest before t after rfl

variable [LinearOrder T]

/-- The entries were made in this order, the last one not after `now`. -/
def Ordered (now : T) (entries : List (σ × T)) : Prop := (entries.map Prod.snd ++ [now]).Pairwise (· ≤ ·)

theorem Ordered.tail {entry : σ × T} {later : List (σ × T)} (h : Ordered now (entry :: later)) : Ordered now later :=
  (List.pairwise_cons.mp h).2

theorem Ordered.of_append {before after : List (σ × T)} (h : Ordered now (before ++ after)) : Ordered now after := by
  rw [Ordered, List.map_append, List.append_assoc] at h
  exact (List.pairwise_append.mp h).2.1

theorem Ordered.le_left {entry : σ × T} {later : List (σ × T)} (h : Ordered now (entry :: later)) :
    entry.2 ≤ left now later := by
  have le := (List.pairwise_cons.mp h).1
  cases later with
  | nil => exact le now (by simp)
  | cons next later => exact le next.2 (by simp)

end histories

section durations

variable {σ T : Type} [DecidableEq σ] [AddCommGroup T] {s : σ} {now : T}

/-- The time spent in a state up to `now`. -/
def spent (s : σ) (now : T) : List (σ × T) → T
  | [] => 0
  | (a, t) :: later => (if a = s then left now later - t else 0) + spent s now later

theorem sum_spent (entries : List (σ × T)) (states : Finset σ) (h : ∀ entry ∈ entries, entry.1 ∈ states) :
    ∑ s ∈ states, spent s now entries = now - left now entries := by
  induction entries with
  | nil => simp [spent, left]
  | cons entry later ih =>
    obtain ⟨a, t⟩ := entry
    have mem : a ∈ states := h (a, t) List.mem_cons_self
    have rest := ih fun entry hentry => h entry (List.mem_cons_of_mem _ hentry)
    simp only [spent, Finset.sum_add_distrib, Finset.sum_ite_eq, mem, if_true, rest]
    rw [left]
    abel

theorem spent_append_cons {before after : List (σ × T)} {t : T} (h : s ∉ before.map Prod.fst) :
    spent s now (before ++ (s, t) :: after) = (left now after - t) + spent s now after := by
  induction before with
  | nil => rw [List.nil_append, spent, if_pos rfl]
  | cons entry before ih =>
    rw [List.map_cons, List.mem_cons] at h
    push Not at h
    rw [List.cons_append, spent, if_neg (Ne.symm h.1), zero_add, ih h.2]

variable [LinearOrder T] [IsOrderedAddMonoid T]

theorem spent_nonneg {entries : List (σ × T)} (h : Ordered now entries) : 0 ≤ spent s now entries := by
  induction entries with
  | nil => exact le_rfl
  | cons entry later ih =>
    have stay := sub_nonneg.mpr h.le_left
    have rest := ih h.tail
    rw [spent]
    split
    · exact add_nonneg stay rest
    · rwa [zero_add]

theorem spent_eq_zero_iff {entries : List (σ × T)} (h : Ordered now entries) :
    spent s now entries = 0 ↔ Brief s now entries := by
  induction entries with
  | nil => simp [spent, Brief]
  | cons entry later ih =>
    have stay := sub_nonneg.mpr h.le_left
    have rest := spent_nonneg (s := s) h.tail
    rw [brief_cons, ← ih h.tail, spent]
    split
    · next same => rw [add_eq_zero_iff_of_nonneg stay rest, sub_eq_zero]; simp [same]
    · next other => simp [other]

end durations

end H2kvm.Framework.Dwell

namespace H2kvm.Framework.FileTree

open Paths

variable {δ ε ε' α β : Type} (size : δ → Nat)

/-- The size of the regular file at a place, if one is there. -/
def fileSize (t : Places δ) (p : Path) : Nat :=
  match node t p with
  | some (.file data) => size data
  | _ => 0

/-- Something was put at the place. -/
def Effect.writes : Effect → Bool
  | .created | .overwritten | .truncated => true
  | .unlinked | .chmodded _ => false

/-- The places written between two states. -/
def written (d d' : Disk δ) : Finset Path :=
  (((d'.log.drop d.log.length).filter (·.effect.writes)).map (·.location)).toFinset

/-- The total size of the regular files that were written and are left. -/
def usage (d d' : Disk δ) : Nat := ∑ p ∈ written d d', fileSize size d'.tree p

/-- At most so many bytes are added to any places, those written included, and what was written is within the limit. -/
structure Adds (limit : Option Nat) (n : Nat) (d d' : Disk δ) : Prop where
  log : d.log <+: d'.log
  load : ∀ S : Finset Path, ∑ p ∈ S ∪ written d d', fileSize size d'.tree p ≤ ∑ p ∈ S, fileSize size d.tree p + n
  single : ∀ p, limit.all (fileSize size d'.tree p ≤ ·) ∨
    p ∉ written d d' ∧ fileSize size d'.tree p = fileSize size d.tree p

variable {size} {limit : Option Nat} {n m : Nat} {d d' d'' : Disk δ} {t : Places δ} {p q r : Path} {e : Effect} {hops : Nat}

theorem written_refl (d : Disk δ) : written d d = ∅ := by simp [written]

theorem written_trans (first : d.log <+: d'.log) (second : d'.log <+: d''.log) :
    written d d'' = written d d' ∪ written d' d'' := by
  obtain ⟨new, grown⟩ := first
  obtain ⟨new', grown'⟩ := second
  rw [written, written, written, ← grown', List.drop_left, ← grown, List.append_assoc, List.drop_left, List.drop_left,
    List.filter_append, List.map_append, List.toFinset_append]

theorem mem_written_of_later (first : d.log <+: d'.log) (second : d'.log <+: d''.log) (member : p ∈ written d d') :
    p ∈ written d d'' := by
  rw [written_trans first second]
  exact Finset.mem_union_left _ member

theorem written_concat (logged : d'.log = d.log ++ [⟨e, p⟩]) : written d d' = if e.writes then {p} else ∅ := by
  rw [written, logged, List.drop_left]
  cases writes : e.writes <;> simp [writes]

namespace Adds

theorem refl (d : Disk δ) : Adds size limit 0 d d :=
  ⟨List.prefix_rfl, fun S => by simp [written_refl], fun p => .inr ⟨by simp [written_refl], rfl⟩⟩

theorem trans (first : Adds size limit n d d') (second : Adds size limit m d' d'') : Adds size limit (n + m) d d'' := by
  have writes := written_trans first.log second.log
  refine ⟨first.log.trans second.log, fun S => ?_, fun p => ?_⟩
  · rw [writes, ← Finset.union_assoc]
    calc ∑ p ∈ S ∪ written d d' ∪ written d' d'', fileSize size d''.tree p
        ≤ ∑ p ∈ S ∪ written d d', fileSize size d'.tree p + m := second.load _
      _ ≤ ∑ p ∈ S, fileSize size d.tree p + n + m := Nat.add_le_add_right (first.load S) m
      _ = ∑ p ∈ S, fileSize size d.tree p + (n + m) := Nat.add_assoc ..
  · rcases second.single p with small | ⟨unwritten', same'⟩
    · exact .inl small
    · rcases first.single p with small | ⟨unwritten, same⟩
      · exact .inl (by rwa [same'])
      · exact .inr ⟨by simp [writes, unwritten, unwritten'], same'.trans same⟩

theorem mono (adds : Adds size limit n d d') (more : n ≤ m) : Adds size limit m d d' :=
  ⟨adds.log, fun S => (adds.load S).trans (Nat.add_le_add_left more _), adds.single⟩

theorem usage_le (adds : Adds size limit n d d') : usage size d d' ≤ n := by
  simpa [usage] using adds.load ∅

theorem all_of_mem_written (adds : Adds size limit n d d') (member : p ∈ written d d') :
    limit.all (fileSize size d'.tree p ≤ ·) :=
  (adds.single p).elim id fun other => absurd member other.1

/-- One place changes to one of a size. -/
theorem change (logged : d'.log = d.log ++ [⟨e, p⟩]) (same : ∀ q, q ≠ p → fileSize size d'.tree q = fileSize size d.tree q)
    (small : fileSize size d'.tree p ≤ n) (within : limit.all (fileSize size d'.tree p ≤ ·)) : Adds size limit n d d' := by
  have writes : written d d' ⊆ {p} := by
    rw [written_concat logged]
    split <;> simp
  refine ⟨⟨[⟨e, p⟩], logged.symm⟩, fun S => ?_, fun q => ?_⟩
  · calc ∑ q ∈ S ∪ written d d', fileSize size d'.tree q
        ≤ ∑ q ∈ insert p S, fileSize size d'.tree q := by
          refine Finset.sum_le_sum_of_subset fun q member => ?_
          rcases Finset.mem_union.mp member with old | new
          · exact Finset.mem_insert_of_mem old
          · exact Finset.mem_insert.mpr (.inl (Finset.mem_singleton.mp (writes new)))
      _ = ∑ q ∈ S.erase p, fileSize size d'.tree q + fileSize size d'.tree p := by
          rw [← Finset.add_sum_erase _ _ (Finset.mem_insert_self p S), Finset.erase_insert_eq_erase, Nat.add_comm]
      _ = ∑ q ∈ S.erase p, fileSize size d.tree q + fileSize size d'.tree p := by
          congr 1
          exact Finset.sum_congr rfl fun q member => same q (Finset.ne_of_mem_erase member)
      _ ≤ ∑ q ∈ S, fileSize size d.tree q + n :=
          Nat.add_le_add (Finset.sum_le_sum_of_subset (Finset.erase_subset p S)) small
  · by_cases here : q = p
    · exact .inl (here ▸ within)
    · exact .inr ⟨fun member => here (Finset.mem_singleton.mp (writes member)), same q here⟩

variable {n : Node δ}

theorem put {k : Nat} (named : p ≠ []) (small : fileSize size (d.put p n e).tree p ≤ k)
    (within : limit.all (fileSize size (d.put p n e).tree p ≤ ·)) : Adds size limit k d (d.put p n e) := by
  refine change rfl (fun q other => ?_) small within
  rw [fileSize, fileSize, Disk.put, node_insert named, if_neg other]

theorem drop (named : p ≠ []) : Adds size limit 0 d (d.drop p) := by
  have gone : fileSize size (d.drop p).tree p = 0 := by rw [fileSize, Disk.drop, node_erase named, if_pos rfl]
  refine change rfl (fun q other => ?_) gone.le ?_
  · rw [fileSize, fileSize, Disk.drop, node_erase named, if_neg other]
  · rw [gone]
    cases limit <;> simp

theorem note (unwritten : e.writes = false ∨ fileSize size d.tree p = 0) : Adds size limit 0 d (d.note p e) := by
  rcases unwritten with reads | none
  · have logged : (d.note p e).log = d.log ++ [⟨e, p⟩] := rfl
    have empty : written d (d.note p e) = ∅ := by simp [written_concat logged, reads]
    exact ⟨⟨_, rfl⟩, fun S => by rw [empty, Finset.union_empty]; exact le_rfl, fun q => .inr ⟨by simp [empty], rfl⟩⟩
  · refine change rfl (fun _ _ => rfl) none.le ?_
    rw [Disk.note, none]
    cases limit <;> simp

end Adds

instance : IsPreorder (Disk δ) fun d d' => ∃ n, Adds size limit n d d' where
  refl d := ⟨0, .refl d⟩
  trans _ _ _ := fun ⟨n, first⟩ ⟨m, second⟩ => ⟨n + m, first.trans second⟩

/-- Code that adds at most so many bytes, wherever it stops. -/
def Costs (size : δ → Nat) (limit : Option Nat) (n : Nat) (x : EStateM ε (Disk δ) α) : Prop :=
  ∀ d, Adds size limit n d (endState x d)

namespace Costs

theorem of_reads {x : EStateM ε (Disk δ) α} (reads : Reads x) : Costs size limit 0 x := fun d => by
  rw [reads d]
  exact .refl d

theorem mono {x : EStateM ε (Disk δ) α} (costs : Costs size limit n x) (more : n ≤ m) : Costs size limit m x := fun d =>
  (costs d).mono more

theorem bind {x : EStateM ε (Disk δ) α} {f : α → EStateM ε (Disk δ) β} (first : Costs size limit n x)
    (second : ∀ a, Costs size limit m (f a)) : Costs size limit (n + m) (x >>= f) := fun d => by
  have one := first d
  cases run : x d with
  | ok a d' =>
    rw [endState_of_ok run] at one
    rw [endState, bind_of_ok run]
    exact one.trans (second a d')
  | error e d' =>
    rw [endState_of_error run] at one
    rw [endState_of_error (bind_of_error run)]
    exact one.mono (Nat.le_add_right n m)

theorem free_bind {x : EStateM ε (Disk δ) α} {f : α → EStateM ε (Disk δ) β} (first : Costs size limit 0 x)
    (second : ∀ a, Costs size limit n (f a)) : Costs size limit n (x >>= f) :=
  (first.bind second).mono (Nat.zero_add n).le

theorem bind_free {x : EStateM ε (Disk δ) α} {f : α → EStateM ε (Disk δ) β} (first : Costs size limit n x)
    (second : ∀ a, Costs size limit 0 (f a)) : Costs size limit n (x >>= f) := first.bind second

/-- What only reads before costs nothing, and what it lets pass can be used. -/
theorem reads_bind {x : EStateM ε (Disk δ) α} {f : α → EStateM ε (Disk δ) β} (reads : Reads x)
    (second : ∀ a d, x d = .ok a d → Costs size limit n (f a)) : Costs size limit n (x >>= f) := fun d => by
  cases run : x d with
  | ok a d' =>
    obtain rfl := reads.of_ok run
    rw [endState, bind_of_ok run]
    exact second a _ run _
  | error e d' =>
    rw [endState_of_error (bind_of_error run), ← endState_of_error run, reads d]
    exact (Adds.refl d).mono (Nat.zero_le n)

/-- What is done about a failure costs nothing. -/
theorem adds_tryCatch {x : EStateM ε (Disk δ) α} {handle : ε → EStateM ε (Disk δ) α}
    (first : Adds size limit n d (endState x d)) (second : ∀ e, Costs size limit 0 (handle e)) : Adds size limit n d (endState (MonadExcept.tryCatch x handle) d) := by
  cases run : x d with
  | ok a d' =>
    rw [endState_of_ok run] at first
    rwa [endState_of_ok (tryCatch_of_ok run)]
  | error e d' =>
    rw [endState_of_error run] at first
    rw [endState, tryCatch_of_error run]
    exact first.trans (second e d')

theorem tryCatch {x : EStateM ε (Disk δ) α} {handle : ε → EStateM ε (Disk δ) α} (first : Costs size limit n x)
    (second : ∀ e, Costs size limit 0 (handle e)) : Costs size limit n (tryCatch x handle) := fun d =>
  adds_tryCatch (first d) second

theorem suppress {x : EStateM ε (Disk δ) Unit} (costs : Costs size limit n x) :
    Costs size limit n (Framework.suppress x : EStateM ε' (Disk δ) Unit) := costs

/-- A loop costs what its rounds cost. -/
theorem foldlM {body : β → α → EStateM ε (Disk δ) β} {cost : α → Nat} {as : List α}
    (each : ∀ b, ∀ a ∈ as, Costs size limit (cost a) (body b a)) (b : β) :
    Costs size limit (as.map cost).sum (as.foldlM body b) := by
  induction as generalizing b with
  | nil => exact of_reads (Reads.of_pure b)
  | cons a as ih =>
    rw [List.foldlM_cons, List.map_cons, List.sum_cons]
    refine (each b a List.mem_cons_self).bind fun b' => ih (fun b other member => ?_) b'
    exact each b other (List.mem_cons_of_mem a member)

end Costs

section calls

theorem fileSize_of_not_dir (nodir : p ≠ []) {n : Node δ} (plain : ∀ data, n ≠ .file data) :
    fileSize size (d.put p n e).tree p = 0 := by
  rw [fileSize, Disk.put, node_insert nodir, if_pos rfl]
  cases n with
  | file data => exact absurd rfl (plain data)
  | _ => rfl

theorem fileSize_put_file (named : p ≠ []) (data : δ) : fileSize size (d.put p (.file data) e).tree p = size data := by
  rw [fileSize, Disk.put, node_insert named, if_pos rfl]

theorem within_zero (limit : Option Nat) : limit.all ((0 : Nat) ≤ ·) := by cases limit <;> simp

theorem costs_mkdir (p : Path) : Costs size limit 0 (mkdir hops p : Call δ Unit) := fun d => by
  unfold endState mkdir
  cases place hops d.tree p with
  | error e => exact .refl d
  | ok r =>
    dsimp only
    cases free : node d.tree r with
    | some n => exact .refl d
    | none =>
      have named := ne_nil_of_not_dir (isDir_of_none free)
      have none : fileSize size (d.put r .dir .created).tree r = 0 := fileSize_of_not_dir named nofun
      exact .put named none.le (by rw [none]; exact within_zero limit)

theorem costs_mkdirOnce (p : Path) : Costs size limit 0 (mkdirOnce hops p : Call δ Unit) :=
  (costs_mkdir p).tryCatch fun _ => .of_reads (Reads.of_get.bind fun _ => Reads.of_require _ _)

theorem costs_mkdirUp (p : Path) : Costs size limit 0 (mkdirUp hops p : Call δ Unit) := by
  induction p with
  | nil => exact costs_mkdirOnce []
  | cons c above ih =>
    refine (costs_mkdirOnce _).tryCatch fun e => ?_
    split
    · exact ih.bind fun _ => costs_mkdirOnce _
    · exact .of_reads fun _ => rfl

theorem costs_mkdirs (p : Path) : Costs size limit 0 (mkdirs hops p : Call δ Unit) := costs_mkdirUp p.reverse

theorem costs_unlink (p : Path) : Costs size limit 0 (unlink hops p : Call δ Unit) := fun d => by
  unfold endState unlink
  cases place hops d.tree p with
  | error e => exact .refl d
  | ok r =>
    dsimp only
    cases (node d.tree r).isNone with
    | true => exact .refl d
    | false =>
      cases nodir : isDir d.tree r with
      | true => exact .refl d
      | false => exact .drop (ne_nil_of_not_dir nodir)

theorem costs_chmod (p : Path) (mode : Nat) : Costs size limit 0 (chmod hops p mode : Call δ Unit) := fun d => by
  unfold endState chmod
  cases resolve .kernel d.tree hops [] p with
  | error e => exact .refl d
  | ok r =>
    dsimp only
    cases (node d.tree r).isSome with
    | true => exact .note (.inl rfl)
    | false => exact .refl d

theorem costs_write {data : δ} (r : Path) (small : limit.all (size data ≤ ·)) :
    Costs size limit (size data) (write r data) := fun d => by
  unfold endState write
  cases found : node d.tree r with
  | none => exact (Adds.note (.inr (by rw [fileSize, found]))).mono (Nat.zero_le _)
  | some n =>
    cases n with
    | file old =>
      have named := ne_nil_of_not_dir (plain_of_file found).1
      have same : fileSize size (d.put r (.file data) .overwritten).tree r = size data := fileSize_put_file named data
      exact .put named same.le (by rw [same]; exact small)
    | _ => exact (Adds.note (.inr (by rw [fileSize, found]))).mono (Nat.zero_le _)

variable [Inhabited δ] (empty : size default = 0)
include empty

theorem adds_put_default (named : p ≠ []) : Adds size limit 0 d (d.put p (.file default) e) := by
  have none : fileSize size (d.put p (.file default) e).tree p = 0 := (fileSize_put_file named default).trans empty
  exact .put named none.le (by rw [none]; exact within_zero limit)

theorem costs_openNew (p : Path) : Costs size limit 0 (openNew hops p : Call δ Path) := fun d => by
  unfold endState openNew
  cases place hops d.tree p with
  | error e => exact .refl d
  | ok r =>
    dsimp only
    cases free : node d.tree r with
    | some n => exact .refl d
    | none => exact adds_put_default empty (ne_nil_of_not_dir (isDir_of_none free))

theorem costs_openOver (follows : Bool) (p : Path) : Costs size limit 0 (openOver hops follows p : Call δ Path) := fun d => by
  unfold endState openOver
  cases (if follows then resolve .kernel d.tree hops [] p else place hops d.tree p) with
  | error e => exact .refl d
  | ok r =>
    dsimp only
    cases found : node d.tree r with
    | none => exact adds_put_default empty (ne_nil_of_not_dir (isDir_of_none found))
    | some n =>
      cases n with
      | dir | link _ _ => exact .refl d
      | file _ => exact adds_put_default empty (ne_nil_of_not_dir (plain_of_file found).1)
      | special => exact .note (.inr (by rw [fileSize, found]))

end calls

theorem sum_moved {w w' : Path → Nat} {S : Finset Path} {s dest : Path} (member : s ∈ S) (other : s ≠ dest) (gone : w' s = 0)
    (there : w' dest = w s) (same : ∀ q, q ≠ s → q ≠ dest → w' q = w q) :
    ∑ q ∈ insert dest S, w' q ≤ ∑ q ∈ S, w q := by
  have inner : s ∈ S.erase dest := Finset.mem_erase.mpr ⟨other, member⟩
  calc ∑ q ∈ insert dest S, w' q = w s + ∑ q ∈ S.erase dest, w' q := by
        rw [← Finset.add_sum_erase _ _ (Finset.mem_insert_self dest S), Finset.erase_insert_eq_erase, there]
    _ = w s + ∑ q ∈ (S.erase dest).erase s, w' q := by
        rw [← Finset.add_sum_erase _ _ inner, gone, Nat.zero_add]
    _ = w s + ∑ q ∈ (S.erase dest).erase s, w q := by
        congr 1
        refine Finset.sum_congr rfl fun q mem => ?_
        obtain ⟨notS, mem⟩ := Finset.mem_erase.mp mem
        exact same q notS (Finset.ne_of_mem_erase mem)
    _ = ∑ q ∈ S.erase dest, w q := Finset.add_sum_erase _ _ inner
    _ ≤ ∑ q ∈ S, w q := Finset.sum_le_sum_of_subset (Finset.erase_subset dest S)

/-- What was written is moved on. -/
theorem Adds.move (adds : Adds size limit n d d') (member : r ∈ written d d')
    (placed : ∀ s, place hops d'.tree p = .ok s → s = r) : Adds size limit n d (endState (replace hops p q) d') := by
  unfold endState replace
  cases source : place hops d'.tree p with
  | error e => exact adds
  | ok s =>
    obtain rfl := placed s source
    cases place hops d'.tree q with
    | error e => exact adds
    | ok dest =>
      dsimp only
      cases found : node d'.tree s with
      | none => exact adds
      | some moved =>
        dsimp only
        cases isD : isDir d'.tree s || isDir d'.tree dest with
        | true => exact adds
        | false =>
          obtain ⟨nodir, nodir'⟩ := Bool.or_eq_false_iff.mp isD
          by_cases same : s = dest
          · rw [if_pos same]
            exact adds
          · rw [if_neg same, if_neg Bool.false_ne_true]
            generalize (if (node d'.tree dest).isSome then Effect.overwritten else Effect.created) = e
            have nodes (q : Path) : node ((d'.put dest moved e).drop s).tree q =
                if q = s then none else if q = dest then some moved else node d'.tree q := by
              rw [Disk.drop, node_erase (ne_nil_of_not_dir nodir), Disk.put, node_insert (ne_nil_of_not_dir nodir')]
            have gone : fileSize size ((d'.put dest moved e).drop s).tree s = 0 := by rw [fileSize, nodes, if_pos rfl]
            have there : fileSize size ((d'.put dest moved e).drop s).tree dest = fileSize size d'.tree s := by
              rw [fileSize, nodes, if_neg (Ne.symm same), if_pos rfl, fileSize, found]
            have others (q : Path) (notS : q ≠ s) (notDest : q ≠ dest) :
                fileSize size ((d'.put dest moved e).drop s).tree q = fileSize size d'.tree q := by
              rw [fileSize, nodes, if_neg notS, if_neg notDest, fileSize]
            have first : written d' (d'.put dest moved e) ⊆ {dest} := by
              rw [written_concat rfl]
              split <;> simp
            have last : written (d'.put dest moved e) ((d'.put dest moved e).drop s) = ∅ := by rw [written_concat rfl]; rfl
            have log' : d'.log <+: (d'.put dest moved e).log := ⟨_, rfl⟩
            have log'' : (d'.put dest moved e).log <+: ((d'.put dest moved e).drop s).log := ⟨_, rfl⟩
            have writes : written d ((d'.put dest moved e).drop s) ⊆ insert dest (written d d') := by
              rw [written_trans (adds.log.trans log') log'', last, written_trans adds.log log', Finset.union_empty]
              exact Finset.union_subset (Finset.subset_insert _ _) (first.trans (by simp))
            refine ⟨adds.log.trans (log'.trans log''), fun S => ?_, fun q => ?_⟩
            · calc ∑ q ∈ S ∪ written d ((d'.put dest moved e).drop s), fileSize size ((d'.put dest moved e).drop s).tree q
                  ≤ ∑ q ∈ insert dest (S ∪ written d d'), fileSize size ((d'.put dest moved e).drop s).tree q := by
                    refine Finset.sum_le_sum_of_subset (Finset.union_subset ?_ (writes.trans ?_))
                    · exact Finset.subset_union_left.trans (Finset.subset_insert _ _)
                    · exact Finset.insert_subset_insert _ Finset.subset_union_right
                _ ≤ ∑ q ∈ S ∪ written d d', fileSize size d'.tree q :=
                    sum_moved (Finset.mem_union_right S member) same gone there others
                _ ≤ ∑ q ∈ S, fileSize size d.tree q + n := adds.load S
            · by_cases isS : q = s
              · exact .inl (by rw [isS, gone]; exact within_zero limit)
              by_cases isDest : q = dest
              · exact .inl (by rw [isDest, there]; exact adds.all_of_mem_written member)
              rcases adds.single q with small | ⟨unwritten, kept⟩
              · rw [others q isS isDest]
                exact .inl small
              · refine .inr ⟨fun mem => ?_, (others q isS isDest).trans kept⟩
                exact (Finset.mem_insert.mp (writes mem)).elim isDest unwritten

end H2kvm.Framework.FileTree
