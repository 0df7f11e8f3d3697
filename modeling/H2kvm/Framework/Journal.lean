import Mathlib.Data.List.Nodup
import H2kvm.Framework.Run

namespace H2kvm.Framework.Journal

/-- How the writing of a line ends: nothing of it is in the file, all of it, all but its end, or a piece that cannot be
read, alone or with the line that is written next. -/
inductive Ending where
  | lost
  | whole
  | unended
  | torn
  deriving DecidableEq

/-- The process is started anew, or asked for a record. -/
inductive Move (κ : Type) where
  | restart
  | call (args : κ) (ending : Ending)

/-- A file of lines, where `none` is one that cannot be read, and the counter of the process. -/
structure Log (τ : Type) where
  count : Nat := 0
  lines : List (Option τ) := []
  ended : Bool := true

/-- How records are made, from the counter, and written. -/
structure Format (κ ρ τ : Type) where
  make : Nat → κ → ρ
  write : ρ → τ
  read : τ → Option ρ
  read_write : ∀ r, read (write r) = some r

variable {κ ρ τ ι : Type}

namespace Log

/-- A line is put at the end of the file, on to a line that was not ended. -/
def put (log : Log τ) (line : Option τ) (ended : Bool) : Log τ :=
  if log.ended then { log with lines := log.lines ++ [line], ended := ended }
  else { log with lines := log.lines.dropLast ++ [none], ended := ended }

def append (log : Log τ) (text : τ) : Ending → Log τ
  | .lost => log
  | .whole => log.put (some text) true
  | .unended => log.put (some text) false
  | .torn => log.put none false

end Log

variable (F : Format κ ρ τ)

def step (log : Log τ) : Move κ → Log τ
  | .restart => { log with count := 0 }
  | .call args ending => { log.append (F.write (F.make (log.count + 1) args)) ending with count := log.count + 1 }

/-- What is read, up to the first line that cannot be. -/
def readAll : List (Option τ) → List ρ
  | some text :: lines =>
    match F.read text with
    | some r => r :: readAll lines
    | none => []
  | _ => []

def records (log : Log τ) : List ρ := readAll F log.lines

/-- The records the calls make. -/
def made (count : Nat) : List (Move κ) → List ρ
  | [] => []
  | .restart :: moves => made 0 moves
  | .call args _ :: moves => F.make (count + 1) args :: made (count + 1) moves

def endings (moves : List (Move κ)) : List Ending :=
  moves.filterMap fun
    | .restart => none
    | .call _ ending => some ending

/-- Each line is written whole; of the last one the end may be missing. -/
def Written (moves : List (Move κ)) : Prop :=
  (∀ e ∈ (endings moves).dropLast, e = .whole) ∧ ∀ e ∈ (endings moves).getLast?, e = .whole ∨ e = .unended

/-- No call comes after a restart any more. -/
def Silent : List (Move κ) → Prop
  | [] => True
  | .restart :: moves => Silent moves
  | .call _ _ :: _ => False

/-- The process that has made a call makes those that follow. -/
def Continued : List (Move κ) → Prop
  | [] => True
  | .restart :: moves => Silent moves
  | .call _ _ :: moves => Continued moves

/-- No two processes make calls. -/
def OneProcess : List (Move κ) → Prop
  | [] => True
  | .restart :: moves => OneProcess moves
  | .call _ _ :: moves => Continued moves

variable {F} {moves : List (Move κ)} {lines : List (Option τ)} {log : Log τ} {count : Nat}

/-! ### The records -/

theorem readAll_concat_none (lines : List (Option τ)) : readAll F (lines ++ [none]) = readAll F lines := by
  induction lines with
  | nil => rfl
  | cons line lines ih =>
    cases line with
    | none => rfl
    | some text =>
      simp only [List.cons_append, readAll]
      rw [ih]

theorem readAll_prefix (lines more : List (Option τ)) : readAll F lines <+: readAll F (lines ++ more) := by
  induction lines with
  | nil => exact List.nil_prefix
  | cons line lines ih =>
    cases line with
    | none => exact List.nil_prefix
    | some text =>
      simp only [List.cons_append, readAll]
      cases F.read text with
      | none => exact List.nil_prefix
      | some r => exact List.cons_prefix_cons.mpr ⟨rfl, ih⟩

theorem length_readAll_concat (lines : List (Option τ)) (line : Option τ) :
    (readAll F (lines ++ [line])).length ≤ (readAll F lines).length + 1 := by
  induction lines with
  | nil =>
    cases line with
    | none => exact Nat.zero_le _
    | some text =>
      rw [List.nil_append, readAll]
      cases F.read text with
      | none => exact Nat.zero_le _
      | some r => exact le_rfl
  | cons first lines ih =>
    cases first with
    | none => exact Nat.zero_le _
    | some text =>
      simp only [List.cons_append, readAll]
      cases F.read text with
      | none => exact Nat.zero_le _
      | some r => exact Nat.succ_le_succ ih

theorem readAll_written (rs : List ρ) : readAll F (rs.map fun r => some (F.write r)) = rs := by
  induction rs with
  | nil => rfl
  | cons r rs ih =>
    rw [List.map_cons, readAll, F.read_write]
    dsimp only
    rw [ih]

/-- What is put on to a line that was not ended cannot be read. -/
theorem length_records_put (unended : log.ended = false) (line : Option τ) (ended : Bool) :
    (records F (log.put line ended)).length ≤ (records F log).length := by
  unfold Log.put records
  rw [if_neg (by simp [unended])]
  dsimp only
  rw [readAll_concat_none, List.dropLast_eq_take]
  have less := readAll_prefix (F := F) (log.lines.take (log.lines.length - 1)) (log.lines.drop (log.lines.length - 1))
  rw [List.take_append_drop] at less
  exact less.length_le

theorem length_records_append (log : Log τ) (text : τ) (ending : Ending) :
    (records F (log.append text ending)).length ≤ (records F log).length + 1 := by
  have put (line : Option τ) (ended : Bool) : (records F (log.put line ended)).length ≤ (records F log).length + 1 := by
    cases before : log.ended with
    | false => exact (length_records_put before line ended).trans (Nat.le_succ _)
    | true =>
      unfold Log.put records
      rw [if_pos before]
      exact length_readAll_concat log.lines line
  cases ending with
  | lost => exact Nat.le_succ _
  | whole => exact put _ _
  | unended => exact put _ _
  | torn => exact put _ _

/-- The counter after some moves. -/
def counted (count : Nat) : List (Move κ) → Nat
  | [] => count
  | .restart :: moves => counted 0 moves
  | .call _ _ :: moves => counted (count + 1) moves

theorem made_append (moves more : List (Move κ)) :
    made F count (moves ++ more) = made F count moves ++ made F (counted count moves) more := by
  induction moves generalizing count with
  | nil => rfl
  | cons move moves ih =>
    cases move with
    | restart => exact ih
    | call args ending =>
      simp only [List.cons_append, made, counted]
      rw [ih]

theorem count_run (log : Log τ) (moves : List (Move κ)) : (run (step F) log moves).count = counted log.count moves := by
  induction moves generalizing log with
  | nil => rfl
  | cons move moves ih =>
    rw [run_cons, ih]
    cases move <;> rfl

theorem endings_append (moves more : List (Move κ)) : endings (moves ++ more) = endings moves ++ endings more :=
  List.filterMap_append

variable (F) in
/-- Where all lines are whole the file holds the records, and it does so too where the end of the last is missing; in all
other cases some record cannot be read. -/
inductive Holds (log : Log τ) (moves : List (Move κ)) : Prop
  | whole (all : ∀ e ∈ endings moves, e = .whole) (ended : log.ended = true)
    (lines : log.lines = (made F 0 moves).map fun r => some (F.write r))
  | unended (before : ∀ e ∈ (endings moves).dropLast, e = .whole) (last : (endings moves).getLast? = some .unended)
    (ended : log.ended = false) (lines : log.lines = (made F 0 moves).map fun r => some (F.write r))
  | short (unwritten : ¬ Written moves) (less : (records F log).length < (made F 0 moves).length)

theorem written_of_whole (all : ∀ e ∈ endings moves, e = .whole) : Written moves :=
  ⟨fun e member => all e (List.dropLast_subset _ member), fun e last => .inl (all e (List.mem_of_getLast? last))⟩

theorem written_concat_iff {args : κ} {ending : Ending} : Written (moves ++ [.call args ending]) ↔
    (∀ e ∈ endings moves, e = .whole) ∧ (ending = .whole ∨ ending = .unended) := by
  have last : endings (moves ++ [.call args ending]) = endings moves ++ [ending] := endings_append _ _
  unfold Written
  rw [last, List.dropLast_concat, List.getLast?_concat]
  simp

theorem holds_call (args : κ) (ending : Ending) (count : log.count = counted 0 moves) (holds : Holds F log moves) :
    Holds F (step F log (.call args ending)) (moves ++ [.call args ending]) := by
  have last : endings (moves ++ [.call args ending]) = endings moves ++ [ending] := endings_append _ _
  have new : made F 0 (moves ++ [.call args ending]) = made F 0 moves ++ [F.make (log.count + 1) args] := by
    rw [made_append, count]
    rfl
  have short (unwritten : ¬ Written (moves ++ [.call args ending]))
      (few : (records F (log.append (F.write (F.make (log.count + 1) args)) ending)).length ≤ (made F 0 moves).length) :
      Holds F (step F log (.call args ending)) (moves ++ [.call args ending]) := by
    refine .short unwritten ?_
    rw [new, List.length_append]
    exact Nat.lt_succ_of_le few
  cases holds with
  | whole all ended lines =>
    have held : records F log = made F 0 moves := by
      rw [records, lines, readAll_written]
    cases ending with
    | lost => exact short (fun written => by simpa using (written_concat_iff.mp written).2) (by rw [← held]; rfl)
    | torn =>
      refine short (fun written => by simpa using (written_concat_iff.mp written).2) ?_
      rw [← held, Log.append, Log.put, if_pos ended, records, readAll_concat_none]
      rfl
    | whole =>
      refine .whole ?_ ?_ ?_
      · rw [last]
        intro e member
        obtain old | same := List.mem_append.mp member
        · exact all e old
        · exact List.mem_singleton.mp same
      · simp [step, Log.append, Log.put, ended]
      · simp [step, Log.append, Log.put, ended, new, lines]
    | unended =>
      refine .unended ?_ ?_ ?_ ?_
      · rw [last, List.dropLast_concat]
        exact all
      · rw [last, List.getLast?_concat]
      · simp [step, Log.append, Log.put, ended]
      · simp [step, Log.append, Log.put, ended, new, lines]
  | unended before missing ended lines =>
    have held : records F log = made F 0 moves := by
      rw [records, lines, readAll_written]
    refine short (fun written => ?_) ?_
    · have := (written_concat_iff.mp written).1 _ (List.mem_of_getLast? missing)
      cases this
    · rw [← held]
      cases ending with
      | lost => exact le_rfl
      | whole => exact length_records_put ended _ _
      | unended => exact length_records_put ended _ _
      | torn => exact length_records_put ended _ _
  | short unwritten few =>
    exact short (fun written => unwritten (written_of_whole (written_concat_iff.mp written).1))
      ((length_records_append log _ ending).trans few)

theorem holds_run (moves : List (Move κ)) : Holds F (run (step F) {} moves) moves := by
  induction moves using List.reverseRecOn with
  | nil => exact .whole nofun rfl rfl
  | append_singleton moves move ih =>
    rw [run_concat]
    cases move with
    | restart =>
      have same : endings (moves ++ [.restart]) = endings moves := by
        rw [endings_append]
        exact List.append_nil _
      have made_same : made F 0 (moves ++ [.restart]) = made F 0 moves := by
        rw [made_append]
        exact List.append_nil _
      cases ih with
      | whole all ended lines => exact .whole (same ▸ all) ended (made_same ▸ lines)
      | unended before last ended lines => exact .unended (same ▸ before) (same ▸ last) ended (made_same ▸ lines)
      | short unwritten less => exact .short (by rwa [Written, same]) (made_same ▸ less)
    | call args ending => exact holds_call args ending (count_run {} moves) ih

theorem records_eq_iff (moves : List (Move κ)) : records F (run (step F) {} moves) = made F 0 moves ↔ Written moves := by
  cases holds_run (F := F) moves with
  | whole all ended lines =>
    refine iff_of_true ?_ (written_of_whole all)
    rw [records, lines, readAll_written]
  | unended before last ended lines =>
    refine iff_of_true ?_ ⟨before, fun e same => ?_⟩
    · rw [records, lines, readAll_written]
    · rw [last] at same
      cases same
      exact .inr rfl
  | short unwritten less => exact iff_of_false (fun same => absurd less (by rw [same]; exact lt_irrefl _)) unwritten

/-! ### The numbers -/

/-- The number each call gives its record. -/
def numbers (count : Nat) : List (Move κ) → List Nat
  | [] => []
  | .restart :: moves => numbers 0 moves
  | .call _ _ :: moves => (count + 1) :: numbers (count + 1) moves

theorem numbers_silent (silent : Silent moves) : numbers count moves = [] := by
  induction moves generalizing count with
  | nil => rfl
  | cons move moves ih =>
    cases move with
    | restart => exact ih silent
    | call args ending => exact silent.elim

theorem one_mem_numbers (sounds : ¬ Silent moves) : 1 ∈ numbers 0 moves := by
  induction moves with
  | nil => exact absurd trivial sounds
  | cons move moves ih =>
    cases move with
    | restart => exact ih sounds
    | call args ending => exact List.mem_cons_self

theorem numbers_continued (continued : Continued moves) :
    (numbers count moves).Nodup ∧ ∀ n ∈ numbers count moves, count < n := by
  induction moves generalizing count with
  | nil => exact ⟨List.nodup_nil, nofun⟩
  | cons move moves ih =>
    cases move with
    | restart =>
      rw [numbers, numbers_silent continued]
      exact ⟨List.nodup_nil, nofun⟩
    | call args ending =>
      have after : (numbers (count + 1) moves).Nodup ∧ ∀ n ∈ numbers (count + 1) moves, count + 1 < n := ih continued
      obtain ⟨nodup, later⟩ := after
      refine ⟨List.nodup_cons.mpr ⟨fun member => lt_irrefl _ (later _ member), nodup⟩, ?_⟩
      intro n member
      obtain rfl | member := List.mem_cons.mp member
      · exact Nat.lt_succ_self count
      · exact (Nat.lt_succ_self count).trans (later n member)

theorem one_mem_of_not_continued (anew : ¬ Continued moves) : 1 ∈ numbers count moves := by
  induction moves generalizing count with
  | nil => exact absurd trivial anew
  | cons move moves ih =>
    cases move with
    | restart => exact one_mem_numbers anew
    | call args ending => exact List.mem_cons_of_mem _ (ih anew)

theorem numbers_nodup_iff (moves : List (Move κ)) : (numbers 0 moves).Nodup ↔ OneProcess moves := by
  induction moves with
  | nil => exact iff_of_true List.nodup_nil trivial
  | cons move moves ih =>
    cases move with
    | restart => exact ih
    | call args ending =>
      constructor
      · intro nodup
        by_contra anew
        exact (List.nodup_cons.mp nodup).1 (one_mem_of_not_continued anew)
      · intro continued
        have after : (numbers 1 moves).Nodup ∧ ∀ n ∈ numbers 1 moves, 1 < n := numbers_continued continued
        obtain ⟨nodup, later⟩ := after
        exact List.nodup_cons.mpr ⟨fun member => lt_irrefl _ (later _ member), nodup⟩

theorem numbers_pos (moves : List (Move κ)) : ∀ n ∈ numbers count moves, 0 < n := by
  induction moves generalizing count with
  | nil => exact nofun
  | cons move moves ih =>
    cases move with
    | restart => exact ih
    | call args ending =>
      intro n member
      obtain rfl | member := List.mem_cons.mp member
      · exact Nat.succ_pos count
      · exact ih n member

theorem names_nodup_iff (name : ρ → ι) {label : Nat → ι} (named : ∀ n args, name (F.make n args) = label n)
    (apart : ∀ m n, 0 < m → 0 < n → label m = label n → m = n) (moves : List (Move κ)) :
    ((made F 0 moves).map name).Nodup ↔ OneProcess moves := by
  have labels (count : Nat) : (made F count moves).map name = (numbers count moves).map label := by
    induction moves generalizing count with
    | nil => rfl
    | cons move moves ih =>
      cases move with
      | restart => exact ih 0
      | call args ending => rw [made, numbers, List.map_cons, List.map_cons, named, ih]
  rw [labels, ← numbers_nodup_iff]
  refine ⟨fun nodup => nodup.of_map label, fun nodup => nodup.map_on fun m hm n hn => ?_⟩
  exact apart m n (numbers_pos moves m hm) (numbers_pos moves n hn)

end H2kvm.Framework.Journal
