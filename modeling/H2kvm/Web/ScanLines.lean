import H2kvm.Framework.Lines

namespace H2kvm.Web

open Framework Text

namespace Scanner

/-- A newline, or a carriage return. -/
def isEnd (b : UInt8) : Bool := b = 10 || b = 13

/-- What `scanLinesOrCR` returns: how far to advance, and the token, if there is one. -/
def scanLinesOrCR (data : List UInt8) (atEOF : Bool) : Nat × Option (List UInt8) :=
  if atEOF ∧ data = [] then (0, none)
  else
    let line := data.takeWhile fun b => !isEnd b
    match data.drop line.length with
    | 13 :: 10 :: _ => (line.length + 2, some line)
    | _ :: _ => (line.length + 1, some line)
    | [] => if atEOF then (data.length, some data) else (0, none)

/-- The tokens of what is in the buffer, and what is left there, after so many calls of the split function at most. -/
def drain (atEOF : Bool) : Nat → List UInt8 → List (List UInt8) × List UInt8
  | 0, data => ([], data)
  | n + 1, data =>
    match scanLinesOrCR data atEOF with
    | (advance, some token) => (token :: (drain atEOF n (data.drop advance)).1, (drain atEOF n (data.drop advance)).2)
    | (_, none) => ([], data)

/-- Each token takes a byte. -/
def tokens (atEOF : Bool) (data : List UInt8) : List (List UInt8) × List UInt8 := drain atEOF (data.length + 1) data

/-- A read of the pipe that gives something. -/
abbrev Chunk := {bytes : List UInt8 // bytes ≠ []}

/-- The tokens of a `bufio.Scanner` whose buffer has `data` in it, of reads and at the end of what comes with the end of
the file. Where the buffer is full before a read, the scanner stops with `ErrTooLong`. -/
def scan (maxTokenSize : Nat) (last : List UInt8) (data : List UInt8) : List Chunk → List (List UInt8)
  | [] => if maxTokenSize ≤ data.length then [] else (tokens true (data ++ last)).1
  | chunk :: chunks =>
    if maxTokenSize ≤ data.length then []
    else (tokens false (data ++ chunk)).1 ++ scan maxTokenSize last (tokens false (data ++ chunk)).2 chunks

/-- `bufio.MaxScanTokenSize`. -/
def maxScanTokenSize : Nat := 64 * 1024

/-- The lines `Run` goes on with: the tokens that are not empty. -/
def lines (chunks : List Chunk) (last : List UInt8) : List (List UInt8) :=
  (scan maxScanTokenSize last [] chunks).filter (· ≠ [])

/-- A stream cut at every newline, carriage return and newline after a carriage return. -/
def piecesFrom (piece : List UInt8) : List UInt8 → List (List UInt8)
  | [] => [piece]
  | 13 :: 10 :: s => piece :: piecesFrom [] s
  | b :: s => if isEnd b then piece :: piecesFrom [] s else piecesFrom (piece ++ [b]) s

def pieces (stream : List UInt8) : List (List UInt8) := piecesFrom [] stream

section words

variable {data : List UInt8}

theorem pieces_filter (stream : List UInt8) : (pieces stream).filter (· ≠ []) = words isEnd stream := by
  have kept (piece : List UInt8) (rest : List (List UInt8)) : (piece :: rest).filter (· ≠ []) =
      if piece = [] then rest.filter (· ≠ []) else piece :: rest.filter (· ≠ []) := by
    by_cases none : piece = [] <;> simp [none]
  have general (piece stream : List UInt8) :
      (piecesFrom piece stream).filter (· ≠ []) = wordsFrom isEnd piece stream := by
    fun_induction piecesFrom piece stream with
    | case1 piece =>
      rw [kept, List.filter_nil]
      rfl
    | case2 piece s ih =>
      rw [kept, ih]
      rfl
    | case3 piece b s _ ended ih => rw [kept, ih, wordsFrom, if_pos ended]
    | case4 piece b s _ inside ih => rw [ih, wordsFrom, if_neg inside]
  exact general [] stream

theorem filter_cons_words {line : List UInt8} (free : ∀ b ∈ line, isEnd b = false) (rest : List (List UInt8)) :
    (line :: rest).filter (· ≠ []) = words isEnd line ++ rest.filter (· ≠ []) := by
  by_cases none : line = []
  · subst none
    rfl
  · rw [words_single free none, List.filter_cons_of_pos (by simpa using none)]
    rfl

/-- Where a line ends in the data, the split function takes it and what ends it. -/
theorem scanLinesOrCR_line {line : List UInt8} (rest : List UInt8) {z : UInt8} (free : ∀ b ∈ line, isEnd b = false) (ended : isEnd z = true)
    (atEOF : Bool) : ∃ advance, scanLinesOrCR (line ++ z :: rest) atEOF = (advance, some line) ∧
      (line ++ z :: rest).drop advance <:+ rest ∧
      ∀ more, words isEnd ((line ++ z :: rest).drop advance ++ more) = words isEnd (rest ++ more) := by
  have some' : ¬ (atEOF = true ∧ line ++ z :: rest = []) := by simp
  have taken : (line ++ z :: rest).takeWhile (fun b => !isEnd b) = line := by
    rw [List.takeWhile_append_of_pos (by simpa using free), List.takeWhile_cons_of_neg (by simp [ended]), List.append_nil]
  have one : (line ++ z :: rest).drop (line.length + 1) = rest := by
    rw [List.drop_append, List.drop_eq_nil_of_le (Nat.le_succ _), Nat.add_sub_cancel_left]
    rfl
  unfold scanLinesOrCR
  rw [if_neg some']
  dsimp only
  rw [taken, List.drop_left]
  split
  · rename_i t same
    obtain ⟨rfl, rfl⟩ := List.cons.inj same
    have two : (line ++ 13 :: 10 :: t).drop (line.length + 2) = t := by
      rw [List.drop_append, List.drop_eq_nil_of_le (by omega), Nat.add_sub_cancel_left]
      rfl
    refine ⟨_, rfl, ?_, fun more => ?_⟩
    · rw [two]
      exact List.suffix_cons 10 t
    · rw [two]
      rfl
  · refine ⟨_, rfl, ?_, fun more => ?_⟩
    · rw [one]
    · rw [one]
  · rename_i none
    cases none

/-- Where none does, it waits for more, or takes what is there. -/
theorem scanLinesOrCR_free (free : ∀ b ∈ data, isEnd b = false) (atEOF : Bool) :
    scanLinesOrCR data atEOF = if atEOF ∧ data ≠ [] then (data.length, some data) else (0, none) := by
  have all : data.takeWhile (fun b => !isEnd b) = data := List.takeWhile_eq_self_iff.mpr (by simpa using free)
  unfold scanLinesOrCR
  dsimp only
  rw [all, List.drop_length]
  cases atEOF <;> by_cases none : data = [] <;> simp [none]

/-- A text has a line that ends, or it has not. -/
theorem ended_or_free (data : List UInt8) : (∀ b ∈ data, isEnd b = false) ∨
    ∃ line z rest, data = line ++ z :: rest ∧ (∀ b ∈ line, isEnd b = false) ∧ isEnd z = true := by
  induction data with
  | nil => exact .inl (by simp)
  | cons b data ih =>
    cases ended : isEnd b with
    | true => exact .inr ⟨[], b, data, rfl, by simp, ended⟩
    | false =>
      rcases ih with free | ⟨line, z, rest, rfl, free, last⟩
      · exact .inl (List.forall_mem_cons.mpr ⟨ended, free⟩)
      · exact .inr ⟨b :: line, z, rest, rfl, List.forall_mem_cons.mpr ⟨ended, free⟩, last⟩

theorem drain_false (n : Nat) (enough : data.length < n) : (∀ b ∈ (drain false n data).2, isEnd b = false) ∧
    ∀ more, (drain false n data).1.filter (· ≠ []) ++ words isEnd ((drain false n data).2 ++ more) =
      words isEnd (data ++ more) := by
  induction n generalizing data with
  | zero => exact absurd enough (Nat.not_lt_zero _)
  | succ n ih =>
    rcases ended_or_free data with free | ⟨line, z, rest, rfl, free, ended⟩
    · rw [drain, scanLinesOrCR_free free, if_neg (by simp)]
      exact ⟨free, fun more => rfl⟩
    · obtain ⟨advance, scanned, shorter, same⟩ := scanLinesOrCR_line rest free ended false
      rw [drain, scanned]
      dsimp only
      rw [List.length_append, List.length_cons] at enough
      have length := shorter.length_le
      have fewer : ((line ++ z :: rest).drop advance).length < n := by omega
      obtain ⟨free', left⟩ := ih fewer
      refine ⟨free', fun more => ?_⟩
      rw [filter_cons_words free, List.append_assoc, left more, same more, List.append_assoc, List.cons_append,
        words_append_sep ended]

theorem drain_true (n : Nat) (enough : data.length < n) : (drain true n data).1.filter (· ≠ []) = words isEnd data := by
  induction n generalizing data with
  | zero => exact absurd enough (Nat.not_lt_zero _)
  | succ n ih =>
    rcases ended_or_free data with free | ⟨line, z, rest, rfl, free, ended⟩
    · rw [drain, scanLinesOrCR_free free]
      by_cases none : data = []
      · rw [if_neg (by simp [none]), none]
        rfl
      · have shorter : (data.drop data.length).length < n := by
          have := List.length_pos_iff.mpr none
          rw [List.drop_length, List.length_nil]
          omega
        rw [if_pos ⟨rfl, none⟩]
        dsimp only
        rw [filter_cons_words free, ih shorter, List.drop_length]
        exact List.append_nil _
    · obtain ⟨advance, scanned, shorter, same⟩ := scanLinesOrCR_line rest free ended true
      rw [drain, scanned]
      dsimp only
      rw [List.length_append, List.length_cons] at enough
      have length := shorter.length_le
      have left := same []
      rw [List.append_nil, List.append_nil] at left
      rw [filter_cons_words free, ih (by omega), left, words_append_sep ended]

end words

section runs

variable {data : List UInt8}

theorem length_le_of_wordsFrom {word : List UInt8} (some : word ≠ []) (more : List UInt8) :
    ∃ w ∈ wordsFrom isEnd word more, word.length ≤ w.length := by
  induction more generalizing word with
  | nil =>
    rw [wordsFrom, if_neg some]
    exact ⟨word, List.mem_singleton.mpr rfl, le_rfl⟩
  | cons b more ih =>
    rw [wordsFrom, if_neg some]
    split
    · exact ⟨word, List.mem_cons_self, le_rfl⟩
    · have some' : word ++ [b] ≠ [] := by simp
      obtain ⟨w, member, longer⟩ := ih some'
      rw [List.length_append] at longer
      exact ⟨w, member, by omega⟩

theorem length_pending {max : Nat} (pos : 0 < max) (free : ∀ b ∈ data, isEnd b = false) {more : List UInt8}
    (fits : ∀ w ∈ words isEnd (data ++ more), w.length < max) : data.length < max := by
  by_cases none : data = []
  · rwa [none]
  · rw [words, wordsFrom_append free, List.nil_append] at fits
    obtain ⟨w, member, longer⟩ := length_le_of_wordsFrom none more
    exact longer.trans_lt (fits w member)

theorem scan_filter {max : Nat} (pos : 0 < max) (last : List UInt8) (chunks : List Chunk)
    (free : ∀ b ∈ data, isEnd b = false)
    (fits : ∀ w ∈ words isEnd (data ++ ((chunks.map Subtype.val).flatten ++ last)), w.length < max) :
    (scan max last data chunks).filter (· ≠ []) = words isEnd (data ++ ((chunks.map Subtype.val).flatten ++ last)) := by
  induction chunks generalizing data with
  | nil =>
    rw [scan, if_neg (Nat.not_le.mpr (length_pending pos free fits)), tokens, drain_true _ (Nat.lt_succ_self _)]
    rfl
  | cons chunk chunks ih =>
    obtain ⟨free', left⟩ := drain_false _ (Nat.lt_succ_self (data ++ chunk.val).length)
    have parts : data ++ (((chunk :: chunks).map Subtype.val).flatten ++ last) =
        data ++ chunk.val ++ ((chunks.map Subtype.val).flatten ++ last) := by
      rw [List.map_cons, List.flatten_cons, List.append_assoc, List.append_assoc]
    have short := length_pending pos free fits
    rw [parts, ← left] at fits ⊢
    rw [scan, if_neg (Nat.not_le.mpr short), List.filter_append]
    exact congrArg _ (ih free' fun w member => fits w (List.mem_append_right _ member))

end runs

/-- However the stream comes in, the lines are the pieces that are not empty, where none of them fills the buffer. -/
theorem lines_eq_pieces (chunks : List Chunk) (last : List UInt8)
    (fits : ∀ piece ∈ pieces ((chunks.map Subtype.val).flatten ++ last), piece.length < maxScanTokenSize) :
    lines chunks last = (pieces ((chunks.map Subtype.val).flatten ++ last)).filter (· ≠ []) := by
  have words_fit : ∀ w ∈ words isEnd ((chunks.map Subtype.val).flatten ++ last), w.length < maxScanTokenSize := by
    intro w member
    rw [← pieces_filter] at member
    exact fits w (List.mem_of_mem_filter member)
  rw [pieces_filter, lines]
  have free : ∀ b ∈ ([] : List UInt8), isEnd b = false := nofun
  exact scan_filter (by decide) last chunks free words_fit

/-- `a`, CR in one read and LF, `b` in the next, which is not ended. -/
theorem lines_split : lines [⟨[97, 13], by decide⟩, ⟨[10, 98], by decide⟩] [] =
    (pieces (([⟨[97, 13], by decide⟩, ⟨[10, 98], by decide⟩] : List Chunk).map Subtype.val).flatten).filter (· ≠ []) :=
  lines_eq_pieces _ [] (by decide)

end Scanner

end H2kvm.Web
