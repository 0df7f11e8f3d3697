import H2kvm.Framework.Run
import H2kvm.Framework.Lines
import H2kvm.Framework.Utf8

namespace H2kvm.Framework

section since

/-! What a list of past actions says: that something happened, and that nothing undid it since. -/

variable {σ α : Type*}

/-- Some action was taken where `P` holds of it and of those before it, and each one since is a `Q`. -/
def Since (P : List α → α → Prop) (Q : α → Prop) (as : List α) : Prop :=
  ∃ before a after, as = before ++ a :: after ∧ P before a ∧ ∀ b ∈ after, Q b

variable {P : List α → α → Prop} {Q : α → Prop}

theorem not_since_nil : ¬ Since P Q [] := by
  rintro ⟨before, a, after, split, -⟩
  simp at split

theorem since_concat {as : List α} {a : α} : Since P Q (as ++ [a]) ↔ P as a ∨ Q a ∧ Since P Q as := by
  constructor
  · rintro ⟨before, b, after, split, held, since⟩
    rcases List.eq_nil_or_concat after with rfl | ⟨after, c, rfl⟩
    · obtain ⟨rfl, same⟩ := List.append_inj' split rfl
      cases same
      exact .inl held
    · rw [List.concat_eq_append, ← List.cons_append, ← List.append_assoc] at split
      obtain ⟨rfl, same⟩ := List.append_inj' split rfl
      cases same
      rw [List.concat_eq_append] at since
      exact .inr ⟨since a (by simp), before, b, after, rfl, held, fun c mem => since c (List.mem_append_left _ mem)⟩
  · rintro (held | ⟨also, before, b, after, rfl, held, since⟩)
    · exact ⟨as, a, [], rfl, held, by simp⟩
    · refine ⟨before, b, after ++ [a], by simp, held, ?_⟩
      intro c mem
      rcases List.mem_append.mp mem with mem | mem
      · exact since c mem
      · rw [List.mem_singleton.mp mem]
        exact also

theorem eachStep_iff_past {step : σ → α → σ} {I : List α → σ → Prop} {G : σ → α → Prop} {A : List α → α → Prop}
    (keep : ∀ as s a, I as s → A as a → I (as ++ [a]) (step s a)) (agree : ∀ as s a, I as s → (G s a ↔ A as a))
    {s : σ} (start : I [] s) (as : List α) :
    EachStep step G s as ↔ ∀ pre a, pre ++ [a] <+: as → A pre a := by
  have both : (EachStep step G s as ↔ ∀ pre a, pre ++ [a] <+: as → A pre a) ∧
      ((∀ pre a, pre ++ [a] <+: as → A pre a) → I as (run step s as)) := by
    induction as using List.reverseRecOn with
    | nil => exact ⟨by simp [EachStep], fun _ => start⟩
    | append_singleton as a ih =>
      obtain ⟨same, reached⟩ := ih
      have split : (∀ pre b, pre ++ [b] <+: as ++ [a] → A pre b) ↔ (∀ pre b, pre ++ [b] <+: as → A pre b) ∧ A as a := by
        constructor
        · intro h
          exact ⟨fun pre b hp => h pre b (hp.trans (List.prefix_append as [a])), h as a List.prefix_rfl⟩
        · rintro ⟨past, last⟩ pre b hp
          rcases List.prefix_concat_iff.mp hp with whole | hp
          · obtain ⟨same, action⟩ := List.append_inj' whole rfl
            rw [same, List.singleton_inj.mp action]
            exact last
          · exact past pre b hp
      rw [eachStep_append, same, split]
      constructor
      · simp only [EachStep, and_true]
        exact and_congr_right fun past => agree as _ a (reached past)
      · rintro ⟨past, allowed⟩
        rw [run_concat]
        exact keep as _ a (reached past) allowed
  exact both.1

end since

section incremental

/-- A reader of a stream that comes in chunks: what it gives out at a chunk, and at the end. -/
structure Reader (σ α β : Type) where
  start : σ
  step : σ → List α → List β × σ
  finish : σ → List β

namespace Reader

variable {σ τ α β γ : Type}

/-- All it gives out from a state on. -/
def runFrom (reader : Reader σ α β) (s : σ) : List (List α) → List β
  | [] => reader.finish s
  | chunk :: chunks => (reader.step s chunk).1 ++ reader.runFrom (reader.step s chunk).2 chunks

def run (reader : Reader σ α β) (chunks : List (List α)) : List β := reader.runFrom reader.start chunks

/-- Whatever the chunks, it gives out what `f` makes of the whole stream. -/
def Reads (reader : Reader σ α β) (f : List α → List β) : Prop := ∀ chunks, reader.run chunks = f chunks.flatten

/-- A state stands for what it has kept of the stream: of that and of what follows, `f` makes what
the step gives out and what is made of the rest. -/
theorem Reads.of_kept {reader : Reader σ α β} {f : List α → List β} (kept : σ → List α)
    (Keeps : σ → Prop) (start : Keeps reader.start ∧ kept reader.start = [])
    (step : ∀ s chunk, Keeps s → Keeps (reader.step s chunk).2 ∧ ∀ rest,
      f (kept s ++ (chunk ++ rest)) = (reader.step s chunk).1 ++ f (kept (reader.step s chunk).2 ++ rest))
    (finish : ∀ s, Keeps s → reader.finish s = f (kept s)) : reader.Reads f := by
  have from' : ∀ chunks s, Keeps s → reader.runFrom s chunks = f (kept s ++ chunks.flatten) := by
    intro chunks
    induction chunks with
    | nil =>
      intro s keeps
      rw [runFrom, finish s keeps, List.flatten_nil, List.append_nil]
    | cons chunk chunks ih =>
      intro s keeps
      obtain ⟨keeps', made⟩ := step s chunk keeps
      rw [runFrom, ih _ keeps', List.flatten_cons, made]
  intro chunks
  rw [run, from' chunks reader.start start.1, start.2, List.nil_append]

/-- One reader is given what another one gives out. -/
def andThen (first : Reader σ α β) (second : Reader τ β γ) : Reader (σ × τ) α γ where
  start := (first.start, second.start)
  step s chunk :=
    let (out, s₁) := first.step s.1 chunk
    let (out', s₂) := second.step s.2 out
    (out', (s₁, s₂))
  finish s :=
    let (out, s₂) := second.step s.2 (first.finish s.1)
    out ++ second.finish s₂

/-- The chunks the second reader is given. -/
def passed (first : Reader σ α β) (s : σ) : List (List α) → List (List β)
  | [] => [first.finish s]
  | chunk :: chunks => (first.step s chunk).1 :: first.passed (first.step s chunk).2 chunks

theorem flatten_passed (first : Reader σ α β) (s : σ) (chunks : List (List α)) :
    (first.passed s chunks).flatten = first.runFrom s chunks := by
  induction chunks generalizing s with
  | nil => exact List.append_nil _
  | cons chunk chunks ih => rw [passed, runFrom, List.flatten_cons, ih]

theorem runFrom_andThen (first : Reader σ α β) (second : Reader τ β γ) (s : σ) (t : τ)
    (chunks : List (List α)) :
    (first.andThen second).runFrom (s, t) chunks = second.runFrom t (first.passed s chunks) := by
  induction chunks generalizing s t with
  | nil => rfl
  | cons chunk chunks ih =>
    have first' := ih (first.step s chunk).2 (second.step t (first.step s chunk).1).2
    exact congrArg ((second.step t (first.step s chunk).1).1 ++ ·) first'

theorem Reads.andThen {first : Reader σ α β} {second : Reader τ β γ} {f : List α → List β} {g : List β → List γ}
    (reads : first.Reads f) (reads' : second.Reads g) : (first.andThen second).Reads (g ∘ f) := by
  intro chunks
  have inner : second.run (first.passed first.start chunks) = g (first.run chunks) := by
    rw [reads', flatten_passed, run]
  rw [Function.comp_apply, ← reads chunks, ← inner]
  exact runFrom_andThen first second first.start second.start chunks

end Reader

namespace Utf8

/-- Bytes that a character may begin with. -/
def Begun : List UInt8 → Prop
  | [a] => 0xc2 ≤ a.toNat ∧ a.toNat ≤ 0xf4
  | [a, b] => 0xe0 ≤ a.toNat ∧ a.toNat ≤ 0xf4 ∧ IsSecond a b
  | [a, b, c] => 0xf0 ≤ a.toNat ∧ a.toNat ≤ 0xf4 ∧ IsSecond a b ∧ IsTail c
  | _ => False

instance : DecidablePred Begun
  | [] => .isFalse id
  | [_] => inferInstanceAs (Decidable (_ ∧ _))
  | [_, _] => inferInstanceAs (Decidable (_ ∧ _ ∧ _))
  | [_, _, _] => inferInstanceAs (Decidable (_ ∧ _ ∧ _ ∧ _))
  | _ :: _ :: _ :: _ :: _ => .isFalse id

/-- A character begun at the end is held back. -/
def hold : List Piece → List Piece × List UInt8
  | [] => ([], [])
  | [.bad bytes] => if Begun bytes then ([], bytes) else ([.bad bytes], [])
  | p :: ps => (p :: (hold ps).1, (hold ps).2)

/-- `codecs.getincrementaldecoder("utf-8")(errors="replace")`. -/
def decoder : Reader (List UInt8) UInt8 Char where
  start := []
  step pending chunk :=
    let (settled, pending) := hold (pieces (pending ++ chunk))
    (settled.map Piece.text, pending)
  finish := decode

theorem hold_char (c : Char) (ps : List Piece) : hold (.char c :: ps) = (.char c :: (hold ps).1, (hold ps).2) := rfl

theorem hold_more (p : Piece) {ps : List Piece} (more : ps ≠ []) : hold (p :: ps) = (p :: (hold ps).1, (hold ps).2) := by
  obtain ⟨q, qs, rfl⟩ := List.exists_cons_of_ne_nil more
  cases p with
  | char c => rfl
  | bad bytes => rfl

theorem hold_bad {bytes : List UInt8} (settled : ¬Begun bytes) (ps : List Piece) :
    hold (.bad bytes :: ps) = (.bad bytes :: (hold ps).1, (hold ps).2) := by
  cases ps with
  | nil => exact if_neg settled
  | cons q qs => rfl

theorem hold_begun {bytes : List UInt8} (begun : Begun bytes) : hold [.bad bytes] = ([], bytes) := if_pos begun

theorem pieces_ne_nil (b : UInt8) (rest : List UInt8) : pieces (b :: rest) ≠ [] := by
  intro none
  have bytes := flatMap_bytes_pieces (b :: rest)
  rw [none] at bytes
  cases bytes

/-- With a character begun held back, decoding may go on with what comes next. -/
theorem pieces_append (l r : List UInt8) :
    pieces (l ++ r) = (hold (pieces l)).1 ++ pieces ((hold (pieces l)).2 ++ r) := by
  fun_induction pieces l with
  | case1 => rfl
  | case2 a rest ascii ih =>
    rw [hold_char, List.cons_append, pieces_ascii ascii, ih, List.cons_append]
  | case3 a rest above stray ih =>
    have settled : ¬Begun [a] := fun h => by
      have := h.1
      have := h.2
      omega
    rw [hold_bad settled, List.cons_append, pieces_stray (by omega) stray, ih, List.cons_append]
  | case4 a above lead => rw [hold_begun (by exact ⟨by omega, by omega⟩), List.nil_append]
  | case5 a above lead b rest hb ih =>
    rw [hold_more _ (pieces_ne_nil b rest), List.cons_append, List.cons_append,
      pieces_lead (by omega) (by omega) hb, ← List.cons_append, ih, List.cons_append]
  | case6 a above lead b rest hb two ih =>
    rw [hold_char, List.cons_append, List.cons_append, pieces_two (by omega) two (not_not.mp hb), ih, List.cons_append]
  | case7 a above lead b hb long =>
    rw [hold_begun (by exact ⟨by omega, by omega, not_not.mp hb⟩), List.nil_append]
  | case8 a above lead b hb long c rest hc ih =>
    rw [hold_more _ (pieces_ne_nil c rest), List.cons_append, List.cons_append, List.cons_append,
      pieces_lead₂ (by omega) (by omega) (not_not.mp hb) hc, ← List.cons_append, ih, List.cons_append]
  | case9 a above lead b hb long c rest hc three ih =>
    rw [hold_char, List.cons_append, List.cons_append, List.cons_append,
      pieces_three (by omega) three (not_not.mp hb) (not_not.mp hc), ih, List.cons_append]
  | case10 a above lead b hb long c hc longer =>
    rw [hold_begun (by exact ⟨by omega, by omega, not_not.mp hb, not_not.mp hc⟩), List.nil_append]
  | case11 a above lead b hb long c hc longer d rest hd ih =>
    rw [hold_more _ (pieces_ne_nil d rest), List.cons_append, List.cons_append, List.cons_append, List.cons_append,
      pieces_lead₃ (by omega) (by omega) (not_not.mp hb) (not_not.mp hc) hd, ← List.cons_append, ih, List.cons_append]
  | case12 a above lead b hb long c hc longer d rest hd ih =>
    rw [hold_char, List.cons_append, List.cons_append, List.cons_append, List.cons_append,
      pieces_four (by omega) (by omega) (not_not.mp hb) (not_not.mp hc) (not_not.mp hd), ih, List.cons_append]

theorem decoder_reads : decoder.Reads decode := by
  refine Reader.Reads.of_kept (fun pending => pending) (fun _ => True) ⟨trivial, rfl⟩ ?_ fun _ _ => rfl
  intro pending chunk _
  refine ⟨trivial, fun rest => ?_⟩
  rw [← List.append_assoc]
  exact (congrArg (List.map Piece.text) (pieces_append (pending ++ chunk) rest)).trans List.map_append

open Text (chunks)

theorem encode_newline_append (xs ys : List Char) : encode (xs ++ '\n' :: ys) = encode xs ++ 10 :: encode ys := by
  rw [encode_append]
  rfl

theorem chunks_encode (text : List Char) :
    chunks (· == 10) (encode text) = (chunks (· == '\n') text).map encode := by
  have bytes {xs : List Char} (free : ∀ x ∈ xs, (x == '\n') = false) : ∀ b ∈ encode xs, (b == 10) = false := by
    intro b member
    apply beq_eq_false_iff_ne.mpr
    rintro rfl
    have inside := free '\n' (newline_mem_encode.mp member)
    cases inside
  induction text using Text.line_induction (· == '\n') with
  | nil => rfl
  | last xs nonempty free =>
    have some' : encode xs ≠ [] := by
      intro none
      have back := decode_encode xs
      rw [none] at back
      exact nonempty back.symm
    rw [Text.chunks_last free nonempty, Text.chunks_last (bytes free) some']
    rfl
  | more xs z ys free hz ih =>
    obtain rfl : z = '\n' := eq_of_beq hz
    rw [encode_newline_append, Text.chunks_append (bytes free) rfl, Text.chunks_append free rfl, ih, List.map_cons,
      encode_append]
    rfl

end Utf8

namespace Text

/-- What contains no end comes before the first line. -/
theorem chunks_free_append {α : Type} {isEnd : α → Bool} {xs : List α} (free : ∀ x ∈ xs, isEnd x = false) {l c : List α}
    {cs : List (List α)} (first : chunks isEnd l = c :: cs) : chunks isEnd (xs ++ l) = (xs ++ c) :: cs := by
  have split {ys : List α} (free' : ∀ y ∈ ys, isEnd y = false) : ∀ x ∈ xs ++ ys, isEnd x = false := by
    intro x member
    rcases List.mem_append.mp member with member | member
    · exact free x member
    · exact free' x member
  induction l using line_induction isEnd with
  | nil => cases first
  | last ys nonempty free' =>
    rw [chunks_last free' nonempty] at first
    obtain ⟨rfl, rfl⟩ := List.cons.inj first
    exact chunks_last (split free') fun empty => nonempty (List.append_eq_nil_iff.mp empty).2
  | more ys z zs free' hz _ =>
    rw [chunks_append free' hz] at first
    obtain ⟨rfl, rfl⟩ := List.cons.inj first
    rw [← List.append_assoc, chunks_append (split free') hz, List.append_assoc]

end Text

end incremental

end H2kvm.Framework
