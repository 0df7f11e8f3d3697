import H2kvm.Fstab.Rewriter

namespace H2kvm.Fstab

open Framework Text Utf8

def isNewline (b : UInt8) : Bool := b = 10

/-- The lines of a file, newlines aside. -/
def fileLines (file : List UInt8) : List (List UInt8) := (chunks isNewline file).map (chomp isNewline)

/-- The fields of a line, undecodable bytes kept. -/
def fields (line : List UInt8) : List (List Piece) := words (isSpace ∘ Piece.text) (pieces line)

def slash : Piece := .char '/'

/-- The subvolume a `btrfsvol:` spec names. -/
def specSubvol (spec : List Piece) : Option (List Piece) :=
  if btrfsvol.map Piece.char <+: spec then
    match cut [slash, slash] (spec.drop btrfsvol.length) with
    | none => none
    | some (_, rest) =>
      let rest := rest.dropWhile (· = slash)
      if rest = [] then none else some rest
  else none

def subvolWord : List Piece := "subvol=".toList.map Piece.char

/-- The subvolume the mount options name; of several the last counts. -/
def optionSubvol (options : List Piece) : Option (List Piece) :=
  let named := (words (· = .char ',') options).filter fun option => decide (subvolWord <+: option)
  named.getLast?.map fun option => (option.drop subvolWord.length).dropWhile (· = slash)

/-- The subvolume an entry mounts. -/
def subvolume : List (List Piece) → Option (List Piece)
  | spec :: _ :: _ :: options :: _ => (specSubvol spec).or (optionSubvol options)
  | _ => none

/-- The field is a tag and its value as `blkid` reports them of the device. -/
def Names (g : Guest) (dev : List Char) (field : List Piece) : Prop :=
  ∃ tag ∈ Ident.stableTags, ∃ value, (Ident.gBlkidMap g dev).lookup tag = some value ∧
    field = (tag ++ '=' :: value).map Piece.char

/-- An entry that mounts what the old one mounted. -/
structure Converted (conv : SpecConverter) (g : Guest) (old new : List UInt8) : Prop where
  entry : 4 ≤ (fields old).length
  device : ∃ spec spec' dev, (fields old)[0]? = some spec ∧ (fields new)[0]? = some spec' ∧
    conv.device g (spec.map Piece.text) = some dev ∧ Names g dev spec'
  mountpoint : (fields new)[1]? = (fields old)[1]?
  type : (fields new)[2]? = (fields old)[2]?
  dump : (fields new)[4]? = (fields old)[4]?
  pass : (fields new)[5]? = (fields old)[5]?
  subvol : subvolume (fields new) = subvolume (fields old)

/-- Line by line, the new file has the old line or the same mount under an identifier. -/
def MountsKept (conv : SpecConverter) (g : Guest) (before after : List UInt8) : Prop :=
  List.Forall₂ (fun old new => new = old ∨ Converted conv g old new) (fileLines before) (fileLines after)

theorem mountsKept_refl (conv : SpecConverter) (g : Guest) (file : List UInt8) : MountsKept conv g file file :=
  List.forall₂_same.mpr fun _ _ => .inl rfl

section lines

theorem encode_newline : encode ['\n'] = [10] := by decide

theorem fileLines_append (x y : List UInt8) : fileLines (x ++ 10 :: y) = fileLines (x ++ [10]) ++ fileLines y := by
  rw [fileLines, chunks_append_end x (by decide) y, List.map_append]
  rfl

theorem fileLines_written {out : List (List Char)} (nonempty : out ≠ []) :
    fileLines (encode (join ['\n'] out ++ ['\n'])) = out.flatMap fun line => fileLines (encode line ++ [10]) := by
  induction out with
  | nil => exact absurd rfl nonempty
  | cons line out ih =>
    cases out with
    | nil =>
      have whole : join ['\n'] [line] = line := by simp [join, List.intercalate]
      rw [whole, encode_append, encode_newline]
      simp
    | cons next out =>
      have rest := ih (List.cons_ne_nil next out)
      have whole : join ['\n'] (line :: next :: out) ++ ['\n'] =
          line ++ (['\n'] ++ (join ['\n'] (next :: out) ++ ['\n'])) := by
        simp [join, List.intercalate]
      rw [whole, encode_append, encode_append, encode_newline, List.singleton_append, fileLines_append, rest]
      rfl

theorem splitlines_decode (file : List UInt8) :
    splitlines (decode file) = (chunks isNewline file).flatMap fun chunk => splitlines (decode chunk) := by
  induction file using line_induction isNewline with
  | nil => rfl
  | last xs nonempty free =>
    rw [chunks_last free nonempty]
    simp
  | more xs z ys free hz ih =>
    have newline : z = 10 := by simpa [isNewline] using hz
    rw [chunks_append free hz, List.flatMap_cons, ← ih, newline, decode_append_newline, splitlines_append,
      decode_append_newline]
    rfl

theorem fileLines_line_ne_nil (line : List Char) : fileLines (encode line ++ [10]) ≠ [] := by
  intro h
  have none : chunks isNewline (encode line ++ [10]) = [] := List.map_eq_nil_iff.mp h
  exact chunks_ne_nil (by simp) none

theorem fileLines_line_eq_singleton {line : List Char} {y : List UInt8} :
    fileLines (encode line ++ [10]) = [y] ↔ '\n' ∉ line ∧ y = encode line := by
  by_cases broken : '\n' ∈ line
  · simp only [broken, not_true_eq_false, false_and, iff_false]
    intro h
    obtain ⟨a, b, rfl⟩ := List.append_of_mem broken
    have whole : encode (a ++ '\n' :: b) ++ [10] = encode a ++ 10 :: (encode b ++ [10]) := by
      rw [encode_append, ← List.singleton_append, encode_append, encode_newline]
      simp
    rw [whole, fileLines_append] at h
    have length := congrArg List.length h
    have first := List.length_pos_of_ne_nil (fileLines_line_ne_nil a)
    have second := List.length_pos_of_ne_nil (fileLines_line_ne_nil b)
    rw [List.length_append, List.length_singleton] at length
    omega
  · have free : ∀ x ∈ encode line, isNewline x = false := by
      intro x hx
      simp only [isNewline, decide_eq_false_iff_not]
      exact fun same => broken (newline_mem_encode.mp (same ▸ hx))
    have single : fileLines (encode line ++ [10]) = [encode line] := by
      rw [fileLines, chunks_append free (by decide), List.map_cons, chomp_append (by decide)]
      rfl
    rw [single, List.cons.injEq, eq_self, and_true]
    exact ⟨fun h => ⟨broken, h.symm⟩, fun h => h.2.symm⟩

theorem fields_encode (text : List Char) : fields (encode text) = (split text).map (List.map Piece.char) := by
  rw [fields, pieces_encode, words_map, split_eq_words]
  rfl

theorem fields_chomp {file chunk : List UInt8} {text : List Char} (hc : chunk ∈ chunks isNewline file)
    (ht : splitlines (decode chunk) = [text]) :
    (fields (chomp isNewline chunk)).map (List.map Piece.text) = split text := by
  obtain ⟨-, ends, breaks, whole⟩ := splitlines_eq_singleton ht
  have ends_space : ∀ c ∈ ends, isSpace c := fun c hc => isSpace_of_isBreak (breaks c hc)
  have columns : split text = words isSpace (decode chunk) := by
    rw [whole, words_append_seps ends_space, split_eq_words]
  rw [columns, fields, ← words_map]
  obtain ⟨xs, free, ⟨rfl, -⟩ | ⟨z, hz, rfl⟩⟩ := mem_chunks hc
  · rw [chomp_of_free free]
    rfl
  · have newline : z = 10 := by simpa [isNewline] using hz
    rw [chomp_append hz, newline, decode_append_newline, words_append_sep (by decide)]
    exact (List.append_nil _).symm

end lines

/-- A field as it is written back: undecodable bytes are replaced. -/
def replaced (field : List Piece) : List Piece := (field.map Piece.text).map Piece.char

/-- The line is UTF-8 and no line break is in it. -/
def Plain (line : List UInt8) : Prop := ∀ p ∈ pieces line, ∃ c, p = .char c ∧ isBreak c = false

/-- The identifier is one word, the fields that must stay are UTF-8, and the subvolume the entry
mounts is the one its options name. -/
structure EntrySafe (ident : List Char) (fs : List (List Piece)) : Prop where
  word : ∀ c ∈ ident, isSpace c = false
  clean : ∀ i ∈ [1, 2, 4, 5], ∀ field, fs[i]? = some field → replaced field = field
  subvol : subvolume fs = (fs[3]?).bind fun options => optionSubvol (replaced options)

theorem split_converted {ident spec : List Char} {rest : List (List Char)} {line : List Char}
    (cols : split line = spec :: rest) : split (join ['\t'] (ident :: rest)) = split ident ++ rest := by
  have same : ∀ part ∈ rest, split part = [part] := by
    intro part hp
    have word : part ∈ words isSpace line := by
      rw [← split_eq_words, cols]
      exact List.mem_cons_of_mem _ hp
    obtain ⟨nonempty, free⟩ := mem_words word
    rw [split_eq_words, words_single free nonempty]
  have rest_same : rest.flatMap split = rest := by
    rw [List.flatMap_congr same]
    exact List.flatMap_singleton' rest
  rw [split_join_tab (List.cons_ne_nil _ _), List.flatMap_cons, rest_same]

section entry

variable {r : FstabCrypttabRewriter} {g : Guest}

theorem subvolume_ident {tag value : List Char} (mem : tag ∈ Ident.stableTags) (fs : List (List Piece)) :
    subvolume ((tag ++ '=' :: value).map Piece.char :: fs) = (fs[2]?).bind optionSubvol := by
  obtain ⟨c, cs, whole, -, -, btrfs⟩ := Ident.tag_head mem ('=' :: value)
  have none : specSubvol ((tag ++ '=' :: value).map Piece.char) = none := by
    rw [specSubvol, if_neg]
    intro h
    rw [whole] at h
    have first : Piece.char 'b' = Piece.char c := (List.cons_prefix_cons.mp h).1
    exact btrfs (Piece.char.inj first).symm
  match fs with
  | [] | [_] | [_, _] => rfl
  | _ :: _ :: options :: _ =>
    rw [subvolume, none]
    rfl

theorem unconverted_iff {old : List UInt8} {text : List Char} (cols : (fields old).map (List.map Piece.text) = split text) :
    (encode text = old ∨ Converted r.converter g old (encode text)) ↔ encode text = old := by
  constructor
  · intro h
    rcases h with same | changed
    · exact same
    · obtain ⟨spec, spec', dev, first, first', device, tag, mem, value, -, rfl⟩ := changed.device
      rw [fields_encode, ← cols, List.getElem?_map, List.getElem?_map, first] at first'
      have text_spec : spec.map Piece.text = tag ++ '=' :: value :=
        List.map_injective_iff.mpr (fun a b h => Piece.char.inj h) (Option.some.inj first')
      rw [text_spec, SpecConverter.device_tag mem] at device
      cases device
  · exact .inl

theorem ident_word {tag : List Char} (mem : tag ∈ Ident.stableTags) (value : List Char) :
    ∃ w ws, split (tag ++ '=' :: value) = w :: ws ∧ w <+: tag ++ '=' :: value ∧ w ≠ [] := by
  obtain ⟨c, cs, whole, space, -, -⟩ := Ident.tag_head mem ('=' :: value)
  rw [whole, split_eq_words]
  exact words_head space cs

theorem tag_eq_of_common {tag tag' : List Char} (mem : tag ∈ Ident.stableTags) (mem' : tag' ∈ Ident.stableTags)
    {l : List Char} (h : tag ++ ['='] <+: l) (h' : tag' ++ ['='] <+: l) : tag = tag' := by
  have nested : ∀ a ∈ Ident.stableTags, ∀ b ∈ Ident.stableTags, a ++ ['='] <+: b ++ ['='] → a = b := by decide
  rcases List.prefix_or_prefix_of_prefix h h' with sub | sub
  · exact nested tag mem tag' mem' sub
  · exact (nested tag' mem' tag mem sub).symm

theorem word_of_names {dev tag value : List Char} (mem : tag ∈ Ident.stableTags)
    (lookup : (Ident.gBlkidMap g dev).lookup tag = some value) {w : List Char} {ws : List (List Char)}
    (hw : split (tag ++ '=' :: value) = w :: ws) (within : w <+: tag ++ '=' :: value)
    (names : Names g dev (w.map Piece.char)) : ∀ c ∈ tag ++ '=' :: value, isSpace c = false := by
  obtain ⟨tag', mem', value', lookup', written⟩ := names
  have word : w = tag' ++ '=' :: value' := List.map_injective_iff.mpr (fun a b h => Piece.char.inj h) written
  have lead : tag ++ ['='] <+: tag ++ '=' :: value := ⟨value, by simp⟩
  have lead' : tag' ++ ['='] <+: tag ++ '=' :: value := by
    apply List.IsPrefix.trans _ within
    exact ⟨value', by rw [word]; simp⟩
  obtain rfl := tag_eq_of_common mem mem' lead lead'
  rw [lookup] at lookup'
  obtain rfl := Option.some.inj lookup'
  have here : w ∈ words isSpace (tag ++ '=' :: value) := by
    rw [← split_eq_words, hw]
    exact List.mem_cons_self
  rw [word] at here
  exact (mem_words here).2

variable {old : List UInt8} {line spec : List Char} {rest : List (List Char)} {F : List Piece}
  {Fs : List (List Piece)}

theorem fields_rewritten (ident : List Char) (columns : split line = spec :: rest) (others : Fs.map (List.map Piece.text) = rest) :
    fields (encode (join ['\t'] (ident :: rest))) = (split ident).map (List.map Piece.char) ++ Fs.map replaced := by
  rw [fields_encode, split_converted columns, List.map_append, ← others, List.map_map]
  rfl

/-- With an identifier of one word the fields stay where they are. -/
theorem fields_rewritten_word {ident : List Char} (columns : split line = spec :: rest)
    (others : Fs.map (List.map Piece.text) = rest) (word : ∀ c ∈ ident, isSpace c = false) (nonempty : ident ≠ []) :
    fields (encode (join ['\t'] (ident :: rest))) = ident.map Piece.char :: Fs.map replaced := by
  rw [fields_rewritten ident columns others, split_eq_words, words_single word nonempty]
  rfl

theorem newline_not_mem_rewritten {ident : List Char} (columns : split line = spec :: rest)
    (word : ∀ c ∈ ident, isSpace c = false) : '\n' ∉ join ['\t'] (ident :: rest) := by
  intro h
  have space : isSpace '\n' = true := by decide
  rcases mem_join h with tab | ⟨part, mem, here⟩
  · exact absurd (List.mem_singleton.mp tab) (by decide)
  · have free : ∀ c ∈ part, isSpace c = false := by
      rcases List.mem_cons.mp mem with rfl | mem
      · exact word
      · have column : part ∈ words isSpace line := by
          rw [← split_eq_words, columns]
          exact List.mem_cons_of_mem _ mem
        exact (mem_words column).2
    rw [free _ here] at space
    cases space

/-- The rewritten line is a mount of the old device only if the identifier is one word. -/
theorem word_of_kept {tag value dev : List Char} (mem : tag ∈ Ident.stableTags)
    (lookup : (Ident.gBlkidMap g dev).lookup tag = some value) (device : r.converter.device g (F.map Piece.text) = some dev)
    (whole : fields old = F :: Fs) (columns : split line = spec :: rest) (others : Fs.map (List.map Piece.text) = rest)
    (kept : encode (join ['\t'] ((tag ++ '=' :: value) :: rest)) = old ∨
      Converted r.converter g old (encode (join ['\t'] ((tag ++ '=' :: value) :: rest)))) :
    ∀ c ∈ tag ++ '=' :: value, isSpace c = false := by
  obtain ⟨w, ws, words, within, nonempty⟩ := ident_word mem value
  have written := fields_rewritten (tag ++ '=' :: value) columns others
  rw [words] at written
  rcases kept with same | changed
  · -- the old line begins with no tag
    rw [same, whole] at written
    have begins : F.map Piece.text = w := by
      rw [(List.cons.inj written).1, List.map_map]
      exact List.map_id w
    obtain ⟨c, cs, start, -, slash, btrfs⟩ := Ident.tag_head mem ('=' :: value)
    have head : w.head? = some c := by
      obtain ⟨more, split⟩ := within
      cases w with
      | nil => exact absurd rfl nonempty
      | cons d ds =>
        rw [start, List.cons_append] at split
        exact congrArg some (List.cons.inj split).1
    rw [begins] at device
    rcases SpecConverter.device_head device with other | other
    · rw [head] at other
      exact absurd (Option.some.inj other) slash
    · rw [head] at other
      exact absurd (Option.some.inj other) btrfs
  · obtain ⟨F', w', dev', hF, hw, device', names⟩ := changed.device
    rw [whole] at hF
    rw [written] at hw
    obtain rfl : F = F' := Option.some.inj hF
    obtain rfl : w.map Piece.char = w' := Option.some.inj hw
    rw [device] at device'
    obtain rfl : dev = dev' := Option.some.inj device'
    exact word_of_names mem lookup words within names

/-- With an identifier of one word, what the rewritten line keeps is what the entry can spare. -/
theorem converted_iff_of_word {tag value dev : List Char} (mem : tag ∈ Ident.stableTags)
    (lookup : (Ident.gBlkidMap g dev).lookup tag = some value) (device : r.converter.device g (F.map Piece.text) = some dev)
    (whole : fields old = F :: Fs) (columns : split line = spec :: rest) (others : Fs.map (List.map Piece.text) = rest)
    (long : 3 ≤ rest.length) (word : ∀ c ∈ tag ++ '=' :: value, isSpace c = false) :
    Converted r.converter g old (encode (join ['\t'] ((tag ++ '=' :: value) :: rest))) ↔
      EntrySafe (tag ++ '=' :: value) (fields old) := by
  have stay := fields_rewritten_word columns others word (by simp)
  generalize encode (join ['\t'] ((tag ++ '=' :: value) :: rest)) = new at stay
  have field (i : Nat) : (fields new)[i + 1]? = (fields old)[i + 1]? ↔
      ∀ f, (fields old)[i + 1]? = some f → replaced f = f := by
    rw [stay, whole, List.getElem?_cons_succ, List.getElem?_cons_succ, List.getElem?_map]
    cases Fs[i]? with
    | none => simp
    | some f => simp
  have mount : subvolume (fields new) = ((fields old)[3]?).bind fun options => optionSubvol (replaced options) := by
    rw [stay, whole, subvolume_ident mem, List.getElem?_cons_succ, List.getElem?_map, Option.bind_map]
    rfl
  constructor
  · intro h
    refine ⟨word, ?_, h.subvol.symm.trans mount⟩
    intro i hi
    simp only [List.mem_cons, List.not_mem_nil, or_false] at hi
    rcases hi with rfl | rfl | rfl | rfl
    · exact (field 0).mp h.mountpoint
    · exact (field 1).mp h.type
    · exact (field 3).mp h.dump
    · exact (field 4).mp h.pass
  · intro safe
    have entry : 4 ≤ (fields old).length := by
      have same := congrArg List.length others
      rw [List.length_map] at same
      rw [whole, List.length_cons]
      omega
    have names : Names g dev ((tag ++ '=' :: value).map Piece.char) := ⟨tag, mem, value, lookup, rfl⟩
    refine ⟨entry, ⟨F, _, dev, by rw [whole]; rfl, by rw [stay]; rfl, device, names⟩, ?_, ?_, ?_, ?_,
      mount.trans safe.subvol.symm⟩
    · exact (field 0).mpr (safe.clean 1 (by decide))
    · exact (field 1).mpr (safe.clean 2 (by decide))
    · exact (field 3).mpr (safe.clean 4 (by decide))
    · exact (field 4).mpr (safe.clean 5 (by decide))

theorem converted_iff {ident : List Char} (conversion : r.conversion g line = some (ident, rest))
    (cols : (fields old).map (List.map Piece.text) = split line) :
    ('\n' ∉ join ['\t'] (ident :: rest) ∧ (encode (join ['\t'] (ident :: rest)) = old ∨
      Converted r.converter g old (encode (join ['\t'] (ident :: rest))))) ↔ EntrySafe ident (fields old) := by
  obtain ⟨long, spec, columns, identifier⟩ := r.conversion_eq_some g conversion
  obtain ⟨dev, device, tag, mem, value, lookup, rfl⟩ := SpecConverter.identifier_eq_some identifier
  rw [columns] at cols
  obtain ⟨F, Fs, whole, rfl, others⟩ := List.map_eq_cons_iff.mp cols
  constructor
  · intro h
    have word := word_of_kept mem lookup device whole columns others h.2
    rcases h.2 with same | changed
    · -- then the old line has the identifier for its spec, which leads to no device
      have stay := fields_rewritten_word columns others word (by simp)
      rw [same, whole] at stay
      have begins : F.map Piece.text = tag ++ '=' :: value := by
        rw [(List.cons.inj stay).1, List.map_map]
        exact List.map_id _
      rw [begins, SpecConverter.device_tag mem] at device
      cases device
    · exact (converted_iff_of_word mem lookup device whole columns others long word).mp changed
  · intro safe
    refine ⟨newline_not_mem_rewritten columns safe.word, .inr ?_⟩
    exact (converted_iff_of_word mem lookup device whole columns others long safe.word).mpr safe

end entry

section file

variable (r : FstabCrypttabRewriter) (g : Guest)

/-- A line that is left alone is plain, and one that is converted is a single line for
`splitlines` and safe. -/
def LineSafe (chunk : List UInt8) : Prop :=
  Plain (chomp isNewline chunk) ∧ r.conversion g (decode (chomp isNewline chunk)) = none ∨
    ∃ line ident rest, splitlines (decode chunk) = [line] ∧ r.conversion g line = some (ident, rest) ∧
      EntrySafe ident (fields (chomp isNewline chunk))

/-- The lines a line of the file is rewritten to. -/
def linesFor (chunk : List UInt8) : List (List UInt8) :=
  (splitlines (decode chunk)).flatMap fun line => fileLines (encode (r.rewritten g line) ++ [10])

variable {r g} {file chunk : List UInt8}

theorem linesFor_eq_singleton {y : List UInt8} :
    linesFor r g chunk = [y] ↔
      ∃ line, splitlines (decode chunk) = [line] ∧ '\n' ∉ r.rewritten g line ∧ y = encode (r.rewritten g line) := by
  rw [linesFor, flatMap_eq_singleton fun line => fileLines_line_ne_nil _]
  simp only [fileLines_line_eq_singleton]

theorem linesFor_ne_nil (hc : chunk ∈ chunks isNewline file) : linesFor r g chunk ≠ [] := by
  intro h
  have text : decode chunk ≠ [] := by
    intro empty
    obtain ⟨xs, -, ⟨rfl, nonempty⟩ | ⟨z, -, rfl⟩⟩ := mem_chunks hc
    · exact nonempty (decode_eq_nil empty)
    · exact absurd (decode_eq_nil empty) (by simp)
  cases lines : splitlines (decode chunk) with
  | nil => exact splitlines_ne_nil text lines
  | cons line lines' =>
    rw [linesFor, lines, List.flatMap_cons] at h
    exact fileLines_line_ne_nil _ (List.append_eq_nil_iff.mp h).1

theorem plain_iff {line : List UInt8} : Plain line ↔ ∃ text, line = encode text ∧ ∀ c ∈ text, isBreak c = false := by
  constructor
  · intro h
    refine ⟨decode line, (encode_decode fun p hp => ?_).symm, ?_⟩
    · obtain ⟨c, rfl, -⟩ := h p hp
      exact ⟨c, rfl⟩
    · intro c hc
      obtain ⟨p, hp, rfl⟩ := List.mem_map.mp hc
      obtain ⟨c, rfl, free⟩ := h p hp
      exact free
  · intro h p hp
    obtain ⟨text, rfl, free⟩ := h
    rw [pieces_encode] at hp
    obtain ⟨c, hc, rfl⟩ := List.mem_map.mp hp
    exact ⟨c, rfl, free c hc⟩

theorem splitlines_plain {text : List Char} (hc : chunk ∈ chunks isNewline file)
    (same : chomp isNewline chunk = encode text) (free : ∀ c ∈ text, isBreak c = false) :
    splitlines (decode chunk) = [text] := by
  obtain ⟨xs, noNewline, ⟨rfl, nonempty⟩ | ⟨z, hz, rfl⟩⟩ := mem_chunks hc
  · rw [chomp_of_free noNewline] at same
    rw [same, decode_encode]
    apply splitlines_last free
    intro empty
    rw [same, empty] at nonempty
    exact nonempty rfl
  · have newline : z = 10 := by simpa [isNewline] using hz
    rw [chomp_append hz] at same
    rw [newline, decode_append_newline, same, decode_encode]
    exact splitlines_line free

theorem line_kept_iff (hc : chunk ∈ chunks isNewline file) :
    (∃ y, linesFor r g chunk = [y] ∧ (y = chomp isNewline chunk ∨ Converted r.converter g (chomp isNewline chunk) y)) ↔
      LineSafe r g chunk := by
  constructor
  · intro h
    obtain ⟨y, single, kept⟩ := h
    obtain ⟨line, lines, broken, rfl⟩ := linesFor_eq_singleton.mp single
    have cols := fields_chomp hc lines
    cases conversion : r.conversion g line with
    | none =>
      rw [FstabCrypttabRewriter.rewritten, conversion] at kept
      have same := (unconverted_iff cols).mp kept
      have free := (splitlines_eq_singleton lines).1
      refine .inl ⟨plain_iff.mpr ⟨line, same.symm, free⟩, ?_⟩
      rw [← same, decode_encode, conversion]
    | some converted =>
      obtain ⟨ident, rest⟩ := converted
      rw [FstabCrypttabRewriter.rewritten, conversion] at kept broken
      exact .inr ⟨line, ident, rest, lines, conversion, (converted_iff conversion cols).mp ⟨broken, kept⟩⟩
  · intro h
    rcases h with ⟨plain, alone⟩ | ⟨line, ident, rest, lines, conversion, safe⟩
    · obtain ⟨text, same, free⟩ := plain_iff.mp plain
      have lines := splitlines_plain hc same free
      rw [same, decode_encode] at alone
      have kept : r.rewritten g text = text := by rw [FstabCrypttabRewriter.rewritten, alone]
      refine ⟨encode text, linesFor_eq_singleton.mpr ⟨text, lines, ?_, by rw [kept]⟩, .inl same.symm⟩
      rw [kept]
      intro newline
      have := free _ newline
      exact absurd this (by decide)
    · have cols := fields_chomp hc lines
      obtain ⟨broken, kept⟩ := (converted_iff conversion cols).mpr safe
      have rewritten : r.rewritten g line = join ['\t'] (ident :: rest) := by
        rw [FstabCrypttabRewriter.rewritten, conversion]
      rw [← rewritten] at broken kept
      exact ⟨_, linesFor_eq_singleton.mpr ⟨line, lines, broken, rfl⟩, kept⟩

/-- The rewrite keeps what is mounted exactly when it changes nothing, or when every line it
leaves alone is plain UTF-8 and every line it converts has an identifier of one word, decodable
fields and its subvolume in the options. -/
theorem mounts_kept_iff (r : FstabCrypttabRewriter) (g : Guest) :
    MountsKept r.converter g g.fstab (r.rewriteFstab g).file ↔
      (r.mode = .noop ∨ g.isFile ≠ some true ∨ r.dryRun ∨
        ∀ line ∈ splitlines (decode g.fstab), r.conversion g line = none) ∨
      ∀ chunk ∈ chunks isNewline g.fstab, LineSafe r g chunk := by
  rw [r.rewriteFstab_file g]
  split
  · rename_i untouched
    simp only [untouched, true_or, iff_true]
    exact mountsKept_refl _ _ _
  · rename_i touched
    simp only [touched, false_or]
    have nonempty : (splitlines (decode g.fstab)).map (r.rewritten g) ≠ [] := by
      intro none
      apply touched
      refine .inr (.inr (.inr ?_))
      rw [List.map_eq_nil_iff.mp none]
      exact fun line h => (List.not_mem_nil h).elim
    have written : fileLines (encode (join ['\n'] ((splitlines (decode g.fstab)).map (r.rewritten g)) ++ ['\n'])) =
        (chunks isNewline g.fstab).flatMap (linesFor r g) := by
      rw [fileLines_written nonempty, List.flatMap_map, splitlines_decode, List.flatMap_assoc]
      rfl
    rw [MountsKept, written, fileLines, forall₂_flatMap_iff fun chunk hc => linesFor_ne_nil hc]
    exact forall₂_congr fun chunk hc => line_kept_iff hc

/-- One entry with a subvolume, on a device that has a UUID. -/
def homeGuest : Guest where
  isFile := some true
  fstab := encode "btrfsvol:/dev/sda2//@home /home btrfs defaults 0 0\n".toList
  hostLink := fun _ => none
  realpath := some
  blkid := fun dev => if dev = "/dev/sda2".toList then some [("UUID".toList, some "1234".toList)] else none

def homeRewriter : FstabCrypttabRewriter where
  converter := ⟨.stabilizeAll, none⟩
  mode := .stabilizeAll

theorem homeRewriter_drops_subvolume :
    ¬ MountsKept homeRewriter.converter homeGuest homeGuest.fstab (homeRewriter.rewriteFstab homeGuest).file := by
  intro kept
  have before : fileLines homeGuest.fstab =
      [encode "btrfsvol:/dev/sda2//@home /home btrfs defaults 0 0".toList] := by decide +kernel
  have after : fileLines (homeRewriter.rewriteFstab homeGuest).file =
      [encode "UUID=1234\t/home\tbtrfs\tdefaults\t0\t0".toList] := by decide +kernel
  rw [MountsKept, before, after, List.forall₂_cons] at kept
  rcases kept.1 with same | changed
  · exact absurd same (by decide +kernel)
  · exact absurd changed.subvol (by decide +kernel)

end file

end H2kvm.Fstab
