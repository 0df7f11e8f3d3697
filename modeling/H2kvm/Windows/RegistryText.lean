import H2kvm.Framework.Lines
import H2kvm.Windows.Hive

namespace H2kvm.Windows

open Framework Keys Text

/-- The units of some bytes; a byte that is left over at the end makes none. -/
def units : List UInt8 → List Nat
  | a :: b :: rest => (a.toNat + 256 * b.toNat) :: units rest
  | _ => []

/-- The characters of some units; of a pair that is not whole the unit is ignored. -/
def decodeUnits : List Nat → List Char
  | [] => []
  | u :: rest =>
    if u < 0xd800 ∨ 0xe000 ≤ u then Char.ofNat u :: decodeUnits rest
    else if 0xdc00 ≤ u then decodeUnits rest
    else
      match rest with
      | [] => []
      | v :: rest =>
        if 0xdc00 ≤ v ∧ v < 0xe000 then Char.ofNat (0x10000 + (u - 0xd800) * 0x400 + (v - 0xdc00)) :: decodeUnits rest
        else decodeUnits (v :: rest)

/-- `_decode_reg_sz`: the decoder raises for no bytes. -/
def decodeRegSz (raw : List UInt8) : List Char := (decodeUnits (units raw)).rdropWhile (· = '\x00')

/-- `_reg_sz`, as a value of the type REG_EXPAND_SZ. -/
def regExpandSz (s : List Char) : Value := ⟨2, (regSz s).data⟩

/-- What `node_get_value` returns for a value that is there: python-hivex gives a handle, the readers expect a
dictionary. -/
inductive Binding where
  | handle
  | dictionary

def Binding.present : Binding → Value → Reply
  | handle, _ => .handle
  | dictionary, value => .bytes value.data

/-- `_hivex_read_sz`, where what is no text and no number under `value` counts as missing. -/
def Edit.readSz (failed : Bool) (present : Value → Reply) (node : Path) (key : Name) : Edit (Option (List Char)) := do
  match ← readValueDict failed present node key with
  | some (.bytes data) =>
    let s := strip (decodeRegSz data)
    pure (if s = [] then none else some s)
  | some (.int n) => pure (some (toString n).toList)
  | _ => pure none

/-- The units of a text. -/
def codeUnits (s : List Char) : List Nat :=
  s.flatMap fun c =>
    let n := c.toNat
    if n < 0x10000 then [n] else [0xd800 + (n - 0x10000) / 0x400, 0xdc00 + (n - 0x10000) % 0x400]

/-- How many zeros a list of units ends in. -/
def trailingZeros (l : List Nat) : Nat := (l.rtakeWhile (· = 0)).length

/-- How many U+0000 a text ends in. -/
def trailingNuls (s : List Char) : Nat := (s.rtakeWhile (· = '\x00')).length

section encoding

theorem utf16le_eq (s : List Char) : utf16le s = (codeUnits s).flatMap unit := by
  rw [utf16le, codeUnits, List.flatMap_assoc]
  refine List.flatMap_congr fun c _ => ?_
  dsimp only
  split <;> simp

theorem codeUnits_append (s t : List Char) : codeUnits (s ++ t) = codeUnits s ++ codeUnits t := List.flatMap_append

theorem toNat_cases (c : Char) : c.toNat < 0xd800 ∨ 0xe000 ≤ c.toNat ∧ c.toNat < 0x110000 := by
  rcases c.valid with low | ⟨above, high⟩
  · exact .inl low
  · exact .inr ⟨above, high⟩

theorem codeUnits_lt (s : List Char) : ∀ u ∈ codeUnits s, u < 0x10000 := by
  intro u member
  obtain ⟨c, -, inside⟩ := List.mem_flatMap.mp member
  have range := toNat_cases c
  dsimp only at inside
  split at inside
  · rw [List.mem_singleton.mp inside]
    assumption
  · rcases List.mem_cons.mp inside with rfl | low
    · omega
    · rw [List.mem_singleton.mp low]
      omega

theorem units_flatMap {l : List Nat} (small : ∀ u ∈ l, u < 0x10000) : units (l.flatMap unit) = l := by
  induction l with
  | nil => rfl
  | cons u l ih =>
    obtain ⟨here, rest⟩ := List.forall_mem_cons.mp small
    have low : (UInt8.ofNat u).toNat = u % 256 := UInt8.toNat_ofNat'
    have high : (UInt8.ofNat (u / 256)).toNat = u / 256 % 256 := UInt8.toNat_ofNat'
    rw [List.flatMap_cons, unit, List.cons_append, List.singleton_append, units, ih rest, low, high]
    congr 1
    omega

theorem units_utf16le (s : List Char) : units (utf16le s) = codeUnits s := by
  rw [utf16le_eq, units_flatMap (codeUnits_lt s)]

theorem decodeUnits_single {u : Nat} (plain : u < 0xd800 ∨ 0xe000 ≤ u) (rest : List Nat) :
    decodeUnits (u :: rest) = Char.ofNat u :: decodeUnits rest := by
  rw [decodeUnits.eq_def]
  simp only [if_pos plain]

theorem decodeUnits_pair {u v : Nat} (high : 0xd800 ≤ u ∧ u < 0xdc00) (low : 0xdc00 ≤ v ∧ v < 0xe000) (rest : List Nat) :
    decodeUnits (u :: v :: rest) = Char.ofNat (0x10000 + (u - 0xd800) * 0x400 + (v - 0xdc00)) :: decodeUnits rest := by
  have lead : ¬ (u < 0xd800 ∨ 0xe000 ≤ u) := by omega
  have first : ¬ 0xdc00 ≤ u := by omega
  rw [decodeUnits.eq_def]
  simp only [if_neg lead, if_neg first, if_pos low]

theorem decodeUnits_codeUnits (s : List Char) : decodeUnits (codeUnits s) = s := by
  induction s with
  | nil => rfl
  | cons c s ih =>
    have range := toNat_cases c
    have whole : Char.ofNat c.toNat = c := Char.ofNat_toNat c
    rw [codeUnits, List.flatMap_cons]
    rw [codeUnits] at ih
    by_cases single : c.toNat < 0x10000
    · have plain : c.toNat < 0xd800 ∨ 0xe000 ≤ c.toNat := by omega
      simp only [if_pos single, List.singleton_append]
      rw [decodeUnits_single plain, whole, ih]
    · have high : 0xd800 ≤ 0xd800 + (c.toNat - 0x10000) / 0x400 ∧ 0xd800 + (c.toNat - 0x10000) / 0x400 < 0xdc00 := by omega
      have low : 0xdc00 ≤ 0xdc00 + (c.toNat - 0x10000) % 0x400 ∧ 0xdc00 + (c.toNat - 0x10000) % 0x400 < 0xe000 := by omega
      have value : 0x10000 + (0xd800 + (c.toNat - 0x10000) / 0x400 - 0xd800) * 0x400 +
          (0xdc00 + (c.toNat - 0x10000) % 0x400 - 0xdc00) = c.toNat := by omega
      simp only [if_neg single, List.cons_append, List.nil_append]
      rw [decodeUnits_pair high low, value, whole, ih]

theorem decodeUnits_regSz (s : List Char) : decodeUnits (units (regSz s).data) = s ++ ['\x00'] := by
  rw [regSz, units_utf16le, decodeUnits_codeUnits]

theorem decodeRegSz_regSz (s : List Char) : decodeRegSz (regSz s).data = s.rdropWhile (· = '\x00') := by
  rw [decodeRegSz, decodeUnits_regSz, List.rdropWhile_concat_pos _ _ _ (by decide)]

theorem rdropWhile_of_last {s : List Char} (last : s.getLast? ≠ some '\x00') : s.rdropWhile (· = '\x00') = s := by
  rw [List.rdropWhile_eq_self_iff]
  intro some same
  rw [decide_eq_true_eq] at same
  exact last (by rw [List.getLast?_eq_getLast_of_ne_nil some, same])

theorem length_flatMap_unit (l : List Nat) : (l.flatMap unit).length = 2 * l.length := by
  induction l with
  | nil => rfl
  | cons u l ih =>
    have two : (unit u).length = 2 := rfl
    rw [List.flatMap_cons, List.length_append, ih, two, List.length_cons]
    omega

theorem length_regSz (s : List Char) : (regSz s).data.length = 2 * (codeUnits (s ++ ['\x00'])).length := by
  rw [regSz, utf16le_eq, length_flatMap_unit]

theorem trailingZeros_codeUnits (s : List Char) : trailingZeros (codeUnits s) = trailingNuls s := by
  induction s using List.reverseRecOn with
  | nil => rfl
  | append_singleton s c ih =>
    have range := toNat_cases c
    unfold trailingZeros trailingNuls at *
    rw [codeUnits_append]
    by_cases nul : c = '\x00'
    · have zero : codeUnits [c] = [0] := by
        rw [nul]
        rfl
      rw [zero, List.rtakeWhile_concat_pos _ _ _ (by decide), List.rtakeWhile_concat_pos _ _ _ (by simpa using nul),
        List.length_append, List.length_append, ih]
      rfl
    · have some : c.toNat ≠ 0 := fun zero => nul (by rw [← Char.ofNat_toNat c, zero])
      have none : (s ++ [c]).rtakeWhile (· = '\x00') = [] := List.rtakeWhile_concat_neg _ _ _ (by simpa using nul)
      rw [none]
      by_cases single : c.toNat < 0x10000
      · have unit : codeUnits [c] = [c.toNat] := by simp [codeUnits, single]
        rw [unit, List.rtakeWhile_concat_neg _ _ _ (by simpa using some)]
        rfl
      · have pair : codeUnits [c] = [0xd800 + (c.toNat - 0x10000) / 0x400] ++ [0xdc00 + (c.toNat - 0x10000) % 0x400] := by
          simp [codeUnits, single]
        rw [pair, ← List.append_assoc, List.rtakeWhile_concat_neg _ _ _ (by simp)]
        rfl

theorem trailingZeros_regSz (s : List Char) : trailingZeros (units (regSz s).data) = trailingNuls s + 1 := by
  rw [regSz, units_utf16le, trailingZeros_codeUnits, trailingNuls, List.rtakeWhile_concat_pos _ _ _ (by decide),
    List.length_append, trailingNuls]
  rfl

theorem regSz_injective : Function.Injective fun s => (regSz s).data := by
  intro s t same
  have decoded := congrArg (decodeUnits ∘ units) same
  rw [Function.comp_apply, Function.comp_apply, decodeUnits_regSz, decodeUnits_regSz] at decoded
  exact List.append_cancel_right decoded

end encoding

/-- Values of `_set_dword` and their names. -/
def dwords (values : List (Name × Nat)) : List (Name × Option Value) := values.map fun x => (x.1, regDword x.2)

/-- Once the values are set, each is read back. -/
def DwordsReadBack (binding : Binding) (s : Session) (node : Path) (values : List (Name × Nat)) : Prop :=
  ∃ s', Edit.setValues (fun _ => false) node 0 (dwords values) s = .ok () s' ∧
    ∀ x ∈ values, Edit.readDword false binding.present node x.1 s' = .ok (some (x.2 : Int)) s'

/-- Once the value is set, the text is read back without the white space around it. -/
def SzReadsBack (binding : Binding) (s : Session) (node : Path) (key : Name) (text : List Char) (value : Value) : Prop :=
  ∃ s', Edit.nodeSetValue false node key value s = .ok () s' ∧
    Edit.readSz false binding.present node key s' = .ok (if strip text = [] then none else some (strip text)) s'

section reading

variable {binding : Binding} {s : Session} {node : Path} {key : Name}

theorem fromBytes_regDword {v : Nat} (small : v < 2 ^ 32) :
    ∃ data, regDword v = some ⟨4, data⟩ ∧ data.length = 4 ∧ fromBytes data = v := by
  have range : (0 : Int) ≤ v ∧ (v : Int) < 2 ^ 32 := by omega
  have size (n : Nat) : (UInt8.ofNat n).toNat = n % 256 := UInt8.toNat_ofNat'
  rw [regDword, if_pos range]
  refine ⟨_, rfl, rfl, ?_⟩
  simp only [fromBytes, List.foldr_cons, List.foldr_nil, size, Int.toNat_natCast]
  omega

theorem nodeSetValue_run (there : (s.hive node).isSome) (value : Value) : Edit.nodeSetValue false node key value s =
    .ok () { s with hive := s.hive.write node fun n => if n = fold key then some value else none } := by
  rw [Edit.nodeSetValue, if_neg (by simp [Option.isNone_eq_false_iff.mpr there])]

theorem setValues_run {values : List (Name × Option Value)} (there : (s.hive node).isSome) (all : ∀ x ∈ values, x.2.isSome)
    (k : Nat) : ∃ s', Edit.setValues (fun _ => false) node k values s = .ok () s' ∧
      ∀ n, s'.hive.value node n = (valuesOf values n).or (s.hive.value node n) := by
  induction values generalizing s k with
  | nil => exact ⟨s, rfl, fun n => rfl⟩
  | cons x values ih =>
    obtain ⟨first, rest⟩ := List.forall_mem_cons.mp all
    obtain ⟨value, some⟩ := Option.isSome_iff_exists.mp first
    have there' : (({ s with hive := s.hive.write node fun n => if n = fold x.1 then .some value else none } : Session).hive
        node).isSome := by
      dsimp only
      rw [write_self]
      rfl
    obtain ⟨s', done, found⟩ := ih there' rest (k + 1)
    refine ⟨s', ?_, fun n => ?_⟩
    · rw [Edit.setValues, some, Edit.setValue, bind_of_ok (nodeSetValue_run there value), done]
    · rw [found, value_write_self, valuesOf_cons, some, Option.or_assoc]

theorem readValueDict_run (s : Session) : Edit.readValueDict false binding.present node key s =
    .ok ((s.hive.value node (fold key)).bind fun value => (binding.present value).dict) s := rfl

theorem readDword_eq (s : Session) : Edit.readDword false binding.present node key s =
    .ok (match binding, s.hive.value node (fold key) with
      | .dictionary, some value => if 4 ≤ value.data.length then some (fromBytes (value.data.take 4)) else none
      | _, _ => none) s := by
  refine (bind_of_ok (readValueDict_run s)).trans ?_
  cases binding <;> cases s.hive.value node (fold key) <;> rfl

theorem valuesOf_unlisted {values : List (Name × Nat)} {n : Name} (unlisted : ∀ x ∈ values, fold x.1 ≠ n) :
    valuesOf (dwords values) n = none := by
  induction values with
  | nil => rfl
  | cons x values ih =>
    obtain ⟨apart, rest⟩ := List.forall_mem_cons.mp unlisted
    have later := ih rest
    rw [dwords] at later ⊢
    rw [List.map_cons, valuesOf_cons, if_neg (Ne.symm apart), later]
    rfl

theorem valuesOf_dwords {values : List (Name × Nat)} {n : Name} (listed : ∃ x ∈ values, fold x.1 = n)
    (small : ∀ x ∈ values, x.2 < 2 ^ 32) : ∃ x ∈ values, fold x.1 = n ∧ valuesOf (dwords values) n = regDword x.2 := by
  induction values with
  | nil => simp at listed
  | cons x values ih =>
    obtain ⟨here, small⟩ := List.forall_mem_cons.mp small
    rw [dwords, List.map_cons, valuesOf_cons]
    by_cases later : ∃ y ∈ values, fold y.1 = n
    · obtain ⟨y, member, same, value⟩ := ih later small
      obtain ⟨data, made, -⟩ := fromBytes_regDword (small y member)
      refine ⟨y, List.mem_cons_of_mem _ member, same, ?_⟩
      rw [dwords] at value
      rw [value, made]
      rfl
    · obtain ⟨y, member, same⟩ := listed
      rcases List.mem_cons.mp member with rfl | inside
      · have nothing : valuesOf (dwords values) n = none :=
          valuesOf_unlisted fun z member same => later ⟨z, member, same⟩
        rw [dwords] at nothing
        exact ⟨y, List.mem_cons_self, same, by rw [nothing, Option.none_or, if_pos same.symm]⟩
      · exact absurd ⟨y, inside, same⟩ later

/-- The values are read back as they were set where the binding gives a dictionary, and names that differ in case only
have the same value. -/
theorem dwordsReadBack_iff (there : (s.hive node).isSome) {values : List (Name × Nat)} (small : ∀ x ∈ values, x.2 < 2 ^ 32) :
    DwordsReadBack binding s node values ↔
      values = [] ∨ binding = .dictionary ∧ ∀ x ∈ values, ∀ y ∈ values, fold x.1 = fold y.1 → x.2 = y.2 := by
  have all : ∀ x ∈ dwords values, x.2.isSome := by
    intro x member
    obtain ⟨y, inside, rfl⟩ := List.mem_map.mp member
    obtain ⟨data, made, -⟩ := fromBytes_regDword (small y inside)
    rw [made]
    rfl
  obtain ⟨s', done, found⟩ := setValues_run there all 0
  have read (x : Name × Nat) (member : x ∈ values) : ∃ y ∈ values, fold y.1 = fold x.1 ∧
      Edit.readDword false binding.present node x.1 s' =
        .ok (match binding with | .dictionary => some (y.2 : Int) | .handle => none) s' := by
    obtain ⟨y, inside, same, value⟩ := valuesOf_dwords ⟨x, member, rfl⟩ small
    obtain ⟨data, made, four, number⟩ := fromBytes_regDword (small y inside)
    have here : s'.hive.value node (fold x.1) = some ⟨4, data⟩ := by
      rw [found, value, made]
      rfl
    have whole : data.take 4 = data := List.take_of_length_le (by omega)
    refine ⟨y, inside, same, ?_⟩
    rw [readDword_eq, here]
    cases binding with
    | handle => rfl
    | dictionary =>
      dsimp only
      rw [if_pos (by omega), whole, number]
  constructor
  · rintro ⟨s'', done', back⟩
    rw [done] at done'
    cases done'
    by_cases none : values = []
    · exact .inl none
    refine .inr ⟨?_, fun x member y inside same => ?_⟩
    · obtain ⟨x, member⟩ := List.exists_mem_of_ne_nil values none
      obtain ⟨y, -, -, seen⟩ := read x member
      rw [back x member] at seen
      cases binding with
      | handle => cases seen
      | dictionary => rfl
    · have first := back x member
      rw [readDword_eq, same, ← readDword_eq, back y inside] at first
      obtain ⟨number, -⟩ := EStateM.Result.ok.inj first
      exact (Int.ofNat_inj.mp (Option.some.inj number)).symm
  · intro fits
    refine ⟨s', done, fun x member => ?_⟩
    obtain ⟨y, inside, same, seen⟩ := read x member
    rcases fits with rfl | ⟨rfl, fits⟩
    · cases member
    · rw [seen, fits y inside x member same]

theorem readSz_eq (s : Session) : Edit.readSz false binding.present node key s =
    .ok (match binding, s.hive.value node (fold key) with
      | .dictionary, some value =>
        if strip (decodeRegSz value.data) = [] then none else some (strip (decodeRegSz value.data))
      | _, _ => none) s := by
  refine (bind_of_ok (readValueDict_run s)).trans ?_
  cases binding <;> cases s.hive.value node (fold key) <;> rfl

theorem szReadsBack_iff (there : (s.hive node).isSome) {text : List Char} (last : text.getLast? ≠ some '\x00') {value : Value}
    (encoded : value.data = (regSz text).data) :
    SzReadsBack binding s node key text value ↔ binding = .dictionary ∨ strip text = [] := by
  have here : (s.hive.write node fun n => if n = fold key then some value else none).value node (fold key) = some value := by
    rw [value_write_self, if_pos rfl, Option.some_or]
  have decoded : decodeRegSz value.data = text := by rw [encoded, decodeRegSz_regSz, rdropWhile_of_last last]
  unfold SzReadsBack
  rw [nodeSetValue_run there]
  constructor
  · rintro ⟨s', done, back⟩
    cases done
    rw [readSz_eq, here] at back
    cases binding with
    | dictionary => exact .inl rfl
    | handle =>
      refine .inr ?_
      by_contra some
      rw [if_neg some] at back
      cases back
  · intro fits
    refine ⟨_, rfl, ?_⟩
    rw [readSz_eq, here]
    cases binding with
    | dictionary =>
      dsimp only
      rw [decoded]
    | handle => rw [if_pos (fits.resolve_left nofun)]

end reading

/-- Texts and numbers are encoded without loss, and read back where the binding gives a dictionary. -/
theorem registry_iff (text : List Char) (binding : Binding) (s : Session) (node : Path) :
    (text.getLast? ≠ some '\x00' → decodeRegSz (regSz text).data = text) ∧
    ((regSz text).data.length % 2 = 0 ∧ trailingZeros (units (regSz text).data) = trailingNuls text + 1) ∧
    (Function.Injective fun s => (regSz s).data) ∧
    (∀ values : List (Name × Nat), (s.hive node).isSome →
      (values.map Prod.fst).Nodup → (∀ x ∈ values, x.2 < 2 ^ 32) →
      (DwordsReadBack binding s node values ↔
        values = [] ∨ binding = .dictionary ∧ ∀ x ∈ values, ∀ y ∈ values, fold x.1 = fold y.1 → x.2 = y.2)) ∧
    (∀ key : Name, (s.hive node).isSome →
      text.getLast? ≠ some '\x00' → ∀ value ∈ [regSz text, regExpandSz text],
      (SzReadsBack binding s node key text value ↔ binding = .dictionary ∨ strip text = [])) := by
  refine ⟨fun last => ?_, ⟨?_, trailingZeros_regSz text⟩, regSz_injective,
    fun values there _ small => dwordsReadBack_iff there small, ?_⟩
  · rw [decodeRegSz_regSz, rdropWhile_of_last last]
  · rw [length_regSz, Nat.mul_mod_right]
  · intro key there last value member
    have encoded : value.data = (regSz text).data := by
      rcases List.mem_cons.mp member with rfl | member
      · rfl
      · rw [List.mem_singleton.mp member]
        rfl
    exact szReadsBack_iff there last encoded

/-- The start type of a driver, set through python-hivex: it is not read back. -/
theorem not_dwordsReadBack : ¬ DwordsReadBack .handle ⟨fun _ => some fun _ => none, fun _ => none, {}⟩ []
    [("Start".toList, 2)] := by
  rintro ⟨s', done, back⟩
  have read := back _ List.mem_cons_self
  cases done
  cases read

end H2kvm.Windows
