import H2kvm.Deployers.DnsName
import H2kvm.Framework.Quantity

namespace H2kvm.Deployers

open Framework Text

/-- What is found out about an image: the virtual size qemu-img reports, and the size of the file. -/
structure Probe where
  virtualSize : Option Nat
  fileSize : Option Nat

/-- The gibibytes wanted for a virtual size. -/
def wantedGib (virtualSize : Nat) : Nat := max (⌊(virtualSize : ℚ) / 1024 ^ 3 * (105 / 100)⌋₊ + 1) 5

/-- The gibibytes wanted where only the size of the file is known. -/
def wantedGibOfFile (fileSize : Nat) : Nat := min (max (⌊(fileSize : ℚ) / 1024 ^ 3 * (12 / 10)⌋₊ + 8) 35) 2048

def Probe.wanted (probe : Probe) : Option Nat :=
  (probe.virtualSize.map wantedGib).or (probe.fileSize.map wantedGibOfFile)

/-- `^(\d+(?:\.\d+)?)\s*unit\s*$`, and the number. -/
def sized (unit s : List Char) : Option ℚ := do
  let (number, rest) ← Decimal.match? s
  let rest ← after unit (lstrip rest)
  if lstrip rest = [] then some number.value else none

/-- `_parse_pvc_size_gib`. -/
def parsePvcSizeGib (pvcSize : List Char) : Nat :=
  let s := lower (strip (if pvcSize = [] then "10Gi".toList else pvcSize))
  match sized ['g', 'i'] s with
  | some gib => max 1 ⌊gib⌋₊
  | none =>
    match sized ['m', 'i'] s with
    | some mib => max 1 ⌊(mib + 1023) / 1024⌋₊
    | none => 10

/-- `_sync_pvc_size_from_disk`, and the size that is requested after it. -/
def syncPvcSizeFromDisk (pvcSize : List Char) (probe : Probe) : List Char :=
  match probe.wanted with
  | some wanted => if parsePvcSizeGib pvcSize < wanted then (Quantity.gi wanted).text else pvcSize
  | none => pvcSize

/-- The size that `_upload_via_cdi` requests. -/
def cdiPvcSize (pvcSize : List Char) (probe : Probe) : List Char :=
  match probe.wanted with
  | some wanted => (Quantity.gi wanted).text
  | none => pvcSize

/-- A text is read as at least so many bytes. -/
def Requests (size : List Char) (bytes : ℚ) : Prop := ∃ q, Quantity.read size = some q ∧ bytes ≤ q.bytes

/-! ### The wanted size -/

theorem lt_wantedGib (virtualSize : Nat) : (virtualSize : ℚ) / 1024 ^ 3 < wantedGib virtualSize := by
  have nonneg : (0 : ℚ) ≤ (virtualSize : ℚ) / 1024 ^ 3 := by positivity
  have more : (virtualSize : ℚ) / 1024 ^ 3 ≤ (virtualSize : ℚ) / 1024 ^ 3 * (105 / 100) := by linarith
  have floor := Nat.lt_floor_add_one ((virtualSize : ℚ) / 1024 ^ 3 * (105 / 100))
  have most : ((⌊(virtualSize : ℚ) / 1024 ^ 3 * (105 / 100)⌋₊ + 1 : Nat) : ℚ) ≤ wantedGib virtualSize :=
    Nat.cast_le.mpr (le_max_left _ _)
  push_cast at most
  linarith

theorem five_le_wantedGib (virtualSize : Nat) : 5 ≤ wantedGib virtualSize := le_max_right _ _

theorem le_wantedGib (virtualSize : Nat) : (virtualSize : ℚ) ≤ wantedGib virtualSize * 1024 ^ 3 := by
  have lt := lt_wantedGib virtualSize
  rw [div_lt_iff₀ (by positivity)] at lt
  exact lt.le

theorem le_wantedGibOfFile_iff (fileSize : Nat) :
    (fileSize : ℚ) ≤ wantedGibOfFile fileSize * 1024 ^ 3 ↔ fileSize ≤ 2048 * 1024 ^ 3 := by
  have nonneg : (0 : ℚ) ≤ (fileSize : ℚ) / 1024 ^ 3 := by positivity
  have floor := Nat.lt_floor_add_one ((fileSize : ℚ) / 1024 ^ 3 * (12 / 10))
  have scaled : (fileSize : ℚ) ≤ wantedGibOfFile fileSize * 1024 ^ 3 ↔ (fileSize : ℚ) / 1024 ^ 3 ≤ wantedGibOfFile fileSize :=
    (div_le_iff₀ (by positivity)).symm
  have capped : fileSize ≤ 2048 * 1024 ^ 3 ↔ (fileSize : ℚ) / 1024 ^ 3 ≤ 2048 := by
    rw [div_le_iff₀ (by positivity)]
    exact_mod_cast Iff.rfl
  rw [scaled, capped, wantedGibOfFile, Nat.cast_min, Nat.cast_max]
  push_cast
  constructor
  · exact fun le => le.trans (min_le_right _ _)
  · intro le
    refine le_min (le_max_of_le_left ?_) le
    linarith

/-! ### The configured size -/

section parsing

variable {number : Decimal} {suffix : Quantity.Suffix}

theorem number_chars (digits : number.Digits) {c : Char} (member : c ∈ number.text) : c.isDigit = true ∨ c = '.' := by
  obtain ⟨whole, fraction⟩ := number
  rcases List.mem_append.mp member with inside | inside
  · exact .inl (digits.whole c inside)
  · cases fraction with
    | none => cases inside
    | some fraction =>
      rcases List.mem_cons.mp inside with point | inside
      · exact .inr point
      · exact .inl (digits.fraction fraction rfl c inside)

theorem isSpace_number (digits : number.Digits) : ∀ c ∈ number.text, isSpace c = false := by
  intro c member
  rcases number_chars digits member with digit | rfl
  · exact isSpace_of_isDigit (Decimal.isDigit_of_ascii digit)
  · rfl

theorem isSpace_suffix (suffix : Quantity.Suffix) : ∀ c ∈ suffix.text, isSpace c = false := by
  cases suffix <;> decide

theorem toLower_of_isDigit {c : Char} (digit : c.isDigit = true) : c.toLower = c := by
  rw [Char.toLower, dif_neg]
  rintro ⟨upper, -⟩
  simp only [Char.isDigit, Bool.and_eq_true, decide_eq_true_eq] at digit
  have upper' : 65 ≤ c.val.toNat := upper
  have digit' : c.val.toNat ≤ 57 := digit.2
  omega

theorem lower_number (digits : number.Digits) : lower number.text = number.text := by
  refine lower_eq_self fun c member => ?_
  rcases number_chars digits member with digit | rfl
  · have ascii := digit
    simp only [Char.isDigit, Bool.and_eq_true, decide_eq_true_eq] at ascii
    have most : c.toNat ≤ 57 := ascii.2
    exact ⟨toLower_of_isDigit digit, by omega⟩
  · decide

theorem text_ne_nil {q : Quantity} (valid : q.Valid) : q.text ≠ [] := by
  intro empty
  have bare := (List.append_eq_nil_iff.mp (List.append_eq_nil_iff.mp empty).1)
  cases fraction : q.number.fraction with
  | none => exact valid.some (by rw [bare.1, fraction]; rfl)
  | some digits =>
    rw [fraction] at bare
    cases bare.2

theorem lower_strip (q : Quantity) (valid : q.Valid) : lower (strip q.text) = q.number.text ++ lower q.suffix.text := by
  have visible : ∀ c ∈ q.text, isSpace c = false := by
    intro c member
    rcases List.mem_append.mp member with inside | inside
    · exact isSpace_number valid.digits c inside
    · exact isSpace_suffix q.suffix c inside
  have stripped : strip q.text = q.text := strip_eq_self (text_ne_nil valid) visible
  rw [stripped, Quantity.text, lower_append, lower_number valid.digits]

theorem sized_plain (plain : number.Plain) (digits : number.Digits) (suffix : Quantity.Suffix) :
    sized ['g', 'i'] (number.text ++ lower suffix.text) = (if suffix = .Gi then some number.value else none) ∧
    sized ['m', 'i'] (number.text ++ lower suffix.text) = (if suffix = .Mi then some number.value else none) := by
  have stop : ∀ c, (lower suffix.text).head? = some c → isDigit c = false ∧ c ≠ '.' := by
    cases suffix <;> rintro c ⟨⟩ <;> decide
  unfold sized
  rw [Decimal.match?_text plain digits stop]
  cases suffix <;> exact ⟨rfl, rfl⟩

theorem sized_crooked (crooked : ¬ number.Plain) (digits : number.Digits)
    (some : number.whole ++ number.fraction.getD [] ≠ []) (suffix : Quantity.Suffix) :
    sized ['g', 'i'] (number.text ++ lower suffix.text) = none ∧
      sized ['m', 'i'] (number.text ++ lower suffix.text) = none := by
  have stop : ∀ c, (lower suffix.text).head? = .some c → isDigit c = false := by
    cases suffix <;> rintro c ⟨⟩ <;> decide
  unfold sized
  rcases Decimal.match?_crooked crooked digits some stop with nothing | short
  · rw [nothing]
    exact ⟨rfl, rfl⟩
  · rw [short]
    exact ⟨rfl, rfl⟩

theorem parsePvcSizeGib_text (q : Quantity) (valid : q.Valid) : parsePvcSizeGib q.text =
    if q.number.Plain ∧ q.suffix = .Gi then max 1 ⌊q.number.value⌋₊
    else if q.number.Plain ∧ q.suffix = .Mi then max 1 ⌊(q.number.value + 1023) / 1024⌋₊
    else 10 := by
  unfold parsePvcSizeGib
  rw [if_neg (text_ne_nil valid), lower_strip q valid]
  by_cases plain : q.number.Plain
  · obtain ⟨gib, mib⟩ := sized_plain plain valid.digits q.suffix
    simp only [gib, mib, plain, true_and]
    by_cases gi : q.suffix = .Gi
    · simp only [gi, if_true]
    · by_cases mi : q.suffix = .Mi
      · simp only [mi, if_true, reduceCtorEq, if_false]
      · simp only [gi, mi, if_false]
  · obtain ⟨gib, mib⟩ := sized_crooked plain valid.digits valid.some q.suffix
    simp only [gib, mib, plain, false_and, if_false]

end parsing

/-! ### What is requested -/

/-- The configured size does not mislead: one in Gi is understood, one in Mi is rounded up, and any other is taken
for 10Gi. -/
def Fits (size : Quantity) (virtualSize : Nat) : Prop :=
  if size.number.Plain ∧ size.suffix = .Gi then True
  else if size.number.Plain ∧ size.suffix = .Mi then
    ⌊(size.number.value + 1023) / 1024⌋₊ < wantedGib virtualSize ∨ (virtualSize : ℚ) ≤ size.bytes
  else if 10 < wantedGib virtualSize then size.bytes ≤ wantedGib virtualSize * 1024 ^ 3
  else (virtualSize : ℚ) ≤ size.bytes

theorem requests_read {size : List Char} {q : Quantity} (read : Quantity.read size = some q) (bytes : ℚ) :
    Requests size bytes ↔ bytes ≤ q.bytes := by
  rw [Requests, read]
  constructor
  · rintro ⟨q, ⟨⟩, covers⟩
    exact covers
  · exact fun covers => ⟨_, rfl, covers⟩

theorem requests_gi (n : Nat) (bytes : ℚ) : Requests (Quantity.gi n).text bytes ↔ bytes ≤ n * 1024 ^ 3 := by
  rw [requests_read (Quantity.read_gi n), Quantity.gi_bytes]

variable {size : List Char} {q : Quantity} {virtualSize : Nat}

theorem sync_iff (read : Quantity.read size = some q) (file : Option Nat) :
    (Requests (syncPvcSizeFromDisk size ⟨some virtualSize, file⟩) virtualSize ∧
      Requests (syncPvcSizeFromDisk size ⟨some virtualSize, file⟩) q.bytes) ↔
    if parsePvcSizeGib size < wantedGib virtualSize then q.bytes ≤ wantedGib virtualSize * 1024 ^ 3
    else (virtualSize : ℚ) ≤ q.bytes := by
  rw [syncPvcSizeFromDisk, Probe.wanted, Option.map_some, Option.some_or]
  dsimp only
  split
  · rw [requests_gi, requests_gi]
    exact and_iff_right (le_wantedGib virtualSize)
  · rw [requests_read read, requests_read read]
    exact and_iff_left le_rfl

theorem fits_iff (q : Quantity) (valid : q.Valid) : Fits q virtualSize ↔
    if parsePvcSizeGib q.text < wantedGib virtualSize then q.bytes ≤ wantedGib virtualSize * 1024 ^ 3
    else (virtualSize : ℚ) ≤ q.bytes := by
  have wanted := lt_wantedGib virtualSize
  have five := five_le_wantedGib virtualSize
  rw [Fits, parsePvcSizeGib_text q valid]
  by_cases gi : q.number.Plain ∧ q.suffix = .Gi
  · have bytes : q.bytes = q.number.value * 1024 ^ 3 := by rw [Quantity.bytes, gi.2, Quantity.Suffix.factor]
    have floor := Nat.lt_floor_add_one q.number.value
    rw [if_pos gi, if_pos gi, true_iff, bytes]
    split
    · next less =>
      have most : ((⌊q.number.value⌋₊ + 1 : Nat) : ℚ) ≤ wantedGib virtualSize := Nat.cast_le.mpr (by omega)
      push_cast at most
      exact mul_le_mul_of_nonneg_right (by linarith) (by positivity)
    · next enough =>
      have most : (wantedGib virtualSize : ℚ) ≤ ⌊q.number.value⌋₊ := Nat.cast_le.mpr (by omega)
      have under := Nat.floor_le q.number.value_nonneg
      rw [← div_le_iff₀ (by positivity)]
      linarith
  · rw [if_neg gi, if_neg gi]
    by_cases mi : q.number.Plain ∧ q.suffix = .Mi
    · have bytes : q.bytes = q.number.value * 1024 ^ 2 := by rw [Quantity.bytes, mi.2, Quantity.Suffix.factor]
      rw [if_pos mi, if_pos mi]
      by_cases less : ⌊(q.number.value + 1023) / 1024⌋₊ < wantedGib virtualSize
      · have floor := Nat.lt_floor_add_one ((q.number.value + 1023) / 1024)
        have most : ((⌊(q.number.value + 1023) / 1024⌋₊ + 1 : Nat) : ℚ) ≤ wantedGib virtualSize := Nat.cast_le.mpr less
        push_cast at most
        rw [if_pos (by omega), bytes]
        refine iff_of_true (.inl less) ?_
        linarith
      · rw [if_neg (by omega)]
        exact or_iff_right less
    · rw [if_neg mi, if_neg mi]

/-- Where qemu-img reports the virtual size, the request for the disk covers it and the configured size exactly when that
does not mislead, and the request for the upload covers it; a size from the file is too small only beyond the cap. -/
theorem pvcSize_iff (size : List Char) (virtualSize : Nat) (file : Option Nat) :
    (∀ q : Quantity, Quantity.read size = some q →
      ((Requests (syncPvcSizeFromDisk size ⟨some virtualSize, file⟩) virtualSize ∧
        Requests (syncPvcSizeFromDisk size ⟨some virtualSize, file⟩) q.bytes) ↔ Fits q virtualSize)) ∧
    Requests (cdiPvcSize size ⟨some virtualSize, file⟩) virtualSize ∧
    ∀ fileSize : Nat, ((fileSize : ℚ) ≤ wantedGibOfFile fileSize * 1024 ^ 3 ↔ fileSize ≤ 2048 * 1024 ^ 3) ∧
      (Requests (cdiPvcSize size ⟨none, some fileSize⟩) fileSize ↔ fileSize ≤ 2048 * 1024 ^ 3) := by
  refine ⟨fun q read => ?_, ?_, fun fileSize => ⟨?_, ?_⟩⟩
  · obtain ⟨text, valid⟩ := Quantity.read_eq_some read
    rw [sync_iff read, fits_iff q valid, text]
  · exact (requests_gi _ _).mpr (le_wantedGib virtualSize)
  · exact le_wantedGibOfFile_iff fileSize
  · exact (requests_gi _ _).trans (le_wantedGibOfFile_iff fileSize)

/-- A disk of 20 GiB makes 22Gi of 1Ti. -/
theorem not_requests_terabyte : Quantity.read "1Ti".toList = some ⟨⟨['1'], none⟩, .Ti⟩ ∧
    ¬ Requests (syncPvcSizeFromDisk "1Ti".toList ⟨some (20 * 1024 ^ 3), none⟩) (Quantity.bytes ⟨⟨['1'], none⟩, .Ti⟩) := by
  have read : Quantity.read "1Ti".toList = some ⟨⟨['1'], none⟩, .Ti⟩ := by decide +kernel
  have synced : syncPvcSizeFromDisk "1Ti".toList ⟨some (20 * 1024 ^ 3), none⟩ = (Quantity.gi 22).text := by decide +kernel
  refine ⟨read, ?_⟩
  rw [synced, requests_gi]
  decide +kernel

end H2kvm.Deployers
