import H2kvm.Network.Renames

namespace H2kvm.Core.FirmwareResolver

open Framework Text

inductive FirmwareMode where
  | bios
  | uefi
  deriving DecidableEq

inductive UserFirmwareMode where
  | auto
  | explicit (firmware : FirmwareMode)
  deriving DecidableEq

inductive Confidence where
  | high
  | medium
  | low
  deriving DecidableEq

structure FirmwareSignals where
  bootMode : Option String := none
  partitionScheme : Option String := none
  hasEfiPartition : Option Bool := none
  windowsBcdBios : Bool := false
  windowsBcdUefi : Bool := false
  hypervGeneration : Option Int := none
  ovfFirmware : Option String := none
  isWindows : Bool := false

structure FirmwareResolution where
  firmware : FirmwareMode
  userMode : UserFirmwareMode
  source : String
  confidence : Confidence
  alternate : FirmwareMode
  signals : FirmwareSignals

/-- `reconcile_legacy_firmware_flags`, which `normalize_user_firmware_mode` returns as it is. -/
def reconcileLegacyFirmwareFlags (firmwareMode : Option (List Char)) (uefiFlag : Option Bool) : UserFirmwareMode :=
  let given := (firmwareMode.filter (· ≠ [])).getD "auto".toList
  let mode := Network.lower (strip given)
  if mode = "bios".toList then .explicit .bios
  else if mode = "uefi".toList then .explicit .uefi
  else if uefiFlag = some true then .explicit .uefi
  else .auto

/-- A score with the reasons for it. -/
structure Score where
  points : Nat := 0
  reasons : List String := []

/-- A signal that holds adds to the score. -/
def Score.hint (score : Score) (holds : Bool) (points : Nat) (reason : String) : Score :=
  if holds then ⟨score.points + points, score.reasons ++ [reason]⟩ else score

@[simp] theorem Score.points_hint (score : Score) (holds : Bool) (points : Nat) (reason : String) :
    (score.hint holds points reason).points = score.points + if holds then points else 0 := by
  cases holds with
  | true => simp [hint]
  | false => simp [hint]

def FirmwareMode.other : FirmwareMode → FirmwareMode
  | .bios => .uefi
  | .uefi => .bios

namespace FirmwareSignals

variable (s t : FirmwareSignals)

def scoreBios : Score :=
  ({} : Score)
    |>.hint (s.bootMode = some "bios") 40 "offline_boot_mode=bios"
    |>.hint (s.windowsBcdBios && !s.windowsBcdUefi) 35 "windows_bcd=bios"
    |>.hint (s.partitionScheme = some "mbr") 25 "partition_table=mbr"
    |>.hint (s.hasEfiPartition = some false) 20 "no_efi_partition"
    |>.hint (s.hypervGeneration = some 1) 15 "hyperv_gen1"
    |>.hint (s.ovfFirmware = some "bios") 15 "ovf_firmware=bios"

def scoreUefi : Score :=
  ({} : Score)
    |>.hint (s.bootMode = some "uefi") 40 "offline_boot_mode=uefi"
    |>.hint (s.windowsBcdUefi && !s.windowsBcdBios) 35 "windows_bcd=uefi"
    |>.hint (s.hasEfiPartition = some true) 30 "efi_system_partition"
    |>.hint (s.partitionScheme = some "gpt") 20 "partition_table=gpt"
    |>.hint (s.hypervGeneration = some 2) 15 "hyperv_gen2"
    |>.hint (s.ovfFirmware = some "uefi") 15 "ovf_firmware=uefi"

/-- There are two boot configurations of Windows, and the partitions decide for BIOS. -/
def prefersMbr : Bool :=
  s.windowsBcdBios && s.windowsBcdUefi && (s.partitionScheme = some "mbr" || s.hasEfiPartition = some false)

def prefersGpt : Bool :=
  s.windowsBcdBios && s.windowsBcdUefi && !(s.partitionScheme = some "mbr" || s.hasEfiPartition = some false) &&
    (s.partitionScheme = some "gpt" || s.hasEfiPartition = some true)

/-- The scores that `resolve_firmware` compares. -/
def biosScore : Score :=
  s.scoreBios
    |>.hint s.prefersMbr 25 "dual_bcd_prefer_mbr"
    |>.hint (s.partitionScheme = some "mbr" && s.hasEfiPartition = some false) 30 "mbr_no_efi_requires_bios"

def uefiScore : Score := s.scoreUefi.hint s.prefersGpt 25 "dual_bcd_prefer_gpt"

end FirmwareSignals

def confidenceOf (points : Nat) : Confidence := if 40 ≤ points then .high else if 20 ≤ points then .medium else .low

def autoSource (reasons : List String) : String := "auto:" ++ String.intercalate "," (reasons.take 4)

def resolveFirmware (userMode : UserFirmwareMode) (signals : Option FirmwareSignals) : FirmwareResolution :=
  let sig := signals.getD {}
  match userMode with
  | .explicit firmware => ⟨firmware, userMode, "user_override", .high, firmware.other, sig⟩
  | .auto =>
    let bios := sig.biosScore
    let uefi := sig.uefiScore
    if bios.points = 0 ∧ uefi.points = 0 then ⟨.bios, .auto, "default_safe", .low, .uefi, sig⟩
    else if bios.points < uefi.points then
      ⟨.uefi, .auto, autoSource uefi.reasons, confidenceOf uefi.points, .bios, sig⟩
    else ⟨.bios, .auto, autoSource bios.reasons, confidenceOf bios.points, .uefi, sig⟩

section evidence

/-- The second value of a signal points to UEFI at least as much as the first. -/
structure Towards {α : Type} (bios uefi : α) (before after : Option α) : Prop where
  bios : after = some bios → before = some bios
  uefi : before = some uefi → after = some uefi

/-- Every signal of `t` points to UEFI at least as much as that of `s`. -/
structure FirmwareSignals.Towards (s t : FirmwareSignals) : Prop where
  boot : FirmwareResolver.Towards "bios" "uefi" s.bootMode t.bootMode
  partition : FirmwareResolver.Towards "mbr" "gpt" s.partitionScheme t.partitionScheme
  efi : FirmwareResolver.Towards false true s.hasEfiPartition t.hasEfiPartition
  bcdBios : t.windowsBcdBios = true → s.windowsBcdBios = true
  bcdUefi : s.windowsBcdUefi = true → t.windowsBcdUefi = true
  hyperv : FirmwareResolver.Towards 1 2 s.hypervGeneration t.hypervGeneration
  ovf : FirmwareResolver.Towards "bios" "uefi" s.ovfFirmware t.ovfFirmware

/-- The points of the boot configurations and the partitions, for BIOS and for UEFI. -/
def diskPoints (bcdBios bcdUefi mbr gpt noEfi efi : Bool) : Nat × Nat :=
  let points (holds : Bool) (n : Nat) := if holds then n else 0
  (points (bcdBios && !bcdUefi) 35 + points mbr 25 + points noEfi 20 +
      points (bcdBios && bcdUefi && (mbr || noEfi)) 25 + points (mbr && noEfi) 30,
    points (bcdUefi && !bcdBios) 35 + points efi 30 + points gpt 20 +
      points (bcdBios && bcdUefi && !(mbr || noEfi) && (gpt || efi)) 25)

/-- The disk's part of the lead of UEFI does not shrink, which its two scores alone do not show: a second boot
configuration takes points from both. -/
theorem diskPoints_mono : ∀ b b' u u' m m' g g' n n' e e' : Bool, (b' → b) → (u → u') → (m' → m) → (g → g') → (n' → n) →
    (e → e') → (diskPoints b u m g n e).2 + (diskPoints b' u' m' g' n' e').1 ≤
      (diskPoints b' u' m' g' n' e').2 + (diskPoints b u m g n e).1 := by
  decide +kernel

namespace FirmwareSignals

variable {s t : FirmwareSignals}

def disk (s : FirmwareSignals) : Nat × Nat :=
  diskPoints s.windowsBcdBios s.windowsBcdUefi (s.partitionScheme = some "mbr") (s.partitionScheme = some "gpt")
    (s.hasEfiPartition = some false) (s.hasEfiPartition = some true)

theorem points_biosScore (s : FirmwareSignals) : s.biosScore.points = s.disk.1 +
    (if s.bootMode = some "bios" then 40 else 0) + (if s.hypervGeneration = some 1 then 15 else 0) +
      (if s.ovfFirmware = some "bios" then 15 else 0) := by
  simp only [biosScore, scoreBios, prefersMbr, disk, diskPoints, Score.points_hint, decide_eq_true_eq]
  omega

theorem points_uefiScore (s : FirmwareSignals) : s.uefiScore.points = s.disk.2 +
    (if s.bootMode = some "uefi" then 40 else 0) + (if s.hypervGeneration = some 2 then 15 else 0) +
      (if s.ovfFirmware = some "uefi" then 15 else 0) := by
  simp only [uefiScore, scoreUefi, prefersGpt, disk, diskPoints, Score.points_hint, decide_eq_true_eq]
  omega

theorem disk_mono (towards : s.Towards t) : s.disk.2 + t.disk.1 ≤ t.disk.2 + s.disk.1 := by
  apply diskPoints_mono
  · exact towards.bcdBios
  · exact towards.bcdUefi
  · simpa using towards.partition.bios
  · simpa using towards.partition.uefi
  · simpa using towards.efi.bios
  · simpa using towards.efi.uefi

end FirmwareSignals

/-- A pair of hints, one for each firmware. -/
theorem hints_mono {α : Type} [DecidableEq α] {bios uefi : α} {before after : Option α}
    (towards : Towards bios uefi before after) (n : Nat) :
    (if before = some uefi then n else 0) + (if after = some bios then n else 0) ≤
      (if after = some uefi then n else 0) + (if before = some bios then n else 0) := by
  have up : (if before = some uefi then n else 0) ≤ if after = some uefi then n else 0 := by
    split
    · next high => rw [if_pos (towards.uefi high)]
    · exact Nat.zero_le _
  have down : (if after = some bios then n else 0) ≤ if before = some bios then n else 0 := by
    split
    · next low => rw [if_pos (towards.bios low)]
    · exact Nat.zero_le _
  omega

theorem resolveFirmware_eq_uefi (s : FirmwareSignals) :
    (resolveFirmware .auto (some s)).firmware = .uefi ↔ s.biosScore.points < s.uefiScore.points := by
  simp only [resolveFirmware, Option.getD_some]
  split
  · next h => simp [h.1, h.2]
  · split <;> simp [*]

/-- More evidence for UEFI never turns a disk that boots by UEFI into one that boots by BIOS. -/
theorem resolveFirmware_towards {s t : FirmwareSignals} (towards : s.Towards t)
    (uefi : (resolveFirmware .auto (some s)).firmware = .uefi) : (resolveFirmware .auto (some t)).firmware = .uefi := by
  rw [resolveFirmware_eq_uefi, FirmwareSignals.points_biosScore, FirmwareSignals.points_uefiScore] at uefi ⊢
  have disk := FirmwareSignals.disk_mono towards
  have boot := hints_mono towards.boot 40
  have hyperv := hints_mono towards.hyperv 15
  have ovf := hints_mono towards.ovf 15
  omega

/-- A partition table of its own does not say that there is an EFI partition, and is told when that is found. -/
theorem resolveFirmware_towards_efi :
    (resolveFirmware .auto (some { partitionScheme := some "gpt", hasEfiPartition := some true })).firmware = .uefi := by
  refine resolveFirmware_towards (s := { partitionScheme := some "gpt" }) ?_ (by decide)
  constructor
  all_goals first
    | exact ⟨by decide, by decide⟩
    | exact id

/-- The scores of a disk with an MBR and no EFI partition: `b`, `g` and `o` are the boot mode, the generation and the OVF
firmware, each for BIOS and for UEFI. -/
theorem mbr_lead_iff : ∀ bcdBios bcdUefi b b' g g' o o' : Bool, ((b && b') || (g && g') || (o && o')) = false →
    decide ((diskPoints bcdBios bcdUefi true false true false).1 + (if b then 40 else 0) + (if g then 15 else 0) +
        (if o then 15 else 0) <
      (diskPoints bcdBios bcdUefi true false true false).2 + (if b' then 40 else 0) + (if g' then 15 else 0) +
        (if o' then 15 else 0)) = (b' && bcdUefi && !bcdBios && (g' && !o || o' && !g)) := by
  decide +kernel

/-- A disk with an MBR on which no EFI partition was found, which no UEFI firmware boots, is given UEFI nonetheless where
the offline boot mode, the only boot configuration of Windows and more of the other hints than not say so. -/
theorem resolveFirmware_mbr_iff {s : FirmwareSignals} (mbr : s.partitionScheme = some "mbr")
    (noEfi : s.hasEfiPartition = some false) :
    (resolveFirmware .auto (some s)).firmware = .uefi ↔
      s.bootMode = some "uefi" ∧ s.windowsBcdUefi = true ∧ s.windowsBcdBios = false ∧
        (s.hypervGeneration = some 2 ∧ s.ovfFirmware ≠ some "bios" ∨
          s.ovfFirmware = some "uefi" ∧ s.hypervGeneration ≠ some 1) := by
  have apart {α : Type} [DecidableEq α] {x y : α} (signal : Option α) (differ : x ≠ y) :
      (decide (signal = some x) && decide (signal = some y)) = false := by
    by_cases first : signal = some x
    · simp [first, differ]
    · simp [first]
  have lead := mbr_lead_iff s.windowsBcdBios s.windowsBcdUefi (s.bootMode = some "bios") (s.bootMode = some "uefi")
    (s.hypervGeneration = some 1) (s.hypervGeneration = some 2) (s.ovfFirmware = some "bios") (s.ovfFirmware = some "uefi")
    (by simp [apart])
  rw [resolveFirmware_eq_uefi, FirmwareSignals.points_biosScore, FirmwareSignals.points_uefiScore,
    FirmwareSignals.disk, mbr, noEfi]
  simpa [and_assoc] using congrArg (· = true) lead

theorem resolveFirmware_mbr_iff_generation : (resolveFirmware .auto (some
    { bootMode := some "uefi", partitionScheme := some "mbr", hasEfiPartition := some false, windowsBcdUefi := true,
      hypervGeneration := some 2 })).firmware = .uefi :=
  (resolveFirmware_mbr_iff rfl rfl).mpr ⟨rfl, rfl, rfl, .inl ⟨rfl, by decide⟩⟩

end evidence

end H2kvm.Core.FirmwareResolver
